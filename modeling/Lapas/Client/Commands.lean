import Lapas.Rust
import Lapas.Server.Locks

/-!
# The commands of the client

A command connects to the server, sends one request and prints what the answer says.  Any number
of commands run at a time, beside clients that may send anything, and the tasks of the server
take turns between them; what a command reports has to be true all the same.

## Main definitions

* `CliArgs`, `request`, `respond` — a command, its packet, and what it makes of the answer.
* `Task` — where a command is, between `lapas_connect` and its end.
* `Commands`, `commands` — the server and its clients.
* `Answered`, `Outcome` — what the answer to a command, and its result, say about what has happened.
* `Serving` — the task of the server is at the request of a command.

## Main results

* `grows_of_step` — the server forgets neither users nor host files.
* `Serving.serve` — **what a step of the server does for a command.**
-/

namespace Lapas
namespace Client

open Proto Server

variable {chrono : Chrono} {ι : Type}

/-! ### One command -/

/-- The commands of `lapas-api-client` with their arguments, other than `Daemon`, which is modelled
with the local server it starts. -/
inductive ClientCommand
  | checkAuth
  | addDnsMapping (username : String)
  | addUser (username password : String)
  | listUsers

/-- The command line, without the address of the server. -/
structure CliArgs where
  apiPassword : Option String
  command : ClientCommand

/-- How a command fails: the text that `main` returns, with the cases that the source tells apart by
their messages. -/
inductive Error
  /-- `Authentication option required` -/
  | authenticationOption
  /-- `This action requires authentication` -/
  | authenticationRequired
  /-- `Received unexpected response` -/
  | unexpectedResponse
  /-- `Conncting to lapas api server failed: ` -/
  | connecting (e : String)
  /-- An error of the server, with its context. -/
  | context (what e : String)
  /-- A packet cannot be sent or read. -/
  | io

/-- `args_to_auth`: the commands that need a password fail without one. -/
def argsToAuth (args : CliArgs) : Except Error ApiAuth :=
  match args.apiPassword with
  | some apiPassword => .ok (.password apiPassword)
  | none => .error .authenticationRequired

/-- The packet that `perform_request!` sends for a command. A command that needs an authentication
fails in front of the packet when the options give none. -/
def request (args : CliArgs) : Except Error (LapasProtocol chrono) :=
  match args.command with
  | .checkAuth => do
    let auth ← argsToAuth args
    return .controlCheckAuth auth
  | .addDnsMapping username => do
    let auth ← argsToAuth args
    return .userDnsMapping auth username
  | .addUser username password => do
    let auth ← argsToAuth args
    return .userRegister auth username password
  | .listUsers => return .passwdGetList

/-- The lines that `cmd_list_users` prints: the users of the response, sorted by their ids, each
with its id in front of its name. -/
def listing (users : List LapasUserPasswd) : List String :=
  (users.mergeSort fun u v => u.id ≤ v.id).map fun user => toString user.id ++ ": " ++ user.name

/-- What a command makes of the response: the lines that it prints, or its error. -/
def respond : ClientCommand → LapasProtocol chrono → Except Error (List String)
  | .checkAuth, .controlCheckAuthResponse result => do
    result.mapError (.context "Checking API authentication")
    return ["Authentication Successful"]
  | .addDnsMapping username, .userDnsMappingResponse result => do
    result.mapError (.context "Adding DNS Mapping for this machine")
    return ["DNS Mapping for user: " ++ username ++ " to this device successfully created"]
  | .addUser username _, .userRegisterResponse result => do
    result.mapError (.context "Registering new user")
    return ["User: " ++ username ++ " was successfully created"]
  | .listUsers, .passwdGetListResponse result => do
    let users ← result.mapError (.context "Acquiring list of registered users")
    return listing users.elems
  | _, _ => .error .unexpectedResponse

/-- Where a command is between its start and its end; each constructor is one of the awaits of
`lapas_connect` and of the command. -/
inductive Task
  /-- `lapas_connect` sends the handshake. -/
  | connecting
  /-- It waits for the response. -/
  | handshake
  /-- The command sends its request. -/
  | connected
  /-- It waits for the response. -/
  | requested
  | returned (result : Except Error (List String))

/-- `main`, in front of `lapas_connect`: every command but `Daemon` needs the option for the API
password, also the one that sends no authentication. -/
def Task.main (args : CliArgs) : Task :=
  if args.apiPassword.isNone then .returned (.error .authenticationOption) else .connecting

/-- The command sends its next packet: the handshake, then its request. A request that cannot be
built ends the command instead. -/
def Task.send (args : CliArgs) : Task → Option (Task × List (LapasProtocol chrono))
  | .connecting => some (.handshake, [.controlHandshake version])
  | .connected =>
    match request args with
    | .ok packet => some (.requested, [packet])
    | .error e => some (.returned (.error e), [])
  | _ => none

/-- A packet arrives: the handshake has to be accepted, and what comes after the request is matched
by `respond`. -/
def Task.receive (command : ClientCommand) (packet : LapasProtocol chrono) : Task → Option Task
  | .handshake =>
    match packet with
    | .controlHandshakeResponse (.ok ()) => some .connected
    | .controlHandshakeResponse (.error e) => some (.returned (.error (.connecting e)))
    | _ => some (.returned (.error .unexpectedResponse))
  | .requested => some (.returned (respond command packet))
  | _ => none

/-- The connection fails at any await of the command, which then returns with that error and prints
nothing. -/
def Task.lose : Task → Option Task
  | .returned _ => none
  | _ => some (.returned (.error .io))

/-! ### The system -/

/-- The commands of any number of clients, the server that they talk to, and the packets on their
way in both directions. -/
structure Commands (ι : Type) (chrono : Chrono) where
  server : ApiServer ι chrono
  tasks : ι → Task
  /-- The packets that have been sent to the server and not been received. -/
  up : ι → List (LapasProtocol chrono)
  down : ι → List (LapasProtocol chrono)

/-- The steps of the commands, of other clients, and of the server. -/
inductive Commands.Event (ι : Type) (chrono : Chrono)
  | send (client : ι)
  | receive (client : ι)
  | lose (client : ι)
  /-- A client that is not one of the commands sends a packet. -/
  | other (client : ι) (packet : LapasProtocol chrono)
  /-- The server matches on the next packet. -/
  | handle (client : ι)
  /-- Another step of a task of the server. -/
  | serve (client : ι) (e : ApiServer.Event chrono)

/-- The packets that a step of the server sends to the client. -/
def sent (server : ApiServer ι chrono) (client : ι) :
    ApiServer.Event chrono → List (LapasProtocol chrono)
  | .send true =>
    match (server.sessions client).handler with
    | .sending packet _ => [packet]
    | _ => []
  | .forward i => server.notified[i]?.toList
  | .ping => [.controlPing]
  | _ => []

section

variable [DecidableEq ι] (setup : Setup ι) (args : ι → Option CliArgs)

/-- One step.  The packets of a client arrive in the order in which they have been sent. -/
def Commands.step (s : Commands ι chrono) :
    Commands.Event ι chrono → Option (Commands ι chrono)
  | .send client =>
    match args client with
    | none => none
    | some a => ((s.tasks client).send a).map fun (task, packets) =>
      { s with tasks := Function.update s.tasks client task
               up := Function.update s.up client (s.up client ++ packets) }
  | .receive client =>
    match args client, s.down client with
    | some a, packet :: rest => ((s.tasks client).receive a.command packet).map fun task =>
      { s with tasks := Function.update s.tasks client task
               down := Function.update s.down client rest }
    | _, _ => none
  | .lose client =>
    match args client with
    | none => none
    | some _ => (s.tasks client).lose.map fun task =>
      { s with tasks := Function.update s.tasks client task }
  | .other client packet =>
    match args client with
    | none => some { s with up := Function.update s.up client (s.up client ++ [packet]) }
    | some _ => none
  | .handle client =>
    match s.up client with
    | [] => none
    | packet :: rest => (s.server.step setup client (.recv packet)).map fun server =>
      { s with server, up := Function.update s.up client rest }
  | .serve client e =>
    match e with
    | .recv _ => none
    | e => (s.server.step setup client e).map fun server =>
      { s with server
               down := Function.update s.down client (s.down client ++ sent s.server client e) }

/-- A server that has just been started, and commands that have. -/
def commands (chrono : Chrono) : Machine (Commands ι chrono) (Commands.Event ι chrono) where
  start s := ∃ index hosts, s =
    ⟨⟨index, hosts, none, none, [], [], fun _ => .accepted, []⟩,
      fun client => (args client).elim .connecting Task.main, fun _ => [], fun _ => []⟩
  step := Commands.step setup args

end

/-! ### What a result says -/

section

variable (setup : Setup ι) (past : Commands ι chrono → Commands.Event ι chrono → Prop) (client : ι)
  (args : CliArgs)

/-- The password of the command passes the check of the server. -/
def Authorised : Prop := ∃ auth, argsToAuth args = .ok auth ∧ Passes setup auth

/-- The packet is what the task of the command answers to its request, after what has happened in
the past.  It says what has been done for this command, or why nothing has. -/
inductive Answered : LapasProtocol chrono → Prop
  /-- The request came in, and its password did not pass the check. -/
  | unauthenticated {s : Commands ι chrono} {packet reply : LapasProtocol chrono} {auth : ApiAuth}
    (hpast : past s (.handle client)) (hup : (s.up client).head? = some packet)
    (hrequest : request args = .ok packet) (hauth : packet.auth? = some auth)
    (hfails : checkAuth setup auth = some false) (hreply : failureResponse packet = some reply) :
    Answered reply
  | checked {s : Commands ι chrono} (hcommand : args.command = .checkAuth)
    (hauth : Authorised setup args) (hpast : past s (.handle client)) :
    Answered (.controlCheckAuthResponse (.ok ()))
  /-- The users of that moment did not admit the new one. -/
  | invalid {s : Commands ι chrono} {username password salt e : String}
    {creationTs lastUpdateTs : chrono.DateTime}
    (hcommand : args.command = .addUser username password) (hauth : Authorised setup args)
    (hpast : past s (.serve client (.addUser salt creationTs lastUpdateTs)))
    (herror : s.server.index.addUser setup.sha512Crypt
      { username, password, salt, creationTs, lastUpdateTs } = .error e) :
    Answered (.userRegisterResponse (.error e))
  /-- They admitted it, and it was among them when the writing of the index had ended. -/
  | written {s s' : Commands ι chrono} {username password salt : String}
    {creationTs lastUpdateTs : chrono.DateTime} {index : UserIndex chrono}
    {result : Except String Unit} (hcommand : args.command = .addUser username password)
    (hauth : Authorised setup args)
    (hpast : past s (.serve client (.addUser salt creationTs lastUpdateTs)))
    (hadded : s.server.index.addUser setup.sha512Crypt
      { username, password, salt, creationTs, lastUpdateTs } = .ok index)
    (hpast' : past s' (.serve client (.written result)))
    (hindex : index.users <+: s'.server.index.users) : Answered (.userRegisterResponse result)
  | uncreated {s : Commands ι chrono} {username e : String}
    (hcommand : args.command = .addDnsMapping username) (hauth : Authorised setup args)
    (hpast : past s (.serve client (.createMapping (.error e)))) :
    Answered (.userDnsMappingResponse (.error e))
  /-- The file was created, and where the call did not fail, it held the whole mapping. -/
  | mapped {s : Commands ι chrono} {username : String} {result : Except String Unit}
    (hcommand : args.command = .addDnsMapping username) (hauth : Authorised setup args)
    (hpast : past s (.serve client (.mapped result)))
    (hfile : result.isOk → '/' ∉ username.toList →
      s.server.hosts (pushPath setup.hostsDir username) =
        some (hostMapping setup client username)) : Answered (.userDnsMappingResponse result)
  | listed {s : Commands ι chrono} (hcommand : args.command = .listUsers)
    (hpast : past s (.serve client .list)) :
    Answered (.passwdGetListResponse (.ok (.ofList s.server.index.passwdAll)))

/-- How a command may end: with what it makes of an answer of the server, without the option for the
password, or by a connection that fails. -/
inductive Outcome : Except Error (List String) → Prop
  | answered {packet : LapasProtocol chrono} (h : Answered setup past client args packet) :
    Outcome (respond args.command packet)
  | unauthenticated (h : args.apiPassword = none) : Outcome (.error .authenticationOption)
  | io {s : Commands ι chrono} (hpast : past s (.lose client)) : Outcome (.error .io)

end

section

variable {setup : Setup ι} {past past' : Commands ι chrono → Commands.Event ι chrono → Prop}
  {client : ι} {args : CliArgs}

/-- What has happened stays in the past. -/
theorem Answered.mono (hpast : ∀ s e, past s e → past' s e) {packet : LapasProtocol chrono}
    (h : Answered setup past client args packet) : Answered setup past' client args packet := by
  cases h with
  | unauthenticated h hup hrequest hauth hfails hreply =>
    exact .unauthenticated (hpast _ _ h) hup hrequest hauth hfails hreply
  | checked hcommand hauth h => exact .checked hcommand hauth (hpast _ _ h)
  | invalid hcommand hauth h herror => exact .invalid hcommand hauth (hpast _ _ h) herror
  | written hcommand hauth h hadded h' hindex =>
    exact .written hcommand hauth (hpast _ _ h) hadded (hpast _ _ h') hindex
  | uncreated hcommand hauth h => exact .uncreated hcommand hauth (hpast _ _ h)
  | mapped hcommand hauth h hfile => exact .mapped hcommand hauth (hpast _ _ h) hfile
  | listed hcommand h => exact .listed hcommand (hpast _ _ h)

theorem Outcome.mono (hpast : ∀ s e, past s e → past' s e) {result : Except Error (List String)}
    (h : Outcome setup past client args result) : Outcome setup past' client args result := by
  cases h with
  | answered h => exact .answered (h.mono hpast)
  | unauthenticated h => exact .unauthenticated h
  | io h => exact .io (hpast _ _ h)

/-- The answer to the request of a command is one that it expects. -/
theorem Answered.respond_ne {packet : LapasProtocol chrono}
    (h : Answered setup past client args packet) :
    respond args.command packet ≠ .error .unexpectedResponse := by
  obtain ⟨apiPassword, command⟩ := args
  cases h with
  | unauthenticated h hup hrequest hauth hfails hreply =>
    unfold request at hrequest
    cases command with
    | listUsers =>
      cases hrequest
      cases hauth
    | _ =>
      obtain ⟨auth, -, hrequest⟩ := exists_of_bind_ok hrequest
      cases hrequest
      cases hreply
      exact fun heq => by cases heq
  | checked hcommand =>
    cases hcommand
    exact fun heq => by cases heq
  | invalid hcommand =>
    cases hcommand
    exact fun heq => by cases heq
  | @written _ _ _ _ _ _ _ _ result hcommand =>
    cases hcommand
    cases result <;> exact fun heq => by cases heq
  | uncreated hcommand =>
    cases hcommand
    exact fun heq => by cases heq
  | @mapped _ _ result hcommand =>
    cases hcommand
    cases result <;> exact fun heq => by cases heq
  | listed hcommand =>
    cases hcommand
    exact fun heq => by cases heq

theorem Outcome.ne_unexpectedResponse {result : Except Error (List String)}
    (h : Outcome setup past client args result) : result ≠ .error .unexpectedResponse := by
  cases h with
  | answered h => exact h.respond_ne
  | _ => exact fun heq => by cases heq

end

/-! ### What the server keeps -/

section

variable {server server' : ApiServer ι chrono}

/-- Users stay where they are in the index, and host files are not removed. -/
structure Grows (server server' : ApiServer ι chrono) : Prop where
  users : server.index.users <+: server'.index.users
  hosts : ∀ path, (server.hosts path).isSome → (server'.hosts path).isSome

theorem Grows.of_eq (hindex : server'.index = server.index)
    (hhosts : server'.hosts = server.hosts) : Grows server server' where
  users := by rw [hindex]
  hosts path h := by rwa [hhosts]

theorem Grows.trans {server'' : ApiServer ι chrono} (h : Grows server server')
    (h' : Grows server' server'') : Grows server server'' where
  users := h.users.trans h'.users
  hosts path hsome := h'.hosts path (h.hosts path hsome)

/-- A file is written. -/
theorem isSome_update {hosts : String → Option (List UInt8)} {path : String}
    (h : (hosts path).isSome) (file : String) (bytes : List UInt8) :
    (Function.update hosts file (some bytes) path).isSome := by
  by_cases heq : path = file
  · rw [heq, Function.update_self]
    rfl
  · rwa [Function.update_of_ne heq]

/-- **The server forgets nothing.** -/
theorem grows_of_step [DecidableEq ι] {client : ι} {e : ApiServer.Event chrono}
    (h : server.step setup client e = some server') : Grows server server' := by
  have hsession : ∀ {session? : Option (Session chrono)},
      session?.map (server.setSession client) = some server' → Grows server server' := by
    intro session? h
    obtain ⟨session, -, rfl⟩ := Option.map_eq_some_iff.mp h
    exact .of_eq rfl rfl
  have hforward : ∀ packet, server.forward client packet = some server' →
      Grows server server' := by
    intro packet h
    unfold ApiServer.forward at h
    split at h
    · cases h
      exact .of_eq rfl rfl
    · cases h
  -- only a user that is added and a mapping change what is there, and both only add to it
  cases e with
  | recv packet => exact hsession h
  | hangUp => exact hsession h
  | send sent => exact hsession h
  | forward i =>
    obtain ⟨packet, -, h⟩ := Option.bind_eq_some_iff.mp h
    exact hforward packet h
  | ping => exact hforward _ h
  | listen =>
    unfold ApiServer.step at h
    dsimp only at h
    split at h <;> cases h
    exact .of_eq rfl rfl
  | addUser salt creationTs lastUpdateTs =>
    unfold ApiServer.step at h
    dsimp only at h
    split at h
    · split at h
      · cases h
        exact .of_eq rfl rfl
      · next index hindex =>
        cases h
        obtain ⟨-, -, rfl⟩ := UserIndex.addUser_eq_ok hindex
        exact ⟨List.prefix_append _ _, fun _ h => h⟩
    · cases h
  | written result =>
    unfold ApiServer.step at h
    dsimp only at h
    split at h <;> cases h
    exact .of_eq rfl rfl
  | createMapping result =>
    unfold ApiServer.step at h
    dsimp only at h
    split at h
    · split at h <;> cases h
      · exact ⟨List.prefix_rfl, fun _ hsome => isSome_update hsome _ _⟩
      · exact .of_eq rfl rfl
    · cases h
  | landMapping n =>
    unfold ApiServer.step at h
    dsimp only at h
    split at h
    · split at h <;> cases h
      exact ⟨List.prefix_rfl, fun _ hsome => isSome_update hsome _ _⟩
    · cases h
  | mapped result =>
    unfold ApiServer.step at h
    dsimp only at h
    split at h
    · split at h <;> cases h
      exact .of_eq rfl rfl
    · cases h
  | list =>
    unfold ApiServer.step at h
    dsimp only at h
    split at h <;> cases h <;> exact .of_eq rfl rfl

end

/-! ### What the server does for a command -/

section

variable (setup : Setup ι) (past : Commands ι chrono → Commands.Event ι chrono → Prop)
  (server : ApiServer ι chrono) (client : ι) (args : CliArgs)

/-- The task of the server is at the request of the command. -/
inductive Serving : Handler chrono → Prop
  | stopped : Serving .stopped
  | running {packet : LapasProtocol chrono} {work : Request} (hrequest : request args = .ok packet)
    (hgrants : Grants (Passes setup) packet work) : Serving (.running work)
  | writing {s : Commands ι chrono} {username password salt : String}
    {creationTs lastUpdateTs : chrono.DateTime} {index : UserIndex chrono}
    (hcommand : args.command = .addUser username password) (hauth : Authorised setup args)
    (hpast : past s (.serve client (.addUser salt creationTs lastUpdateTs)))
    (hadded : s.server.index.addUser setup.sha512Crypt
      { username, password, salt, creationTs, lastUpdateTs } = .ok index)
    (hindex : index.users <+: server.index.users) : Serving .writing
  | mapping {username : String} {n : ℕ} (hcommand : args.command = .addDnsMapping username)
    (hauth : Authorised setup args) : Serving (.mapping username n)
  | sending {packet : LapasProtocol chrono} {goesOn : Bool}
    (h : Answered setup past client args packet) : Serving (.sending packet goesOn)

end

section

variable {setup : Setup ι} {past past' : Commands ι chrono → Commands.Event ι chrono → Prop}
  {server server' : ApiServer ι chrono} {client : ι} {args : CliArgs}

theorem Serving.mono (hpast : ∀ s e, past s e → past' s e) (hgrows : Grows server server')
    {handler : Handler chrono} (h : Serving setup past server client args handler) :
    Serving setup past' server' client args handler := by
  cases h with
  | stopped => exact .stopped
  | running hrequest hgrants => exact .running hrequest hgrants
  | writing hcommand hauth h hadded hindex =>
    exact .writing hcommand hauth (hpast _ _ h) hadded (hindex.trans hgrows.users)
  | mapping hcommand hauth => exact .mapping hcommand hauth
  | sending h => exact .sending (h.mono hpast)

/-- A request with an authentication is refused, or run. -/
theorem serving_handleRequest {α : Type} {s : Commands ι chrono} {packet : LapasProtocol chrono}
    (hpast : past s (.handle client)) (hup : (s.up client).head? = some packet)
    (hrequest : request args = .ok packet) {auth : ApiAuth} (hauth : packet.auth? = some auth)
    {responsePkt : Except String α → LapasProtocol chrono} {resultExpr : Handler chrono}
    (hreply : failureResponse packet = some (responsePkt (.error "Authentication failed")))
    (hresult : Passes setup auth → Serving setup past server client args resultExpr) :
    Serving setup past server client args
      (handleRequest setup (some auth) responsePkt resultExpr) := by
  rw [handleRequest]
  split
  · exact .stopped
  · next hfails => exact .sending (.unauthenticated hpast hup hrequest hauth hfails hreply)
  · next hpasses => exact hresult hpasses

/-- The match on the request of a command. -/
theorem serving_handleClient {s : Commands ι chrono} {packet : LapasProtocol chrono}
    (hpast : past s (.handle client)) (hup : (s.up client).head? = some packet)
    (h : request args = .ok packet) :
    Serving setup past server client args (handleClient setup packet) := by
  obtain ⟨apiPassword, command⟩ := args
  have hrequest := h
  unfold request at h
  cases command with
  | checkAuth =>
    obtain ⟨auth, hauth, h⟩ := exists_of_bind_ok h
    cases h
    exact serving_handleRequest hpast hup hrequest rfl rfl fun hpasses =>
      .sending (.checked rfl ⟨auth, hauth, hpasses⟩ hpast)
  | addDnsMapping username =>
    obtain ⟨auth, hauth, h⟩ := exists_of_bind_ok h
    cases h
    exact serving_handleRequest hpast hup hrequest rfl rfl fun hpasses =>
      .running hrequest (.createUserHostMapping hpasses)
  | addUser username password =>
    obtain ⟨auth, hauth, h⟩ := exists_of_bind_ok h
    cases h
    exact serving_handleRequest hpast hup hrequest rfl rfl fun hpasses =>
      .running hrequest (.addUser hpasses)
  | listUsers =>
    cases h
    exact .running hrequest .passwdAll

/-- The tasks behind a request that is granted. -/
theorem authorised_of_grants {packet : LapasProtocol chrono} {work : Request}
    (hrequest : request args = .ok packet) (hgrants : Grants (Passes setup) packet work) :
    match work with
    | .addUser username password =>
      args.command = .addUser username password ∧ Authorised setup args
    | .createUserHostMapping username =>
      args.command = .addDnsMapping username ∧ Authorised setup args
    | .passwdAll => args.command = .listUsers
    | .shadowAll => False := by
  obtain ⟨apiPassword, command⟩ := args
  unfold request at hrequest
  cases command with
  | checkAuth =>
    obtain ⟨auth, hauth, h⟩ := exists_of_bind_ok hrequest
    cases h
    cases hgrants
  | addDnsMapping username =>
    obtain ⟨auth, hauth, h⟩ := exists_of_bind_ok hrequest
    cases h
    cases hgrants with
    | createUserHostMapping hpasses => exact ⟨rfl, auth, hauth, hpasses⟩
  | addUser username password =>
    obtain ⟨auth, hauth, h⟩ := exists_of_bind_ok hrequest
    cases h
    cases hgrants with
    | addUser hpasses => exact ⟨rfl, auth, hauth, hpasses⟩
  | listUsers =>
    cases hrequest
    cases hgrants
    rfl

end

section

variable [DecidableEq ι] {setup : Setup ι}
  {past past' : Commands ι chrono → Commands.Event ι chrono → Prop}
  {server server' : ApiServer ι chrono} {client : ι} {args : CliArgs}

/-- Nothing is forwarded to a client that has not registered. -/
theorem not_forwarded (hlistener : client ∉ server.listeners) {e : ApiServer.Event chrono}
    (h : server.step setup client e = some server') : (∀ i, e ≠ .forward i) ∧ e ≠ .ping := by
  have hforward : ∀ packet, server.forward client packet ≠ some server' := by
    intro packet heq
    rw [ApiServer.forward, if_neg hlistener] at heq
    cases heq
  constructor
  · rintro i rfl
    obtain ⟨packet, -, h⟩ := Option.bind_eq_some_iff.mp h
    exact hforward packet h
  · rintro rfl
    exact hforward _ h

/-- A task of the server sends, or is cut off. -/
theorem serve_of_sending {packet : LapasProtocol chrono} {goesOn : Bool}
    (hsending : (server.sessions client).handler = .sending packet goesOn)
    (hlistener : client ∉ server.listeners) {e : ApiServer.Event chrono}
    (hrecv : ∀ packet, e ≠ .recv packet) (h : server.step setup client e = some server') :
    (server'.sessions client).handler = .stopped ∧ sent server client e = [] ∨
      (server'.sessions client).handler = (if goesOn then .idle else .stopped) ∧
        sent server client e = [packet] := by
  obtain ⟨hforward, hping⟩ := not_forwarded hlistener h
  cases e with
  | recv packet' => exact absurd rfl (hrecv packet')
  | forward i => exact absurd rfl (hforward i)
  | ping => exact absurd rfl hping
  | send ok =>
    obtain ⟨session, hsession, rfl⟩ := Option.map_eq_some_iff.mp h
    rw [Session.deliver, hsending] at hsession
    cases hsession
    rw [ApiServer.sessions_setSession]
    cases ok with
    | false => exact .inl ⟨rfl, rfl⟩
    | true => exact .inr ⟨rfl, by rw [sent, hsending]⟩
  | _ => simp [ApiServer.step, Session.hangUp, hsending] at h

/-- A task of the server that waits for a packet is cut off, if it does anything else. -/
theorem serve_of_waiting
    (hwaiting : (server.sessions client).handler = .handshake ∨
      (server.sessions client).handler = .idle ∨ (server.sessions client).handler = .stopped)
    (hlistener : client ∉ server.listeners) {e : ApiServer.Event chrono}
    (hrecv : ∀ packet, e ≠ .recv packet) (h : server.step setup client e = some server') :
    (server'.sessions client).handler = .stopped ∧ sent server client e = [] := by
  obtain ⟨hforward, hping⟩ := not_forwarded hlistener h
  cases e with
  | recv packet' => exact absurd rfl (hrecv packet')
  | forward i => exact absurd rfl (hforward i)
  | ping => exact absurd rfl hping
  | hangUp =>
    obtain ⟨session, hsession, rfl⟩ := Option.map_eq_some_iff.mp h
    refine ⟨?_, rfl⟩
    rw [ApiServer.sessions_setSession]
    rcases hwaiting with hwaiting | hwaiting | hwaiting <;>
      rw [Session.hangUp, hwaiting] at hsession <;> cases hsession <;> rfl
  | _ =>
    rcases hwaiting with hwaiting | hwaiting | hwaiting <;>
      simp [ApiServer.step, Session.deliver, hwaiting] at h

/-- A mapping whose call has succeeded is in its file. -/
theorem whole_of_mapped (hlocked : server.Locked setup) {username : String} {n : ℕ}
    (hhandler : (server.sessions client).handler = .mapping username n)
    {result : Except String Unit} (h : server.step setup client (.mapped result) = some server')
    (hok : result.isOk) : server.hosts (pushPath setup.hostsDir username) =
      some (hostMapping setup client username) := by
  have hfile := hlocked.file client username n hhandler
  simp only [ApiServer.step, hhandler] at h
  split at h <;> cases h
  next hlength =>
  have hle : (hostMapping setup client username).length ≤ n := by
    by_contra hlt
    exact hlength ⟨hok, by omega⟩
  rwa [List.take_of_length_le hle] at hfile

/-- **A step of the server for a command**: its request is worked on, or answered, or the
connection is given up. -/
theorem Serving.serve {s : Commands ι chrono}
    (hserving : Serving setup past s.server client args (s.server.sessions client).handler)
    (hlocked : s.server.Locked setup) (hlistener : client ∉ s.server.listeners)
    {e : ApiServer.Event chrono} (hrecv : ∀ packet, e ≠ .recv packet)
    (hpast : ∀ s e, past s e → past' s e) (hnow : past' s (.serve client e))
    (h : s.server.step setup client e = some server') :
    Serving setup past' server' client args (server'.sessions client).handler ∧
        sent s.server client e = [] ∨
      ∃ packet, Answered setup past' client args packet ∧ sent s.server client e = [packet] ∧
        ((server'.sessions client).handler = .idle ∨
          (server'.sessions client).handler = .stopped) := by
  generalize hhandler : (s.server.sessions client).handler = handler at hserving
  -- by where the task is in the work for the request; each of its steps leads to the next such
  -- place
  cases hserving with
  | stopped =>
    obtain ⟨hstopped, hsent⟩ := serve_of_waiting (.inr (.inr hhandler)) hlistener hrecv h
    exact .inl ⟨hstopped ▸ .stopped, hsent⟩
  | @sending packet goesOn hanswered =>
    rcases serve_of_sending hhandler hlistener hrecv h with ⟨hstopped, hsent⟩ | ⟨hhandler', hsent⟩
    · exact .inl ⟨hstopped ▸ .stopped, hsent⟩
    · refine .inr ⟨packet, hanswered.mono hpast, hsent, ?_⟩
      rw [hhandler']
      cases goesOn
      · exact .inr rfl
      · exact .inl rfl
  | @writing s₁ username password _ _ _ _ hcommand hauth hpast₁ hadded hindex =>
    obtain ⟨hforward, hping⟩ := not_forwarded hlistener h
    cases e with
    | recv packet => exact absurd rfl (hrecv packet)
    | forward i => exact absurd rfl (hforward i)
    | ping => exact absurd rfl hping
    | written result =>
      simp only [ApiServer.step, hhandler] at h
      cases h
      refine .inl ⟨?_, rfl⟩
      dsimp only
      rw [handler_access]
      exact .sending (.written hcommand hauth (hpast _ _ hpast₁) hadded hnow hindex)
    -- no other step is possible while the index is written
    | _ => simp [ApiServer.step, Session.hangUp, Session.deliver, hhandler] at h
  | @mapping username n hcommand hauth =>
    obtain ⟨hforward, hping⟩ := not_forwarded hlistener h
    cases e with
    | recv packet => exact absurd rfl (hrecv packet)
    | forward i => exact absurd rfl (hforward i)
    | ping => exact absurd rfl hping
    | landMapping n =>
      simp only [ApiServer.step, hhandler] at h
      split at h <;> cases h
      refine .inl ⟨?_, rfl⟩
      dsimp only
      rw [handler_access]
      exact .mapping hcommand hauth
    | mapped result =>
      -- the file is read off before the step, which gives the lock back
      have hfile := whole_of_mapped hlocked hhandler h
      simp only [ApiServer.step, hhandler] at h
      split at h <;> cases h
      refine .inl ⟨?_, rfl⟩
      dsimp only
      rw [handler_access]
      exact .sending (.mapped hcommand hauth hnow fun hok _ => hfile hok)
    | _ => simp [ApiServer.step, Session.hangUp, Session.deliver, hhandler] at h
  | @running packet work hrequest hgrants =>
    obtain ⟨hforward, hping⟩ := not_forwarded hlistener h
    -- the request is the one of the command, and a password came with it where it needs one
    have hwork := authorised_of_grants hrequest hgrants
    cases e with
    | recv packet => exact absurd rfl (hrecv packet)
    | forward i => exact absurd rfl (hforward i)
    | ping => exact absurd rfl hping
    | addUser salt creationTs lastUpdateTs =>
      cases work with
      | addUser username password =>
        obtain ⟨hcommand, hauth⟩ := hwork
        simp only [ApiServer.step, hhandler] at h
        split at h
        · next heq _ =>
          cases heq
          refine .inl ?_
          split at h
          · next e herror =>
            cases h
            refine ⟨?_, rfl⟩
            rw [handler_access]
            exact .sending (.invalid hcommand hauth hnow herror)
          · next index hadded =>
            cases h
            refine ⟨?_, rfl⟩
            dsimp only
            rw [handler_access]
            exact .writing hcommand hauth hnow hadded List.prefix_rfl
        · cases h
      | _ => simp [ApiServer.step, hhandler] at h
    | createMapping result =>
      cases work with
      | createUserHostMapping username =>
        obtain ⟨hcommand, hauth⟩ := hwork
        simp only [ApiServer.step, hhandler] at h
        split at h
        · next heq _ =>
          cases heq
          refine .inl ?_
          split at h <;> cases h
          · refine ⟨?_, rfl⟩
            dsimp only
            rw [handler_access]
            exact .mapping hcommand hauth
          · refine ⟨?_, rfl⟩
            rw [handler_access]
            exact .sending (.uncreated hcommand hauth hnow)
        · cases h
      | _ => simp [ApiServer.step, hhandler] at h
    | list =>
      cases work with
      | passwdAll =>
        simp only [ApiServer.step, hhandler] at h
        split at h
        · next heq _ =>
          cases h
          refine .inl ⟨?_, rfl⟩
          rw [handler_access]
          exact .sending (.listed hwork hnow)
        · next heq _ => cases heq
        · cases h
      | shadowAll => exact hwork.elim
      | _ => simp [ApiServer.step, hhandler] at h
    | _ => simp [ApiServer.step, Session.hangUp, Session.deliver, hhandler] at h

end

end Client
end Lapas
