import Lapas.Proto.Session
import Lapas.Server.UserService
import Mathlib.Logic.Function.Basic

/-!
# The api server

Any number of clients are connected, and the tasks of their connections take turns at every
`await`.  They share the services, each behind a lock, and a task holds the lock of a service
from its first to its last step on it.

## Main definitions

* `checkAuth`, `handleRequest`, `handleClient` — the match on a packet.
* `ApiServer`, `apiServer` — the shared state and the sessions.

## Main results

* `moves_of_step` — all that a step can do.
* `inv_of_reach_apiServer` — the sessions keep their invariant, and a packet whose
  authentication fails is the last of its session.
* `ApiServer.Inv.exists_passed` — users and host mappings change for packets that have passed.
* `ApiServer.Inv.setSession` — in front of the handshake, the shared state is left alone.
-/

namespace Lapas
namespace Server

open Proto

variable {chrono : Chrono} {ι : Type}

/-! ### Handling a packet -/

/-- `hex::encode`: two lower-case hexadecimal digits for each byte, the high one first. -/
def hexEncode (bytes : List UInt8) : String :=
  String.ofList (bytes.flatMap fun byte =>
    [Nat.digitChar (byte.toNat / 16), Nat.digitChar (byte.toNat % 16)])

/-- What the server is started with: the settings of its configuration, the functions of the crates,
and where its clients come from. -/
structure Setup (ι : Type) where
  /-- The configuration file. -/
  config : String → Option String
  sha512 : List UInt8 → List UInt8
  sha512Crypt : Sha512Crypt
  dnsDomain : String
  hostsDir : String
  /-- The address of a client. -/
  ip : ι → String

/-- `check_auth`; without the parameters in the configuration, it panics. -/
def checkAuth (setup : Setup ι) : ApiAuth → Option Bool
  | .password apiPassword => do
    let passwordSalt ← setup.config "LAPAS_PASSWORD_SALT"
    let saltedPasswordHash := hexEncode (setup.sha512 (utf8Bytes (passwordSalt ++ apiPassword)))
    let passwordHash ← setup.config "LAPAS_PASSWORD_HASH"
    return passwordHash = saltedPasswordHash

/-- `handle_request!`, in front of the evaluation of its expression. -/
def handleRequest {α : Type} (setup : Setup ι) (authWith : Option ApiAuth)
    (responsePkt : Except String α → LapasProtocol chrono) (resultExpr : Handler chrono) :
    Handler chrono :=
  match authWith with
  | none => resultExpr
  | some auth =>
    match checkAuth setup auth with
    | none => .stopped
    | some false => .sending (responsePkt (.error "Authentication failed")) false
    | some true => resultExpr

/-- The match of `handle_client` on a packet: which requests are checked for an authentication, what
they start, and how they are answered. -/
def handleClient (setup : Setup ι) : LapasProtocol chrono → Handler chrono
  | .controlListenEvents => .registering
  | .controlCheckAuth auth =>
    handleRequest setup (some auth) .controlCheckAuthResponse
      (.sending (.controlCheckAuthResponse (.ok ())) true)
  | .userRegister auth newUsername newPassword =>
    handleRequest setup (some auth) .userRegisterResponse
      (.running (.addUser newUsername newPassword))
  | .userDnsMapping auth username =>
    handleRequest setup (some auth) .userDnsMappingResponse
      (.running (.createUserHostMapping username))
  | .passwdGetList => handleRequest setup none .passwdGetListResponse (.running .passwdAll)
  | .shadowGetList auth =>
    handleRequest setup (some auth) .shadowGetListResponse (.running .shadowAll)
  | _ => .idle

/-- The response to a packet whose authentication fails. -/
def failureResponse : LapasProtocol chrono → Option (LapasProtocol chrono)
  | .controlCheckAuth _ => some (.controlCheckAuthResponse (.error "Authentication failed"))
  | .userRegister _ _ _ => some (.userRegisterResponse (.error "Authentication failed"))
  | .userDnsMapping _ _ => some (.userDnsMappingResponse (.error "Authentication failed"))
  | .shadowGetList _ => some (.shadowGetListResponse (.error "Authentication failed"))
  | _ => none

/-! ### The shared state -/

/-- `PathBuf::push` on a path as text: an absolute name replaces the path, any other is joined with
one slash. -/
def pushPath (dir name : String) : String :=
  if name.startsWith "/" then name
  else if dir.isEmpty || dir.endsWith "/" then dir ++ name
  else dir ++ "/" ++ name

/-- The text of the file that `create_mapping` writes. -/
def hostMapping (setup : Setup ι) (client : ι) (username : String) : List UInt8 :=
  utf8Bytes (setup.ip client ++ " " ++ username ++ "." ++ setup.dnsDomain ++ "\n")

/-- The state that the tasks of the server share, with the sessions of all clients. -/
structure ApiServer (ι : Type) (chrono : Chrono) where
  index : UserIndex chrono
  /-- The files that the dns service has written, by the paths that it has made for them.  The file
  of the index is not among them: a username with slashes can name it, and then the text that is
  found here is not all that is written to the file. -/
  hosts : String → Option (List UInt8)
  /-- The clients whose tasks hold the locks over more than one step. -/
  userLock : Option ι
  dnsLock : Option ι
  /-- The clients whose notifications are forwarded. -/
  listeners : List ι
  notified : List (LapasProtocol chrono)
  sessions : ι → Session chrono
  /-- What the forwarding tasks have sent. -/
  forwarded : List (ι × LapasProtocol chrono)

/-- What the task of a client does next. -/
inductive ApiServer.Event (chrono : Chrono)
  | recv (packet : LapasProtocol chrono)
  | hangUp
  | send (sent : Bool)
  | listen
  /-- `add_user`, up to the writing of the index, with what it draws. -/
  | addUser (salt : String) (creationTs lastUpdateTs : chrono.DateTime)
  /-- The index has been written, or an operation has failed. -/
  | written (result : Except String Unit)
  | createMapping (result : Except String Unit)
  /-- Up to the `n`-th, the bytes of the mapping are in its file. -/
  | landMapping (n : ℕ)
  | mapped (result : Except String Unit)
  | list
  /-- The forwarding task of the client sends one of the notifications. -/
  | forward (i : ℕ)
  /-- It sends a ping. -/
  | ping

section

variable [DecidableEq ι]

/-- The task of a client has made a step. -/
def ApiServer.setSession (s : ApiServer ι chrono) (client : ι) (session : Session chrono) :
    ApiServer ι chrono :=
  { s with sessions := Function.update s.sessions client session }

@[simp] theorem ApiServer.sessions_setSession (s : ApiServer ι chrono) (client : ι)
    (session : Session chrono) : (s.setSession client session).sessions client = session := by
  show Function.update s.sessions client session client = session
  rw [Function.update_self]

/-- The task of a client has made a step on the shared state. -/
def ApiServer.access (s : ApiServer ι chrono) (client : ι) (handler : Handler chrono) :
    ApiServer ι chrono :=
  s.setSession client ((s.sessions client).access handler)

/-- The forwarding task of a client sends a packet. -/
def ApiServer.forward (s : ApiServer ι chrono) (client : ι) (packet : LapasProtocol chrono) :
    Option (ApiServer ι chrono) :=
  if client ∈ s.listeners then some { s with forwarded := (client, packet) :: s.forwarded }
  else none

/-- One step of the task of one client.  Where the source holds a lock over more than one step,
other tasks that need it have to wait. -/
def ApiServer.step (setup : Setup ι) (s : ApiServer ι chrono) (client : ι) :
    ApiServer.Event chrono → Option (ApiServer ι chrono)
  | .recv packet =>
    ((s.sessions client).receive "Incompatible Protocol Version" (handleClient setup) packet).map
      (s.setSession client)
  | .hangUp => (s.sessions client).hangUp.map (s.setSession client)
  | .send sent => ((s.sessions client).deliver sent).map (s.setSession client)
  | .listen =>
    match (s.sessions client).handler with
    | .registering =>
      some { s.access client .idle with listeners := client :: s.listeners }
    | _ => none
  | .addUser salt creationTs lastUpdateTs =>
    match (s.sessions client).handler, s.userLock with
    | .running (.addUser username password), none =>
      match s.index.addUser setup.sha512Crypt
          { username, password, salt, creationTs, lastUpdateTs } with
      | .error e => some (s.access client (.sending (.userRegisterResponse (.error e)) true))
      | .ok index => some { s.access client .writing with index, userLock := some client }
    | _, _ => none
  | .written result =>
    match (s.sessions client).handler with
    | .writing =>
      some { s.access client (.sending (.userRegisterResponse result) true) with
        userLock := none
        notified := if result.isOk then .notifyUsersChanged :: s.notified else s.notified }
    | _ => none
  | .createMapping result =>
    match (s.sessions client).handler, s.dnsLock with
    | .running (.createUserHostMapping username), none =>
      match result with
      | .ok () =>
        some { s.access client (.mapping username 0) with
          hosts := Function.update s.hosts (pushPath setup.hostsDir username) (some [])
          dnsLock := some client }
      | .error e => some (s.access client (.sending (.userDnsMappingResponse (.error e)) true))
    | _, _ => none
  | .landMapping n =>
    match (s.sessions client).handler with
    | .mapping username written =>
      if written < n then
        some { s.access client (.mapping username n) with
          hosts := Function.update s.hosts (pushPath setup.hostsDir username)
            (some ((hostMapping setup client username).take n)) }
      else none
    | _ => none
  | .mapped result =>
    match (s.sessions client).handler with
    | .mapping username written =>
      if result.isOk ∧ written < (hostMapping setup client username).length then none
      else some { s.access client (.sending (.userDnsMappingResponse result) true) with
        dnsLock := none
        notified := if result.isOk then .notifyDnsMappingsChanged :: s.notified
          else s.notified }
    | _ => none
  | .list =>
    match (s.sessions client).handler, s.userLock with
    | .running .passwdAll, none =>
      some (s.access client
        (.sending (.passwdGetListResponse (.ok (.ofList s.index.passwdAll))) true))
    | .running .shadowAll, none =>
      some (s.access client
        (.sending (.shadowGetListResponse (.ok (.ofList s.index.shadowAll))) true))
    | _, _ => none
  | .forward i => s.notified[i]?.bind (s.forward client)
  | .ping => s.forward client .controlPing

/-- A server to which no client is connected. -/
def apiServer (setup : Setup ι) (chrono : Chrono) :
    Machine (ApiServer ι chrono) (ι × ApiServer.Event chrono) where
  start s := ∃ index hosts, s = ⟨index, hosts, none, none, [], [], fun _ => .accepted, []⟩
  step s := fun (client, e) => s.step setup client e

/-! ### One step -/

/-- The steps of a task on the shared state. -/
inductive Works : Handler chrono → Handler chrono → Prop
  | listen : Works .registering .idle
  | refused {username password e : String} :
    Works (.running (.addUser username password)) (.sending (.userRegisterResponse (.error e)) true)
  | pushed {username password : String} : Works (.running (.addUser username password)) .writing
  | written {result : Except String Unit} :
    Works .writing (.sending (.userRegisterResponse result) true)
  | created {username : String} :
    Works (.running (.createUserHostMapping username)) (.mapping username 0)
  | uncreated {username e : String} :
    Works (.running (.createUserHostMapping username))
      (.sending (.userDnsMappingResponse (.error e)) true)
  | land {username : String} {written n : ℕ} :
    Works (.mapping username written) (.mapping username n)
  | mapped {username : String} {written : ℕ} {result : Except String Unit} :
    Works (.mapping username written) (.sending (.userDnsMappingResponse result) true)
  | passwd {users : Vec LapasUserPasswd} :
    Works (.running .passwdAll) (.sending (.passwdGetListResponse (.ok users)) true)
  | shadow {users : Vec (LapasUserShadow chrono)} :
    Works (.running .shadowAll) (.sending (.shadowGetListResponse (.ok users)) true)

/-- The steps that one session can take by itself: it receives, is hung up on, delivers a packet, or
works on a request. -/
inductive SessionStep (setup : Setup ι) (session : Session chrono) : Session chrono → Prop
  | receive {packet : LapasProtocol chrono} {session' : Session chrono}
    (h : session.receive "Incompatible Protocol Version" (handleClient setup) packet =
      some session') : SessionStep setup session session'
  | hangUp {session' : Session chrono} (h : session.hangUp = some session') :
    SessionStep setup session session'
  | deliver {sent : Bool} {session' : Session chrono} (h : session.deliver sent = some session') :
    SessionStep setup session session'
  | access {handler : Handler chrono} (h : Works session.handler handler) :
    SessionStep setup session (session.access handler)

/-- The task works on the users, or on the host mappings. -/
inductive Changes : Handler chrono → Prop
  | addUser {username password : String} : Changes (.running (.addUser username password))
  | createMapping {username : String} : Changes (.running (.createUserHostMapping username))
  | mapping {username : String} {written : ℕ} : Changes (.mapping username written)

variable {setup : Setup ι} {s s' : ApiServer ι chrono} {client : ι}

/-- What a step of the task of a client, other than a forwarding one, can do. -/
structure Moves (setup : Setup ι) (s : ApiServer ι chrono) (client : ι)
    (s' : ApiServer ι chrono) : Prop where
  session : ∃ session, SessionStep setup (s.sessions client) session ∧
    s'.sessions = Function.update s.sessions client session
  shared : (∃ session, s' = s.setSession client session) ∨
    ∃ handler, Works (s.sessions client).handler handler
  changes : s'.index ≠ s.index ∨ s'.hosts ≠ s.hosts → Changes (s.sessions client).handler
  listeners : ∀ other ∈ s'.listeners,
    other ∈ s.listeners ∨ other = client ∧ (s.sessions client).handler = .registering
  notified : ∀ packet ∈ s'.notified, packet ∈ s.notified ∨
    packet = .notifyUsersChanged ∨ packet = .notifyDnsMappingsChanged
  forwarded : s'.forwarded = s.forwarded

/-- A step that leaves the shared state as it is. -/
theorem moves_setSession {session : Session chrono}
    (h : SessionStep setup (s.sessions client) session) :
    Moves setup s client (s.setSession client session) where
  session := ⟨session, h, rfl⟩
  shared := Or.inl ⟨session, rfl⟩
  changes hne := hne.elim (absurd rfl) (absurd rfl)
  listeners _ hother := Or.inl hother
  notified _ hpacket := Or.inl hpacket
  forwarded := rfl

theorem moves_of_map {session? : Option (Session chrono)}
    (hsession : ∀ session, session? = some session →
      SessionStep setup (s.sessions client) session)
    (h : session?.map (s.setSession client) = some s') : Moves setup s client s' := by
  obtain ⟨session, hsome, rfl⟩ := Option.map_eq_some_iff.mp h
  exact moves_setSession (hsession session hsome)

theorem mem_notified {notified : List (LapasProtocol chrono)} {result : Except String Unit}
    {notification packet : LapasProtocol chrono}
    (h : packet ∈ if result.isOk then notification :: notified else notified) :
    packet ∈ notified ∨ packet = notification := by
  split at h
  · exact (List.mem_cons.mp h).symm
  · exact Or.inl h

/-- A step of the services that registers nobody. -/
theorem moves_of_works {handler : Handler chrono}
    (hworks : Works (s.sessions client).handler handler)
    (hsessions : s'.sessions =
      Function.update s.sessions client ((s.sessions client).access handler))
    (hchanges : s'.index ≠ s.index ∨ s'.hosts ≠ s.hosts → Changes (s.sessions client).handler)
    (hlisteners : s'.listeners = s.listeners)
    (hnotified : ∀ packet ∈ s'.notified, packet ∈ s.notified ∨
      packet = .notifyUsersChanged ∨ packet = .notifyDnsMappingsChanged)
    (hforwarded : s'.forwarded = s.forwarded) : Moves setup s client s' where
  session := ⟨_, .access hworks, hsessions⟩
  shared := Or.inr ⟨handler, hworks⟩
  changes := hchanges
  listeners _ hother := Or.inl (hlisteners ▸ hother)
  notified := hnotified
  forwarded := hforwarded

/-- A step of the task of a client. -/
theorem moves_of_task {e : ApiServer.Event chrono} (hforward : ∀ i, e ≠ .forward i)
    (hping : e ≠ .ping) (h : s.step setup client e = some s') : Moves setup s client s' := by
  cases e with
  -- the first three are steps of the session alone; the others work for a request that was granted
  | recv packet => exact moves_of_map (fun _ hsome => .receive hsome) h
  | hangUp => exact moves_of_map (fun _ hsome => .hangUp hsome) h
  | send sent => exact moves_of_map (fun _ hsome => .deliver hsome) h
  | listen =>
    unfold ApiServer.step at h
    dsimp only at h
    split at h
    · next hhandler =>
      cases h
      have hworks : Works (s.sessions client).handler .idle := hhandler ▸ .listen
      refine ⟨⟨_, .access hworks, rfl⟩, Or.inr ⟨_, hworks⟩, ?_, ?_, ?_, rfl⟩
      · exact fun hne => hne.elim (absurd rfl) (absurd rfl)
      · -- who is new among the listeners has just asked for it
        intro other hother
        rcases List.mem_cons.mp hother with rfl | hother
        · exact Or.inr ⟨rfl, hhandler⟩
        · exact Or.inl hother
      · exact fun _ hpacket => Or.inl hpacket
    · cases h
  | addUser salt creationTs lastUpdateTs =>
    unfold ApiServer.step at h
    dsimp only at h
    split at h
    · next username password hhandler _ =>
      split at h
      · cases h
        exact moves_setSession (.access (hhandler ▸ .refused))
      · cases h
        have hworks : Works (s.sessions client).handler .writing := hhandler ▸ .pushed
        have hchanges : Changes (s.sessions client).handler := hhandler ▸ .addUser
        exact moves_of_works hworks rfl (fun _ => hchanges) rfl (fun _ => Or.inl) rfl
    · cases h
  | written result =>
    unfold ApiServer.step at h
    dsimp only at h
    split at h
    · next hhandler =>
      cases h
      have hworks : Works (s.sessions client).handler
          (.sending (.userRegisterResponse result) true) :=
        hhandler ▸ .written
      exact moves_of_works hworks rfl (fun hne => hne.elim (absurd rfl) (absurd rfl)) rfl
        (fun _ hpacket => (mem_notified hpacket).imp_right Or.inl) rfl
    · cases h
  | createMapping result =>
    unfold ApiServer.step at h
    dsimp only at h
    split at h
    · next username hhandler _ =>
      split at h
      · cases h
        have hworks : Works (s.sessions client).handler (.mapping username 0) := hhandler ▸ .created
        have hchanges : Changes (s.sessions client).handler := hhandler ▸ .createMapping
        exact moves_of_works hworks rfl (fun _ => hchanges) rfl (fun _ => Or.inl) rfl
      · cases h
        exact moves_setSession (.access (hhandler ▸ .uncreated))
    · cases h
  | landMapping n =>
    unfold ApiServer.step at h
    dsimp only at h
    split at h
    · next username written hhandler =>
      split at h
      · cases h
        have hworks : Works (s.sessions client).handler (.mapping username n) := hhandler ▸ .land
        have hchanges : Changes (s.sessions client).handler := hhandler ▸ .mapping
        exact moves_of_works hworks rfl (fun _ => hchanges) rfl (fun _ => Or.inl) rfl
      · cases h
    · cases h
  | mapped result =>
    unfold ApiServer.step at h
    dsimp only at h
    split at h
    · next username written hhandler =>
      split at h
      · cases h
      · cases h
        have hworks : Works (s.sessions client).handler
            (.sending (.userDnsMappingResponse result) true) :=
          hhandler ▸ .mapped
        exact moves_of_works hworks rfl (fun hne => hne.elim (absurd rfl) (absurd rfl)) rfl
          (fun _ hpacket => (mem_notified hpacket).imp_right Or.inr) rfl
    · cases h
  | list =>
    unfold ApiServer.step at h
    dsimp only at h
    split at h
    · next hhandler _ =>
      cases h
      exact moves_setSession (.access (hhandler ▸ .passwd))
    · next hhandler _ =>
      cases h
      exact moves_setSession (.access (hhandler ▸ .shadow))
    · cases h
  | forward i => exact absurd rfl (hforward i)
  | ping => exact absurd rfl hping

/-- **One step** is a step of the task of a client, or of the task that forwards to it. -/
theorem moves_of_step {e : ApiServer.Event chrono} (h : s.step setup client e = some s') :
    Moves setup s client s' ∨
      ∃ packet, (packet = .controlPing ∨ packet ∈ s.notified) ∧
        s.forward client packet = some s' := by
  by_cases hforward : ∃ i, e = .forward i
  · obtain ⟨i, rfl⟩ := hforward
    obtain ⟨packet, hpacket, hsent⟩ := Option.bind_eq_some_iff.mp h
    exact Or.inr ⟨packet, Or.inr (List.mem_of_getElem? hpacket), hsent⟩
  · by_cases hping : e = .ping
    · subst hping
      exact Or.inr ⟨.controlPing, Or.inl rfl, h⟩
    · exact Or.inl (moves_of_task (fun i heq => hforward ⟨i, heq⟩) hping h)

end

/-! ### The sessions -/

section

variable {setup : Setup ι} {session session' : Session chrono}

/-- The authentication passes the check of the server: the salted password has the hash of the
configuration. -/
def Passes (setup : Setup ι) (auth : ApiAuth) : Prop := checkAuth setup auth = some true

theorem handleRequest_eq {α : Type} {authWith : Option ApiAuth}
    {responsePkt : Except String α → LapasProtocol chrono} {resultExpr handler : Handler chrono}
    (h : handleRequest setup authWith responsePkt resultExpr = handler) :
    handler = .stopped ∨ handler = .sending (responsePkt (.error "Authentication failed")) false ∨
      (handler = resultExpr ∧ ∀ auth, authWith = some auth → Passes setup auth) := by
  rw [← h]
  unfold handleRequest
  split
  · exact Or.inr (Or.inr ⟨rfl, fun auth hauth => nomatch hauth⟩)
  · next auth =>
    split
    · exact Or.inl rfl
    · exact Or.inr (Or.inl rfl)
    -- the request itself runs only here
    · next hpasses =>
      refine Or.inr (Or.inr ⟨rfl, fun auth' hauth => ?_⟩)
      cases hauth
      exact hpasses

/-- A handler that `handle_client` dispatches to. -/
theorem handleClient_cases (packet : LapasProtocol chrono) {handler : Handler chrono}
    (h : handleClient setup packet = handler) :
    handler = .stopped ∨ handler = .idle ∨ handler = .registering ∨
      handler = .sending (.controlCheckAuthResponse (.ok ())) true ∨
      (∃ response, handler = .sending response false ∧
        ∀ users, response ≠ .shadowGetListResponse (.ok users)) ∨
      ∃ request, handler = .running request ∧ Grants (Passes setup) packet request := by
  cases packet with
  | controlListenEvents => exact Or.inr (Or.inr (Or.inl h.symm))
  | controlCheckAuth auth =>
    rw [handleClient] at h
    rcases handleRequest_eq h with h | h | ⟨h, -⟩
    · exact Or.inl h
    · exact Or.inr (Or.inr (Or.inr (Or.inr (Or.inl ⟨_, h, fun users heq => nomatch heq⟩))))
    · exact Or.inr (Or.inr (Or.inr (Or.inl h)))
  | userRegister auth newUsername newPassword =>
    rw [handleClient] at h
    rcases handleRequest_eq h with h | h | ⟨h, hpasses⟩
    · exact Or.inl h
    · exact Or.inr (Or.inr (Or.inr (Or.inr (Or.inl ⟨_, h, fun users heq => nomatch heq⟩))))
    · exact Or.inr (Or.inr (Or.inr (Or.inr (Or.inr ⟨_, h, .addUser (hpasses auth rfl)⟩))))
  | userDnsMapping auth username =>
    rw [handleClient] at h
    rcases handleRequest_eq h with h | h | ⟨h, hpasses⟩
    · exact Or.inl h
    · exact Or.inr (Or.inr (Or.inr (Or.inr (Or.inl ⟨_, h, fun users heq => nomatch heq⟩))))
    · exact Or.inr (Or.inr (Or.inr (Or.inr (Or.inr
        ⟨_, h, .createUserHostMapping (hpasses auth rfl)⟩))))
  | passwdGetList =>
    exact Or.inr (Or.inr (Or.inr (Or.inr (Or.inr ⟨_, h.symm, .passwdAll⟩))))
  | shadowGetList auth =>
    rw [handleClient] at h
    rcases handleRequest_eq h with h | h | ⟨h, hpasses⟩
    · exact Or.inl h
    · exact Or.inr (Or.inr (Or.inr (Or.inr (Or.inl ⟨_, h, fun users heq => nomatch heq⟩))))
    · exact Or.inr (Or.inr (Or.inr (Or.inr (Or.inr ⟨_, h, .shadowAll (hpasses auth rfl)⟩))))
  | _ => exact Or.inr (Or.inl h.symm)

theorem dispatches_handleClient :
    Dispatches (Passes setup) (handleClient setup : LapasProtocol chrono → Handler chrono) := by
  constructor
  · intro packet h
    rcases handleClient_cases packet h with h | h | h | h | ⟨_, h, -⟩ | ⟨_, h, -⟩ <;> cases h
  · intro packet request h
    rcases handleClient_cases packet h with h | h | h | h | ⟨_, h, -⟩ | ⟨_, h, hgrants⟩
    · cases h
    · cases h
    · cases h
    · cases h
    · cases h
    · cases h
      exact hgrants
  · intro packet h
    rcases handleClient_cases packet h with h | h | h | h | ⟨_, h, -⟩ | ⟨_, h, -⟩ <;> cases h
  · intro packet username written h
    rcases handleClient_cases packet h with h | h | h | h | ⟨_, h, -⟩ | ⟨_, h, -⟩ <;> cases h
  · intro packet users goesOn h
    rcases handleClient_cases packet h with h | h | h | h | ⟨response, h, hshadow⟩ | ⟨_, h, -⟩
    · cases h
    · cases h
    · cases h
    · cases h
    · cases h
      exact hshadow users rfl
    · cases h

/-- A step on the shared state does not end the handling of a packet. -/
theorem backed_of_works {passes : ApiAuth → Prop} {handler handler' : Handler chrono}
    {history : List (Action chrono)} (hbacked : Backed passes history handler)
    (h : Works handler handler') : Backed passes (.access :: history) handler' := by
  cases h with
  | listen => trivial
  | refused => trivial
  | pushed =>
    obtain ⟨packet, hpacket, hgrants⟩ := hbacked
    cases hgrants with
    | addUser hpasses => exact ⟨_, _, hpacket, rfl, hpasses⟩
  | written => trivial
  | created =>
    obtain ⟨packet, hpacket, hgrants⟩ := hbacked
    cases hgrants with
    | createUserHostMapping hpasses => exact ⟨_, _, hpacket, rfl, hpasses⟩
  | uncreated => trivial
  | land => exact hbacked
  | mapped => trivial
  | passwd => trivial
  | shadow => exact hbacked.shadow

theorem SessionStep.valid (h : SessionStep setup session session')
    (hvalid : session.Valid "Incompatible Protocol Version" (Passes setup)) :
    session'.Valid "Incompatible Protocol Version" (Passes setup) := by
  cases h with
  | receive h => exact hvalid.receive dispatches_handleClient h
  | hangUp h => exact hvalid.hangUp h
  | deliver h => exact hvalid.deliver h
  | access h =>
    refine hvalid.access ?_ ?_ (backed_of_works hvalid.backed h)
    · intro hunopened
      generalize session.handler = handler at h hunopened
      rcases hunopened with rfl | rfl | rfl <;> cases h
    · intro heq
      generalize session.handler = old at h
      rw [heq] at h
      cases h

/-- A packet whose authentication fails is answered with a failure, which is the last thing
that the task does. -/
def Closed (setup : Setup ι) (session : Session chrono) : Prop :=
  ∀ later packet auth before, session.history = later ++ .recv packet :: before →
    Handshaken before → packet.auth? = some auth → checkAuth setup auth = some false →
    ∃ response, failureResponse packet = some response ∧
      ((later = [] ∧ session.handler = .sending response false) ∨
        ∃ sent, later = [.send response sent] ∧ session.handler = .stopped)

theorem handleClient_of_fails {packet : LapasProtocol chrono} {auth : ApiAuth}
    (hauth : packet.auth? = some auth) (hfails : checkAuth setup auth = some false) :
    ∃ response, failureResponse packet = some response ∧
      handleClient setup packet = .sending response false := by
  cases packet with
  | controlCheckAuth _ | userRegister _ _ _ | userDnsMapping _ _ | shadowGetList _ =>
    cases hauth
    refine ⟨_, rfl, ?_⟩
    simp only [handleClient, handleRequest, hfails]
  | _ => cases hauth

/-- The task has handled no packet whose authentication fails, since it goes on. -/
theorem Closed.not_fails (hclosed : Closed setup session) (hstopped : session.handler ≠ .stopped)
    (hfailing : ∀ response, session.handler ≠ .sending response false)
    {later before : List (Action chrono)} {packet : LapasProtocol chrono} {auth : ApiAuth}
    (hhistory : session.history = later ++ .recv packet :: before) (hopen : Handshaken before)
    (hauth : packet.auth? = some auth) : checkAuth setup auth ≠ some false := by
  intro hfails
  obtain ⟨response, -, ⟨-, hhandler⟩ | ⟨_, -, hhandler⟩⟩ :=
    hclosed later packet auth before hhistory hopen hauth hfails
  · exact hfailing response hhandler
  · exact hstopped hhandler

/-- A task that goes on does something other than receiving. -/
theorem Closed.cons (hclosed : Closed setup session) {action : Action chrono}
    {handler : Handler chrono} (hstopped : session.handler ≠ .stopped)
    (hfailing : ∀ response, session.handler ≠ .sending response false)
    (hrecv : ∀ packet, action ≠ .recv packet) :
    Closed setup ⟨handler, action :: session.history⟩ := by
  intro later packet auth before hhistory hopen hauth hfails
  cases later with
  | nil =>
    obtain ⟨rfl, -⟩ := List.cons.inj hhistory
    exact absurd rfl (hrecv packet)
  | cons first later =>
    obtain ⟨-, hrest⟩ := List.cons.inj hhistory
    exact absurd hfails (hclosed.not_fails hstopped hfailing hrest hopen hauth)

/-- The first packet is not authenticated. -/
theorem Closed.recvFirst (packet : LapasProtocol chrono) (handler : Handler chrono) :
    Closed setup ⟨handler, [.recv packet]⟩ := by
  intro later packet' auth before hhistory hopen
  have hlength := congrArg List.length hhistory
  simp only [List.length_append, List.length_cons, List.length_nil] at hlength
  have hbefore : before = [] := List.length_eq_zero_iff.mp (by omega)
  rw [hbefore] at hopen
  exact absurd hopen List.not_mem_nil

/-- A packet behind the handshake. -/
theorem Closed.recv (hclosed : Closed setup session) (hidle : session.handler = .idle)
    (packet : LapasProtocol chrono) :
    Closed setup ⟨handleClient setup packet, .recv packet :: session.history⟩ := by
  intro later packet' auth before hhistory hopen hauth hfails
  cases later with
  | nil =>
    obtain ⟨heq, rfl⟩ := List.cons.inj hhistory
    cases heq
    obtain ⟨response, hresponse, hdispatch⟩ := handleClient_of_fails hauth hfails
    exact ⟨response, hresponse, Or.inl ⟨rfl, hdispatch⟩⟩
  | cons first later =>
    obtain ⟨-, hrest⟩ := List.cons.inj hhistory
    have hstopped : session.handler ≠ .stopped := fun heq => nomatch hidle.symm.trans heq
    have hfailing : ∀ response, session.handler ≠ .sending response false :=
      fun response heq => nomatch hidle.symm.trans heq
    exact absurd hfails (hclosed.not_fails hstopped hfailing hrest hopen hauth)

/-- The packet behind which the task returns. -/
theorem Closed.sendLast (hclosed : Closed setup session) {response : LapasProtocol chrono}
    (hsending : session.handler = .sending response false) (sent : Bool) :
    Closed setup ⟨.stopped, .send response sent :: session.history⟩ := by
  intro later packet auth before hhistory hopen hauth hfails
  cases later with
  | nil => cases hhistory
  | cons first later =>
    obtain ⟨rfl, hrest⟩ := List.cons.inj hhistory
    -- the failure of an earlier packet is what is sent here
    obtain ⟨response', hresponse, ⟨rfl, heq⟩ | ⟨_, -, heq⟩⟩ :=
      hclosed later packet auth before hrest hopen hauth hfails
    · cases hsending.symm.trans heq
      exact ⟨_, hresponse, Or.inr ⟨sent, rfl, rfl⟩⟩
    · cases hsending.symm.trans heq

theorem SessionStep.closed (h : SessionStep setup session session')
    (hvalid : session.Valid "Incompatible Protocol Version" (Passes setup))
    (hclosed : Closed setup session) : Closed setup session' := by
  -- a failed check is answered by a last packet, and so no step follows it but the sending
  cases h with
  | @receive packet _ h =>
    unfold Session.receive at h
    split at h
    · next hhandshake =>
      cases h
      have hempty := hvalid.fresh hhandshake
      rw [hempty]
      exact Closed.recvFirst packet _
    · next hidle =>
      cases h
      exact hclosed.recv hidle packet
    · cases h
  | hangUp h =>
    -- a session that can hang up is not answering anything
    have hwaiting : session.handler = .handshake ∨ session.handler = .idle := by
      unfold Session.hangUp at h
      split at h
      · exact Or.inl ‹_›
      · exact Or.inr ‹_›
      · cases h
    intro later packet auth before hhistory hopen hauth hfails
    have hhistory' : session.history = later ++ .recv packet :: before := by
      unfold Session.hangUp at h
      split at h <;> cases h <;> exact hhistory
    refine absurd hfails (hclosed.not_fails ?_ (fun response => ?_) hhistory' hopen hauth)
    · rcases hwaiting with heq | heq <;> rw [heq] <;> exact fun heq => nomatch heq
    · rcases hwaiting with heq | heq <;> rw [heq] <;> exact fun heq => nomatch heq
  | @deliver sent _ h =>
    unfold Session.deliver at h
    split at h
    · next response goesOn hsending =>
      cases h
      -- the last packet of a session is the one that may follow a failed check
      cases goesOn with
      | true =>
        refine hclosed.cons ?_ ?_ (fun packet heq => nomatch heq)
        · rw [hsending]
          exact fun heq => nomatch heq
        · intro response' heq
          cases hsending.symm.trans heq
      | false =>
        rw [Bool.and_false]
        exact hclosed.sendLast hsending sent
    · cases h
  | access h =>
    refine hclosed.cons ?_ ?_ (fun packet heq => nomatch heq)
    · intro heq
      rw [heq] at h
      cases h
    · intro response heq
      rw [heq] at h
      cases h

theorem SessionStep.handshaken (h : SessionStep setup session session')
    (hopen : Handshaken session.history) : Handshaken session'.history := by
  cases h with
  | receive h =>
    unfold Session.receive at h
    split at h
    · cases h
      exact hopen.cons _
    · cases h
      exact hopen.cons _
    · cases h
  | hangUp h =>
    unfold Session.hangUp at h
    split at h
    · cases h
      exact hopen
    · cases h
      exact hopen
    · cases h
  | deliver h =>
    unfold Session.deliver at h
    split at h
    · cases h
      exact hopen.cons _
    · cases h
  | access => exact hopen.cons _

end

/-! ### Whole runs -/

section

variable [DecidableEq ι] {setup : Setup ι} {s s' : ApiServer ι chrono}

/-- What a forwarding task may have sent. -/
def Notification (packet : LapasProtocol chrono) : Prop :=
  packet = .controlPing ∨ packet = .notifyUsersChanged ∨ packet = .notifyDnsMappingsChanged

/-- What holds in every state: the sessions are valid, and notifications go to clients that have
opened their connections. -/
structure ApiServer.Inv (setup : Setup ι) (s : ApiServer ι chrono) : Prop where
  valid : ∀ client, (s.sessions client).Valid "Incompatible Protocol Version" (Passes setup)
  closed : ∀ client, Closed setup (s.sessions client)
  notified : ∀ packet ∈ s.notified, Notification packet
  listeners : ∀ client ∈ s.listeners, Handshaken (s.sessions client).history
  forwarded : ∀ client packet, (client, packet) ∈ s.forwarded →
    Handshaken (s.sessions client).history ∧ Notification packet

/-- What holds of all sessions in front of a step holds of them behind it. -/
theorem Moves.forall_sessions {client : ι} {P : Session chrono → Prop}
    (h : Moves setup s client s')
    (hstep : ∀ session, SessionStep setup (s.sessions client) session → P session)
    {other : ι} (hother : P (s.sessions other)) : P (s'.sessions other) := by
  obtain ⟨session, hsession, hsessions⟩ := h.session
  rw [hsessions]
  by_cases heq : other = client
  · rw [heq, Function.update_self]
    exact hstep session hsession
  · rwa [Function.update_of_ne heq]

theorem Moves.handshaken {client other : ι} (h : Moves setup s client s')
    (hopen : Handshaken (s.sessions other).history) : Handshaken (s'.sessions other).history := by
  obtain ⟨session, hsession, hsessions⟩ := h.session
  rw [hsessions]
  by_cases heq : other = client
  · rw [heq] at hopen ⊢
    rw [Function.update_self]
    exact hsession.handshaken hopen
  · rwa [Function.update_of_ne heq]

theorem ApiServer.Inv.step (h : s.Inv setup) {client : ι} {e : ApiServer.Event chrono}
    (hstep : s.step setup client e = some s') : s'.Inv setup := by
  rcases moves_of_step hstep with hmoves | ⟨packet, hpacket, hforward⟩
  · constructor
    · intro other
      exact hmoves.forall_sessions (fun _ hsession => hsession.valid (h.valid client))
        (h.valid other)
    · intro other
      exact hmoves.forall_sessions
        (fun _ hsession => hsession.closed (h.valid client) (h.closed client)) (h.closed other)
    · intro packet hpacket
      exact (hmoves.notified packet hpacket).elim (h.notified packet) Or.inr
    · intro other hother
      rcases hmoves.listeners other hother with hold | ⟨rfl, hregistering⟩
      · exact hmoves.handshaken (h.listeners other hold)
      -- a task that registers its client is behind the handshake
      · have hopen := (h.valid other).opened
        rw [hregistering] at hopen
        refine hmoves.handshaken (hopen.resolve_left ?_)
        rintro (heq | heq | heq) <;> cases heq
    · intro other packet hpacket
      rw [hmoves.forwarded] at hpacket
      obtain ⟨hopen, hnotification⟩ := h.forwarded other packet hpacket
      exact ⟨hmoves.handshaken hopen, hnotification⟩
  · unfold ApiServer.forward at hforward
    split at hforward
    · next hlistener =>
      cases hforward
      refine ⟨h.valid, h.closed, h.notified, h.listeners, ?_⟩
      intro other packet' hpacket'
      rcases List.mem_cons.mp hpacket' with heq | hold
      · cases heq
        exact ⟨h.listeners client hlistener, hpacket.elim Or.inl (h.notified packet)⟩
      · exact h.forwarded other packet' hold
    · cases hforward

theorem inv_of_reach_apiServer (h : (apiServer setup chrono).Reach (fun _ _ => True) s) :
    s.Inv setup := by
  refine h.invariant (fun s hs => ?_) fun s e s' hs _ hstep => hs.step hstep
  obtain ⟨index, hosts, rfl⟩ := hs
  constructor
  · exact fun _ => Session.valid_accepted
  · intro _ later packet _ before hhistory
    exact absurd hhistory.symm (by simp [Session.accepted])
  · exact fun _ hpacket => absurd hpacket List.not_mem_nil
  · exact fun _ hclient => absurd hclient List.not_mem_nil
  · exact fun _ _ hpacket => absurd hpacket List.not_mem_nil

/-- Users and host mappings change for packets whose authentication passes. -/
theorem ApiServer.Inv.exists_passed (h : s.Inv setup) {client : ι} {e : ApiServer.Event chrono}
    (hstep : s.step setup client e = some s') (hchanged : s'.index ≠ s.index ∨ s'.hosts ≠ s.hosts) :
    ∃ packet auth, handling (s.sessions client).history = some packet ∧
      packet.auth? = some auth ∧ Passes setup auth := by
  have hbacked := (h.valid client).backed
  rcases moves_of_step hstep with hmoves | ⟨packet, -, hforward⟩
  · have hchanges := hmoves.changes hchanged
    generalize (s.sessions client).handler = handler at hbacked hchanges
    cases hchanges with
    | addUser =>
      obtain ⟨packet, hpacket, hgrants⟩ := hbacked
      cases hgrants with
      | addUser hpasses => exact ⟨_, _, hpacket, rfl, hpasses⟩
    | createMapping =>
      obtain ⟨packet, hpacket, hgrants⟩ := hbacked
      cases hgrants with
      | createUserHostMapping hpasses => exact ⟨_, _, hpacket, rfl, hpasses⟩
    | mapping => exact hbacked
  · unfold ApiServer.forward at hforward
    split at hforward
    · cases hforward
      exact (hchanged.elim (absurd rfl) (absurd rfl))
    · cases hforward

/-- In front of the handshake, a step changes nothing but the session. -/
theorem ApiServer.Inv.setSession (h : s.Inv setup) {client : ι} {e : ApiServer.Event chrono}
    (hstep : s.step setup client e = some s')
    (hunopened : ¬ Handshaken (s.sessions client).history) :
    ∃ session, s' = s.setSession client session := by
  rcases moves_of_step hstep with hmoves | ⟨packet, -, hforward⟩
  · rcases hmoves.shared with hsession | ⟨handler, hworks⟩
    · exact hsession
    -- in front of the handshake, no handler works on the shared state
    · have hopen := (h.valid client).opened.resolve_right hunopened
      generalize (s.sessions client).handler = old at hopen hworks
      rcases hopen with rfl | rfl | rfl <;> cases hworks
  · unfold ApiServer.forward at hforward
    split at hforward
    · next hlistener => exact absurd (h.listeners client hlistener) hunopened
    · cases hforward

end

end Server
end Lapas
