import Lapas.Daemon.Monotone
import Lapas.Guest.NameLookup
import Lapas.Server.Locks

/-!
# Lookups on a guest

A process that looks a user up calls the plugin for the name service.  The plugin asks the local
authentication server, which answers from the cache of the daemon, which follows the users of the
server.  All of these run at the same time, the connection of the daemon may fail and come back, and
notifications may be missed: what a guest has once found stays where it is.

## Main definitions

* `ShadowHooks` — the hooks for passwords.
* `Query`, `Call` — a call of the plugin.
* `Lookups`, `lookups` — the server, the daemon, and any number of calls.
* `Listed` — what an answer has to do with the users of the server.
* `Persists` — what two answers have to do with each other.

## Main results

* `Lookups.Sees.step` — a call comes to see nothing but what is in the cache.
* `persists_of_run` — **what a call has found, all later ones find.**
-/

namespace Lapas
namespace Guest

open Proto Server Daemon PasswdHooks

variable {chrono : Chrono} {ι κ : Type}

/-! ### Passwords -/

/-- An entry of the shadow database, with the fields that the plugin fills in. -/
structure Shadow where
  name : Str
  passwd : Str
  lastChange : ℤ
  changeMinDays : ℤ
  changeMaxDays : ℤ
  changeWarnDays : ℤ
  changeInactiveDays : ℤ
  expireDate : ℤ
  reserved : ℕ

namespace ShadowHooks

-- the seconds since 1970
variable (timestamp : chrono.DateTime → ℤ)

/-- `user_to_shadow`: the day of the last change is that of the index, and the other fields are the
same for all users. -/
def userToShadow (user : LapasUserShadow chrono) : Shadow where
  name := user.name.toList
  passwd := user.passwordHash.toList
  lastChange := (timestamp user.lastUpdateTs).tdiv 86400
  changeMinDays := 0
  changeMaxDays := 99999
  changeWarnDays := 7
  changeInactiveDays := -1
  expireDate := -1
  reserved := 0

variable (shadowList : Except Failure (List (LapasUserShadow chrono)))

/-- `get_all_entries` of the shadow database.  Whatever the request fails with, the plugin is not
available. -/
def getAllEntries : Response (List Shadow) :=
  match shadowList with
  | .ok users => .success (users.map (userToShadow timestamp))
  | .error _ => .unavail

/-- `get_entry_by_name` of the shadow database: the first user of the list that has the name. -/
def getEntryByName (name : String) : Response Shadow :=
  match shadowList with
  | .error _ => .unavail
  | .ok users =>
    match users.find? (·.name = name) with
    | some user => .success (userToShadow timestamp user)
    | none => .notFound

end ShadowHooks

/-! ### A call of the plugin -/

/-- What a call of the plugin asks the daemon for: the list of names and ids, or that of the
hashes. -/
inductive Query
  | passwdList
  /-- With what `get_api_password` returns. -/
  | shadowList (apiPassword : Except Failure String)

/-- What a call of the plugin has when it returns: one of the two lists, or why there is none. -/
inductive Answer (chrono : Chrono)
  | passwd (result : Except Failure (List LapasUserPasswd))
  | shadow (result : Except Failure (List (LapasUserShadow chrono)))

/-- A call that fails returns the failure in the place of its list. -/
def Query.fail (e : Failure) : Query → Answer chrono
  | .passwdList => .passwd (.error e)
  | .shadowList _ => .shadow (.error e)

/-- Where a call of the library is between its start and its answer; each constructor is one of its
awaits. -/
inductive Call (chrono : Chrono)
  /-- `lapas_connect` sends the handshake. -/
  | connecting
  /-- It waits for the response. -/
  | handshake
  /-- The call sends its request. -/
  | connected
  /-- It waits for the response. -/
  | requested
  | returned (answer : Answer chrono)

/-- The call sends its next packet: the handshake, then the packet of the query. A query for the
shadow list without a password ends here. -/
def Call.send (query : Query) :
    Call chrono → Option (Call chrono × List (LapasProtocol chrono))
  | .connecting => some (.handshake, [.controlHandshake version])
  | .connected =>
    match query with
    | .passwdList => some (.requested, [.passwdGetList])
    | .shadowList (.ok apiPassword) => some (.requested, [.shadowGetList (.password apiPassword)])
    | .shadowList (.error e) => some (.returned (query.fail e), [])
  | _ => none

/-- What the call makes of the response. -/
def Query.answer : Query → LapasProtocol chrono → Answer chrono
  | .passwdList, .passwdGetListResponse (.ok users) => .passwd (.ok users.elems)
  | .passwdList, .passwdGetListResponse (.error e) =>
    .passwd (.error (.err ("Error while getting passwd list from lapas: " ++ e)))
  | .shadowList _, .shadowGetListResponse (.ok users) => .shadow (.ok users.elems)
  | .shadowList _, .shadowGetListResponse (.error e) =>
    .shadow (.error (.err ("Error while getting shadow list from lapas: " ++ e)))
  | query, _ => query.fail (.err "Received unexpected response from server")

/-- A packet arrives: the handshake has to be accepted, and what comes after the request is matched
by the query. -/
def Call.receive (query : Query) (packet : LapasProtocol chrono) :
    Call chrono → Option (Call chrono)
  | .handshake =>
    match packet with
    | .controlHandshakeResponse (.ok ()) => some .connected
    | .controlHandshakeResponse (.error e) =>
      some (.returned (query.fail (.err ("Conncting to lapas api server failed: " ++ e))))
    | _ => some (.returned (query.fail (.err "Received unexpected response")))
  | .requested => some (.returned (query.answer packet))
  | _ => none

/-- The connection fails at any await of the call, which then answers with the error; no entry is
found in that case. -/
def Call.lose (query : Query) (e : String) : Call chrono → Option (Call chrono)
  | .returned _ => none
  | _ => some (.returned (query.fail (.err e)))

/-! ### The system -/

/-- A guest whose programs look up users: its daemon with the connection to the server, and any
number of calls of the plugin with their sessions at the local server. -/
structure Lookups (ι : Type) (chrono : Chrono) where
  /-- The users of the server, and the daemon of the guest with its connection. -/
  daemon : Coherence chrono
  sessions : ι → Session chrono
  calls : ι → Call chrono
  /-- The packets that have been sent to the local server and not been received. -/
  up : ι → List (LapasProtocol chrono)
  down : ι → List (LapasProtocol chrono)

/-- The steps of the guest: those of the daemon and of its server, and those of the calls, which
send and receive, lose their connections, and are served by the local server. -/
inductive Lookups.Event (ι : Type) (chrono : Chrono)
  | daemon (e : Coherence.Event chrono)
  | send (client : ι)
  | receive (client : ι)
  | lose (client : ι) (e : String)
  /-- The local server matches on the next packet. -/
  | handle (client : ι)
  | hangUp (client : ι)
  | get (client : ι)
  /-- The local server sends its packet, or fails to. -/
  | respond (client : ι) (sent : Bool)

/-- The local server of the daemon: the cache that the daemon keeps and the sessions of the
calls. -/
def Lookups.authServer (s : Lookups ι chrono) : AuthServer ι chrono :=
  ⟨s.daemon.userCache, s.sessions⟩

section

variable [DecidableEq ι] (setup : Setup κ) (auth : ApiAuth) (queries : ι → Query)

/-- One step.  A call that has sent its packets waits for the answers of the local server, which
takes them out of the cache of the daemon. -/
def Lookups.step (s : Lookups ι chrono) :
    Lookups.Event ι chrono → Option (Lookups ι chrono)
  | .daemon e => (s.daemon.step setup auth e).map fun daemon => { s with daemon }
  | .send client => ((s.calls client).send (queries client)).map fun (call, packets) =>
    { s with calls := Function.update s.calls client call
             up := Function.update s.up client (s.up client ++ packets) }
  | .receive client =>
    match s.down client with
    | [] => none
    | packet :: rest => ((s.calls client).receive (queries client) packet).map fun call =>
      { s with calls := Function.update s.calls client call
               down := Function.update s.down client rest }
  | .lose client e => ((s.calls client).lose (queries client) e).map fun call =>
    { s with calls := Function.update s.calls client call }
  | .handle client =>
    match s.up client with
    | [] => none
    | packet :: rest => (s.authServer.step auth (.recv client packet)).map fun server =>
      { s with sessions := server.sessions, up := Function.update s.up client rest }
  | .hangUp client => (s.authServer.step auth (.hangUp client)).map fun server =>
    { s with sessions := server.sessions }
  | .get client => (s.authServer.step auth (.get client)).map fun server =>
    { s with sessions := server.sessions }
  | .respond client sent => (s.authServer.step auth (.send client sent)).map fun server =>
    { s with sessions := server.sessions
             down := Function.update s.down client (s.down client ++
               if sent then outgoing (s.sessions client).handler else []) }

/-- A server with some users, a daemon that has just been started, and calls that have. -/
def lookups (chrono : Chrono) : Machine (Lookups ι chrono) (Lookups.Event ι chrono) where
  start s := ∃ index, s = ⟨⟨index, false, [], none, none⟩, fun _ => .accepted,
    fun _ => .connecting, fun _ => [], fun _ => []⟩
  step := Lookups.step setup auth queries

end

/-- The timer of the daemon cuts no packet. -/
def Lookups.Event.Calm (e : Lookups.Event ι chrono) : Prop :=
  ∀ e', e = .daemon e' → Uncut e'

/-- Users that are listed are those of the server, in its order. -/
structure Listed (index : UserIndex chrono) (answer : Answer chrono) : Prop where
  passwd : ∀ users, answer = .passwd (.ok users) → users <+: index.passwdAll
  shadow : ∀ users, answer = .shadow (.ok users) → users <+: index.shadowAll

/-- What the answer of a call has to do with that of a later one. -/
structure Persists (timestamp : chrono.DateTime → ℤ) (answer answer' : Answer chrono) : Prop where
  /-- A user who has been found is found again, and is the same. -/
  byName : ∀ users users', answer = .passwd (.ok users) → answer' = .passwd (.ok users') →
    ∀ name entry, getEntryByName (.ok users) name = .success entry →
      getEntryByName (.ok users') name = .success entry
  byUid : ∀ users users', answer = .passwd (.ok users) → answer' = .passwd (.ok users') →
    ∀ uid entry, getEntryByUid (.ok users) uid = .success entry →
      getEntryByUid (.ok users') uid = .success entry
  shadow : ∀ users users', answer = .shadow (.ok users) → answer' = .shadow (.ok users') →
    ∀ name entry, ShadowHooks.getEntryByName timestamp (.ok users) name = .success entry →
      ShadowHooks.getEntryByName timestamp (.ok users') name = .success entry
  /-- Between the users of its own files, the guest resolves a name, or a number, as it did. -/
  getpwnam : ∀ users users', answer = .passwd (.ok users) → answer' = .passwd (.ok users') →
    ∀ files (name : String) entry, NameService.getpwnam ⟨files, users⟩ name.toList = some entry →
      NameService.getpwnam ⟨files, users'⟩ name.toList = some entry
  getpwuid : ∀ users users', answer = .passwd (.ok users) → answer' = .passwd (.ok users') →
    ∀ files (uid : UInt32) entry, NameService.getpwuid ⟨files, users⟩ uid.toNat = some entry →
      NameService.getpwuid ⟨files, users'⟩ uid.toNat = some entry
  /-- Who has been found has a password. -/
  authenticates : ∀ users users', answer = .passwd (.ok users) → answer' = .shadow (.ok users') →
    ∀ name entry, getEntryByName (.ok users) name = .success entry →
      ∃ entry', ShadowHooks.getEntryByName timestamp (.ok users') name = .success entry'

/-! ### What a call sees -/

/-- The user without the password, as `passwd_all` sends it to clients that have not
authenticated. -/
def passwdOf (user : LapasUserShadow chrono) : LapasUserPasswd where
  id := user.id
  name := user.name

/-- A list in the packet is one of these, or made of one. -/
def Seen (view : List (LapasUserShadow chrono) → Prop) : LapasProtocol chrono → Prop
  | .passwdGetListResponse (.ok users) => ∃ list, view list ∧ users.elems = list.map passwdOf
  | .shadowGetListResponse (.ok users) => view users.elems
  | _ => True

/-- The list that an answer holds is one that the view has seen; an answer that has failed holds
none. -/
def Answer.Seen (view : List (LapasUserShadow chrono) → Prop) : Answer chrono → Prop
  | .passwd (.ok users) => ∃ list, view list ∧ users = list.map passwdOf
  | .shadow (.ok users) => view users
  | _ => True

/-- The call has got such lists only, and will get no others. -/
structure Lookups.Sees (s : Lookups ι chrono) (view : List (LapasUserShadow chrono) → Prop)
    (client : ι) : Prop where
  returned : ∀ answer, s.calls client = .returned answer → answer.Seen view
  down : ∀ packet ∈ s.down client, Seen view packet
  outgoing : ∀ packet ∈ outgoing (s.sessions client).handler, Seen view packet

/-- A call that has sent nothing has got nothing. -/
def Lookups.Fresh (s : Lookups ι chrono) (client : ι) : Prop :=
  s.calls client = .connecting → s.up client = [] ∧ s.down client = [] ∧
    ((s.sessions client).handler = .handshake ∨ (s.sessions client).handler = .stopped)

section

variable {view view' : List (LapasUserShadow chrono) → Prop}

theorem Seen.mono (hview : ∀ list, view list → view' list) {packet : LapasProtocol chrono}
    (h : Seen view packet) : Seen view' packet := by
  unfold Seen at h ⊢
  split at h
  · obtain ⟨list, hlist, heq⟩ := h
    exact ⟨list, hview list hlist, heq⟩
  · exact hview _ h
  · trivial

theorem Answer.Seen.mono (hview : ∀ list, view list → view' list) {answer : Answer chrono}
    (h : answer.Seen view) : answer.Seen view' := by
  unfold Answer.Seen at h ⊢
  split at h
  · obtain ⟨list, hlist, heq⟩ := h
    exact ⟨list, hview list hlist, heq⟩
  · exact hview _ h
  · trivial

theorem Lookups.Sees.mono {s : Lookups ι chrono} {client : ι} (h : s.Sees view client)
    (hview : ∀ list, view list → view' list) : s.Sees view' client where
  returned answer hanswer := (h.returned answer hanswer).mono hview
  down packet hpacket := (h.down packet hpacket).mono hview
  outgoing packet hpacket := (h.outgoing packet hpacket).mono hview

theorem Query.seen_fail (query : Query) (e : Failure) :
    (query.fail e : Answer chrono).Seen view := by
  cases query <;> trivial

/-- A call takes the list from the packet. -/
theorem Query.seen_answer (query : Query) {packet : LapasProtocol chrono} (h : Seen view packet) :
    (query.answer packet).Seen view := by
  unfold Query.answer
  split
  · exact h
  · trivial
  · exact h
  · trivial
  · exact query.seen_fail _

theorem Call.seen_receive {query : Query} {packet : LapasProtocol chrono}
    {call call' : Call chrono} (h : Seen view packet)
    (hreceive : call.receive query packet = some call')
    {answer : Answer chrono} (hanswer : call' = .returned answer) : answer.Seen view := by
  unfold Call.receive at hreceive
  split at hreceive
  · split at hreceive <;> cases hreceive <;> cases hanswer <;> exact query.seen_fail _
  · cases hreceive
    cases hanswer
    exact query.seen_answer h
  · cases hreceive

theorem Call.seen_send {query : Query} {call call' : Call chrono}
    {packets : List (LapasProtocol chrono)} (hsend : call.send query = some (call', packets))
    {answer : Answer chrono} (hanswer : call' = .returned answer) : answer.Seen view := by
  unfold Call.send at hsend
  split at hsend
  · cases hsend
    cases hanswer
  · split at hsend <;> cases hsend <;> cases hanswer
    exact Query.seen_fail _ _
  · cases hsend

theorem Call.seen_lose {query : Query} {e : String} {call call' : Call chrono}
    (hlose : call.lose query e = some call') {answer : Answer chrono}
    (hanswer : call' = .returned answer) : answer.Seen view := by
  unfold Call.lose at hlose
  split at hlose <;> cases hlose
  cases hanswer
  exact query.seen_fail _

/-- The local server sends no list before it has looked into the cache. -/
theorem seen_receive {auth : ApiAuth} {session session' : Session chrono}
    {packet : LapasProtocol chrono}
    (h : session.receive "AuthServ: Incompatible Protocol Version" (handleLocalAuthClient auth)
      packet = some session') {packet' : LapasProtocol chrono}
    (hpacket' : packet' ∈ outgoing session'.handler) : Seen view packet' := by
  unfold Session.receive at h
  split at h
  · cases h
    dsimp only at hpacket'
    unfold receiveHandshake at hpacket'
    split at hpacket'
    · split at hpacket' <;> rw [List.mem_singleton.mp hpacket'] <;> trivial
    · exact absurd hpacket' List.not_mem_nil
  · cases h
    dsimp only at hpacket'
    rcases handleLocalAuthClient_cases packet
        (rfl : handleLocalAuthClient auth packet = _) with heq | ⟨_, heq, -⟩ <;>
      rw [heq] at hpacket' <;> exact absurd hpacket' List.not_mem_nil
  · cases h

end

/-! ### One step -/

section

variable {view : List (LapasUserShadow chrono) → Prop} {s s' : Lookups ι chrono} {client : ι}

theorem Lookups.Sees.of_eq (h : s.Sees view client) (hcalls : s'.calls client = s.calls client)
    (hdown : s'.down client = s.down client)
    (hsessions : s'.sessions client = s.sessions client) : s'.Sees view client where
  returned answer hanswer := h.returned answer (hcalls ▸ hanswer)
  down packet hpacket := h.down packet (hdown ▸ hpacket)
  outgoing packet hpacket := h.outgoing packet (hsessions ▸ hpacket)

end

section

variable [DecidableEq ι] {view : List (LapasUserShadow chrono) → Prop} {setup : Setup κ}
  {auth : ApiAuth} {queries : ι → Query} {s s' : Lookups ι chrono} {client : ι}

/-- No list is too long for a packet. -/
theorem elems_ofList {α : Type} {elems : List α} (h : elems.length < 2 ^ 64) :
    (Vec.ofList elems).elems = elems := by
  rw [Vec.ofList]
  exact List.take_of_length_le (by omega)

/-- The list that the local server reads. -/
theorem seen_get {server' : AuthServer ι chrono} (hview : view s.daemon.cached)
    (hstep : s.authServer.step auth (.get client) = some server')
    {packet : LapasProtocol chrono}
    (hpacket : packet ∈ outgoing (server'.sessions client).handler) : Seen view packet := by
  simp only [AuthServer.step] at hstep
  split at hstep <;> cases hstep <;>
    simp only [AuthServer.setSession, Function.update_self, Session.access, outgoing,
      List.mem_singleton] at hpacket <;> rw [hpacket]
  · refine ⟨s.daemon.cached, hview, elems_ofList ?_⟩
    rw [List.length_map]
    exact s.authServer.users.length_lt
  · exact hview

/-- The local server does not look at other connections. -/
theorem sessions_other {server' : AuthServer ι chrono} {other : ι}
    {e : AuthServer.Event ι chrono} (hother : client ≠ other)
    (he : (∃ packet, e = .recv other packet) ∨ e = .hangUp other ∨ e = .get other ∨
      ∃ sent, e = .send other sent)
    (hstep : s.authServer.step auth e = some server') :
    server'.sessions client = s.sessions client := by
  have hset : ∀ session : Session chrono,
      (s.authServer.setSession other session).sessions client = s.sessions client := by
    intro session
    exact Function.update_of_ne hother session s.sessions
  rcases he with ⟨packet, rfl⟩ | rfl | rfl | ⟨sent, rfl⟩
  · obtain ⟨session, -, rfl⟩ := Option.map_eq_some_iff.mp hstep
    exact hset session
  · obtain ⟨session, -, rfl⟩ := Option.map_eq_some_iff.mp hstep
    exact hset session
  · simp only [AuthServer.step] at hstep
    split at hstep <;> cases hstep <;> exact hset _
  · obtain ⟨session, -, rfl⟩ := Option.map_eq_some_iff.mp hstep
    exact hset session

/-- **A call sees the cache.**  What a step shows to a call is what has been shown to it before, or
what is in the cache. -/
theorem Lookups.Sees.step (h : s.Sees view client) (hview : view s.daemon.cached)
    {e : Lookups.Event ι chrono} (hstep : s.step setup auth queries e = some s') :
    s'.Sees view client := by
  have hupdate : ∀ {α : Type} {f : ι → α} {other : ι} (a : α), client ≠ other →
      Function.update f other a client = f client := by
    intro α f other a hother
    exact Function.update_of_ne hother a f
  -- a list gets from the cache into the session, from there onto the way down, and from there to
  -- the call; every other step keeps all three
  cases e with
  | daemon e =>
    obtain ⟨daemon, -, rfl⟩ := Option.map_eq_some_iff.mp hstep
    exact h.of_eq rfl rfl rfl
  | send other =>
    obtain ⟨⟨call, packets⟩, hsend, rfl⟩ := Option.map_eq_some_iff.mp hstep
    by_cases hother : client = other
    · subst hother
      refine ⟨fun answer hanswer => ?_, h.down, h.outgoing⟩
      simp only [Function.update_self] at hanswer
      exact Call.seen_send hsend hanswer
    · exact h.of_eq (hupdate call hother) rfl rfl
  | receive other =>
    simp only [Lookups.step] at hstep
    split at hstep
    · cases hstep
    · next packet rest hdown =>
      obtain ⟨call, hreceive, rfl⟩ := Option.map_eq_some_iff.mp hstep
      by_cases hother : client = other
      · subst hother
        -- the packet that is taken off the way down has been seen
        have hpacket := h.down
        rw [hdown] at hpacket
        refine ⟨fun answer hanswer => ?_, fun packet' hpacket' => ?_, h.outgoing⟩
        · simp only [Function.update_self] at hanswer
          exact Call.seen_receive (hpacket packet List.mem_cons_self) hreceive hanswer
        · simp only [Function.update_self] at hpacket'
          exact hpacket packet' (List.mem_cons_of_mem _ hpacket')
      · exact h.of_eq (hupdate call hother) (hupdate rest hother) rfl
  | lose other e =>
    obtain ⟨call, hlose, rfl⟩ := Option.map_eq_some_iff.mp hstep
    by_cases hother : client = other
    · subst hother
      refine ⟨fun answer hanswer => ?_, h.down, h.outgoing⟩
      simp only [Function.update_self] at hanswer
      exact Call.seen_lose hlose hanswer
    · exact h.of_eq (hupdate call hother) rfl rfl
  | handle other =>
    simp only [Lookups.step] at hstep
    split at hstep
    · cases hstep
    · next packet rest hup =>
      obtain ⟨server', hserver, rfl⟩ := Option.map_eq_some_iff.mp hstep
      by_cases hother : client = other
      · subst hother
        refine ⟨h.returned, h.down, fun packet' hpacket' => ?_⟩
        obtain ⟨session, hsession, rfl⟩ := Option.map_eq_some_iff.mp hserver
        simp only [AuthServer.setSession, Function.update_self] at hpacket'
        exact seen_receive hsession hpacket'
      · exact h.of_eq rfl rfl (sessions_other hother (.inl ⟨packet, rfl⟩) hserver)
  | hangUp other =>
    obtain ⟨server', hserver, rfl⟩ := Option.map_eq_some_iff.mp hstep
    by_cases hother : client = other
    · subst hother
      refine ⟨h.returned, h.down, fun packet hpacket => ?_⟩
      obtain ⟨session, hsession, rfl⟩ := Option.map_eq_some_iff.mp hserver
      simp only [AuthServer.setSession, Function.update_self] at hpacket
      unfold Session.hangUp at hsession
      split at hsession <;> cases hsession <;> exact absurd hpacket List.not_mem_nil
    · exact h.of_eq rfl rfl (sessions_other hother (.inr (.inl rfl)) hserver)
  | get other =>
    obtain ⟨server', hserver, rfl⟩ := Option.map_eq_some_iff.mp hstep
    by_cases hother : client = other
    · subst hother
      -- this is where the cache is read
      exact ⟨h.returned, h.down, fun packet hpacket => seen_get hview hserver hpacket⟩
    · exact h.of_eq rfl rfl (sessions_other hother (.inr (.inr (.inl rfl))) hserver)
  | respond other sent =>
    obtain ⟨server', hserver, rfl⟩ := Option.map_eq_some_iff.mp hstep
    by_cases hother : client = other
    · subst hother
      refine ⟨h.returned, fun packet hpacket => ?_, fun packet hpacket => ?_⟩
      · simp only [Function.update_self] at hpacket
        -- what was in the session is on the way down now
        rcases List.mem_append.mp hpacket with hold | hnew
        · exact h.down packet hold
        · split at hnew
          · exact h.outgoing packet hnew
          · exact absurd hnew List.not_mem_nil
      · obtain ⟨session, hsession, rfl⟩ := Option.map_eq_some_iff.mp hserver
        simp only [AuthServer.setSession, Function.update_self] at hpacket
        unfold Session.deliver at hsession
        split at hsession <;> cases hsession
        dsimp only at hpacket
        split at hpacket <;> exact absurd hpacket List.not_mem_nil
    · exact h.of_eq rfl (hupdate _ hother)
        (sessions_other hother (.inr (.inr (.inr ⟨sent, rfl⟩))) hserver)

/-- The daemon makes its steps among the calls. -/
theorem daemon_of_step {e : Lookups.Event ι chrono}
    (hstep : s.step setup auth queries e = some s') :
    s'.daemon = s.daemon ∨ ∃ e', e = .daemon e' ∧ s.daemon.step setup auth e' = some s'.daemon := by
  cases e with
  | daemon e =>
    obtain ⟨daemon, hdaemon, rfl⟩ := Option.map_eq_some_iff.mp hstep
    exact .inr ⟨e, rfl, hdaemon⟩
  | receive client | handle client =>
    simp only [Lookups.step] at hstep
    split at hstep
    · cases hstep
    · obtain ⟨_, -, rfl⟩ := Option.map_eq_some_iff.mp hstep
      exact .inl rfl
  | _ =>
    obtain ⟨_, -, rfl⟩ := Option.map_eq_some_iff.mp hstep
    exact .inl rfl

/-- In steps that cut no packet, the cache and the list of the server grow. -/
theorem grows_of_step {e : Lookups.Event ι chrono} (hordered : s.daemon.Ordered) (hcalm : e.Calm)
    (hstep : s.step setup auth queries e = some s') :
    s'.daemon.Ordered ∧ s.daemon.cached <+: s'.daemon.cached := by
  rcases daemon_of_step hstep with heq | ⟨e', he, hdaemon⟩
  · rw [heq]
    exact ⟨hordered, List.prefix_rfl⟩
  · obtain ⟨hordered', hgrown, -⟩ := hordered.step (hcalm e' he) hdaemon
    exact ⟨hordered', hgrown⟩

/-- The first packet of a call is its handshake. -/
theorem Lookups.Fresh.step (h : s.Fresh client) {e : Lookups.Event ι chrono}
    (hstep : s.step setup auth queries e = some s') : s'.Fresh client := by
  have hupdate : ∀ {α : Type} {f : ι → α} {other : ι} (a : α), client ≠ other →
      Function.update f other a client = f client := by
    intro α f other a hother
    exact Function.update_of_ne hother a f
  -- steps of other calls leave this one alone; its own steps are those of a call that has begun
  intro hcall
  -- the daemon does not know the call
  cases e with
  | daemon e =>
    obtain ⟨daemon, -, rfl⟩ := Option.map_eq_some_iff.mp hstep
    exact h hcall
  | send other =>
    obtain ⟨⟨call, packets⟩, hsend, rfl⟩ := Option.map_eq_some_iff.mp hstep
    by_cases hother : client = other
    · subst hother
      simp only [Function.update_self] at hcall
      rw [hcall] at hsend
      unfold Call.send at hsend
      split at hsend
      · cases hsend
      · split at hsend <;> cases hsend
      · cases hsend
    · simp only [hupdate _ hother] at hcall ⊢
      exact h hcall
  | receive other =>
    simp only [Lookups.step] at hstep
    split at hstep
    · cases hstep
    · next packet rest hdown =>
      obtain ⟨call, hreceive, rfl⟩ := Option.map_eq_some_iff.mp hstep
      by_cases hother : client = other
      · subst hother
        simp only [Function.update_self] at hcall
        rw [hcall] at hreceive
        unfold Call.receive at hreceive
        split at hreceive
        · split at hreceive <;> cases hreceive
        · cases hreceive
        · cases hreceive
      · simp only [hupdate _ hother] at hcall ⊢
        exact h hcall
  | lose other e =>
    obtain ⟨call, hlose, rfl⟩ := Option.map_eq_some_iff.mp hstep
    by_cases hother : client = other
    · subst hother
      simp only [Function.update_self] at hcall
      rw [hcall] at hlose
      unfold Call.lose at hlose
      split at hlose <;> cases hlose
    · simp only [hupdate _ hother] at hcall
      exact h hcall
  | handle other =>
    simp only [Lookups.step] at hstep
    split at hstep
    · cases hstep
    · next packet rest hup =>
      obtain ⟨server', hserver, rfl⟩ := Option.map_eq_some_iff.mp hstep
      have hother : client ≠ other := by
        rintro rfl
        -- nothing of a fresh call is on its way to the local server
        rw [(h hcall).1] at hup
        cases hup
      obtain ⟨hup', hdown, hhandler⟩ := h hcall
      refine ⟨(hupdate rest hother).trans hup', hdown, ?_⟩
      dsimp only
      rwa [sessions_other hother (.inl ⟨packet, rfl⟩) hserver]
  | hangUp other =>
    obtain ⟨server', hserver, rfl⟩ := Option.map_eq_some_iff.mp hstep
    obtain ⟨hup, hdown, hhandler⟩ := h hcall
    refine ⟨hup, hdown, ?_⟩
    by_cases hother : client = other
    · subst hother
      obtain ⟨session, hsession, rfl⟩ := Option.map_eq_some_iff.mp hserver
      simp only [AuthServer.setSession, Function.update_self]
      unfold Session.hangUp at hsession
      -- its session may end before it has sent anything
      split at hsession <;> cases hsession <;> exact .inr rfl
    · dsimp only
      rwa [sessions_other hother (.inr (.inl rfl)) hserver]
  | get other =>
    obtain ⟨server', hserver, rfl⟩ := Option.map_eq_some_iff.mp hstep
    obtain ⟨hup, hdown, hhandler⟩ := h hcall
    have hother : client ≠ other := by
      rintro rfl
      rcases hhandler with heq | heq <;>
        simp [AuthServer.step, Lookups.authServer, heq] at hserver
    refine ⟨hup, hdown, ?_⟩
    dsimp only
    rwa [sessions_other hother (.inr (.inr (.inl rfl))) hserver]
  | respond other sent =>
    obtain ⟨server', hserver, rfl⟩ := Option.map_eq_some_iff.mp hstep
    obtain ⟨hup, hdown, hhandler⟩ := h hcall
    have hother : client ≠ other := by
      rintro rfl
      rcases hhandler with heq | heq <;>
        simp [AuthServer.step, Lookups.authServer, Session.deliver, heq] at hserver
    refine ⟨hup, (hupdate _ hother).trans hdown, ?_⟩
    dsimp only
    rwa [sessions_other hother (.inr (.inr (.inr ⟨sent, rfl⟩))) hserver]

/-! ### Whole runs -/

/-- The lists on their way to the daemon are in order, and calls have seen them only. -/
structure Lookups.Inv (s : Lookups ι chrono) : Prop where
  ordered : s.daemon.Ordered
  sees : ∀ client, s.Sees (· <+: s.daemon.cached) client
  fresh : ∀ client, s.Fresh client

theorem Lookups.Inv.step (h : s.Inv) {e : Lookups.Event ι chrono} (hcalm : e.Calm)
    (hstep : s.step setup auth queries e = some s') :
    s'.Inv ∧ s.daemon.cached <+: s'.daemon.cached := by
  obtain ⟨hordered, hgrown⟩ := grows_of_step h.ordered hcalm hstep
  refine ⟨⟨hordered, fun client => ?_, fun client => (h.fresh client).step hstep⟩, hgrown⟩
  exact ((h.sees client).step List.prefix_rfl hstep).mono fun _ hlist => hlist.trans hgrown

theorem inv_of_reach_lookups
    (h : (lookups setup auth queries chrono).Reach (fun _ e => e.Calm) s) : s.Inv := by
  refine h.invariant (fun s hs => ?_) fun s e s' hs hcalm hstep => (hs.step hcalm hstep).1
  obtain ⟨index, rfl⟩ := hs
  refine ⟨⟨?_, fun _ hpacket => absurd hpacket List.not_mem_nil, fun l hl => by cases hl⟩,
    fun client => ⟨(fun answer hanswer => by cases hanswer),
      fun _ hpacket => absurd hpacket List.not_mem_nil,
      fun _ hpacket => absurd hpacket List.not_mem_nil⟩, fun client _ => ⟨rfl, rfl, .inl rfl⟩⟩
  exact List.pairwise_pair.mpr List.nil_prefix

/-- What a call sees in a run is what has been in the cache at the start of the run, and more. -/
theorem Lookups.Sees.run {cached : List (LapasUserShadow chrono)} (h : s.Inv)
    (hgrown : cached <+: s.daemon.cached) (hsees : s.Sees (cached <+: ·) client)
    {events : List (Lookups.Event ι chrono)} (hcalm : ∀ e ∈ events, e.Calm)
    (hrun : (lookups setup auth queries chrono).run s events = some s') :
    s'.Inv ∧ s'.Sees (cached <+: ·) client := by
  induction events generalizing s with
  | nil =>
    cases hrun
    exact ⟨h, hsees⟩
  | cons e events ih =>
    rw [Machine.run, List.foldlM_cons] at hrun
    obtain ⟨s₁, hstep, hrest⟩ := Option.bind_eq_some_iff.mp hrun
    obtain ⟨h₁, hgrows⟩ := h.step (hcalm e List.mem_cons_self) hstep
    exact ih h₁ (hgrown.trans hgrows) (hsees.step hgrown hstep)
      (fun e' he' => hcalm e' (List.mem_cons_of_mem _ he')) hrest

end

/-! ### What has been found -/

section

variable {users users' : List LapasUserPasswd}

/-- What is found in the beginning of a list is found in the list. -/
theorem find?_of_isPrefix {α : Type} {l l' : List α} (h : l <+: l') {p : α → Bool} {a : α}
    (ha : l.find? p = some a) : l'.find? p = some a := by
  obtain ⟨rest, rfl⟩ := h
  rw [List.find?_append, ha, Option.some_or]

theorem getEntryByName_of_isPrefix (h : users <+: users') {name : String} {entry : Passwd}
    (hentry : getEntryByName (.ok users) name = .success entry) :
    getEntryByName (.ok users') name = .success entry := by
  unfold getEntryByName at hentry ⊢
  dsimp only at hentry ⊢
  split at hentry
  · next user hfind =>
    rw [find?_of_isPrefix h hfind]
    exact hentry
  · cases hentry

theorem getEntryByUid_of_isPrefix (h : users <+: users') {uid : UInt32} {entry : Passwd}
    (hentry : getEntryByUid (.ok users) uid = .success entry) :
    getEntryByUid (.ok users') uid = .success entry := by
  unfold getEntryByUid at hentry ⊢
  dsimp only at hentry ⊢
  split at hentry
  · next user hfind =>
    rw [find?_of_isPrefix h hfind]
    exact hentry
  · cases hentry

/-- A guest that finds a user in its own files, or in an answer, finds them in a later answer. -/
theorem Response.or_value?_mono {α : Type} {response response' : Response α} {own : Option α}
    {a : α}
    (h : ∀ a, response = .success a → response' = .success a)
    (ha : own.or response.value? = some a) : own.or response'.value? = some a := by
  cases own with
  | some b => exact ha
  | none =>
    rw [Option.none_or] at ha ⊢
    cases response with
    | success b => rw [h b rfl]; exact ha
    | notFound | unavail => cases ha

theorem getpwnam_of_isPrefix (h : users <+: users') {files : List Passwd} {name : String}
    {entry : Passwd} (hentry : NameService.getpwnam ⟨files, users⟩ name.toList = some entry) :
    NameService.getpwnam ⟨files, users'⟩ name.toList = some entry := by
  rw [NameService.getpwnam_eq] at hentry ⊢
  exact Response.or_value?_mono (fun _ => getEntryByName_of_isPrefix h) hentry

theorem getpwuid_of_isPrefix (h : users <+: users') {files : List Passwd} {uid : UInt32}
    {entry : Passwd} (hentry : NameService.getpwuid ⟨files, users⟩ uid.toNat = some entry) :
    NameService.getpwuid ⟨files, users'⟩ uid.toNat = some entry := by
  rw [NameService.getpwuid_eq] at hentry ⊢
  exact Response.or_value?_mono (fun _ => getEntryByUid_of_isPrefix h) hentry

theorem getEntryByName_shadow_of_isPrefix {timestamp : chrono.DateTime → ℤ}
    {users users' : List (LapasUserShadow chrono)} (h : users <+: users') {name : String}
    {entry : Shadow}
    (hentry : ShadowHooks.getEntryByName timestamp (.ok users) name = .success entry) :
    ShadowHooks.getEntryByName timestamp (.ok users') name = .success entry := by
  unfold ShadowHooks.getEntryByName at hentry ⊢
  dsimp only at hentry ⊢
  split at hentry
  · next user hfind =>
    rw [find?_of_isPrefix h hfind]
    exact hentry
  · cases hentry

/-- Who is listed has a password. -/
theorem exists_shadow {timestamp : chrono.DateTime → ℤ} {users : List (LapasUserShadow chrono)}
    {name : String} {entry : Passwd}
    (hentry : getEntryByName (.ok (users.map passwdOf)) name = .success entry) :
    ∃ entry', ShadowHooks.getEntryByName timestamp (.ok users) name = .success entry' := by
  have hnames : ((fun user : LapasUserPasswd => decide (user.name = name)) ∘ passwdOf) =
      fun user : LapasUserShadow chrono => decide (user.name = name) := rfl
  unfold getEntryByName at hentry
  dsimp only at hentry
  rw [List.find?_map, hnames] at hentry
  unfold ShadowHooks.getEntryByName
  dsimp only
  cases hfind : users.find? fun user => decide (user.name = name) with
  | none =>
    rw [hfind] at hentry
    cases hentry
  | some user => exact ⟨_, rfl⟩

end

section

variable {s : Lookups ι chrono} {client : ι} {answer answer' : Answer chrono}

/-- What has been in the cache is in the list of the server. -/
theorem Lookups.Inv.cached_prefix (h : s.Inv) : s.daemon.cached <+: s.daemon.index.shadowAll :=
  h.ordered.lists.cached_prefix.trans (List.take_prefix _ _)

/-- Calls list users of the server only. -/
theorem Lookups.Inv.listed (h : s.Inv) (hreturned : s.calls client = .returned answer) :
    Listed s.daemon.index answer := by
  have hseen := (h.sees client).returned answer hreturned
  constructor
  · rintro users rfl
    obtain ⟨list, hlist, rfl⟩ := hseen
    have hmap := (List.IsPrefix.trans hlist h.cached_prefix).map passwdOf
    rwa [UserIndex.shadowAll, List.map_map] at hmap
  · rintro users rfl
    exact List.IsPrefix.trans hseen h.cached_prefix

/-- What has been seen in a list is found in what has been seen in a longer one. -/
theorem persists_of_seen {cached : List (LapasUserShadow chrono)}
    (hanswer : answer.Seen (· <+: cached)) (hlater : answer'.Seen (cached <+: ·))
    (timestamp : chrono.DateTime → ℤ) : Persists timestamp answer answer' := by
  have hpasswd : ∀ users users', answer = .passwd (.ok users) → answer' = .passwd (.ok users') →
      users <+: users' := by
    rintro users users' rfl rfl
    obtain ⟨list, hlist, rfl⟩ := hanswer
    obtain ⟨list', hlist', rfl⟩ := hlater
    exact (List.IsPrefix.trans hlist hlist').map _
  constructor
  · exact fun users users' h h' name entry => getEntryByName_of_isPrefix (hpasswd users users' h h')
  · exact fun users users' h h' uid entry => getEntryByUid_of_isPrefix (hpasswd users users' h h')
  · rintro users users' rfl rfl name entry
    exact getEntryByName_shadow_of_isPrefix (List.IsPrefix.trans hanswer hlater)
  · exact fun users users' h h' files name entry =>
      getpwnam_of_isPrefix (hpasswd users users' h h')
  · exact fun users users' h h' files uid entry =>
      getpwuid_of_isPrefix (hpasswd users users' h h')
  · rintro users users' rfl rfl name entry hentry
    obtain ⟨list, hlist, rfl⟩ := hanswer
    have hlist' : list <+: users' := List.IsPrefix.trans hlist hlater
    exact exists_shadow (getEntryByName_of_isPrefix (hlist'.map _) hentry)

end

section

variable [DecidableEq ι] {setup : Setup κ} {auth : ApiAuth} {queries : ι → Query}
  {s s' : Lookups ι chrono} {client client' : ι} {answer answer' : Answer chrono}

/-- **Lookups persist.**  On a guest whose daemon follows the server, loses its connection, connects
again and misses notifications, with any number of calls of the plugin at a time: what a call
finds, every call that starts after its return finds too, unless this one fails; and all that any
call lists are users of the server.  The timer of the daemon must not cut a packet. -/
theorem persists_of_run (h : (lookups setup auth queries chrono).Reach (fun _ e => e.Calm) s)
    (hreturned : s.calls client = .returned answer) (hnew : s.calls client' = .connecting)
    {events : List (Lookups.Event ι chrono)} (hcalm : ∀ e ∈ events, e.Calm)
    (hrun : (lookups setup auth queries chrono).run s events = some s')
    (hreturned' : s'.calls client' = .returned answer') (timestamp : chrono.DateTime → ℤ) :
    Persists timestamp answer answer' ∧ ∀ other answer,
      s'.calls other = .returned answer → Listed s'.daemon.index answer := by
  have hinv := inv_of_reach_lookups h
  -- the later call has seen nothing yet
  have hsees : s.Sees (s.daemon.cached <+: ·) client' := by
    obtain ⟨-, hdown, hhandler⟩ := hinv.fresh client' hnew
    refine ⟨fun answer heq => ?_, ?_, ?_⟩
    · cases hnew.symm.trans heq
    · rw [hdown]
      exact fun _ hpacket => absurd hpacket List.not_mem_nil
    · rcases hhandler with heq | heq <;> rw [heq] <;>
        exact fun _ hpacket => absurd hpacket List.not_mem_nil
  obtain ⟨hinv', hsees'⟩ := hsees.run hinv List.prefix_rfl hcalm hrun
  exact ⟨persists_of_seen ((hinv.sees client).returned answer hreturned)
    (hsees'.returned answer' hreturned') timestamp, fun _ _ => hinv'.listed⟩

end

/-! ### A name and its password -/

/-- The daemon connects and requests the users. -/
def warmEvents : List (Lookups.Event Bool epoch) :=
  [.connect, .send, .send, .handle, .register, .handle, .list, .respond, .dispatch].map .daemon

/-- A call, from its handshake to its answer. -/
def callEvents (client : Bool) : List (Lookups.Event Bool epoch) :=
  [.send client, .handle client, .respond client true, .receive client, .send client,
    .handle client, .get client, .respond client true, .receive client]

/-- `bob` is listed, and then the passwords are. -/
def bobQueries (client : Bool) : Query := if client then .shadowList (.ok "p") else .passwdList

theorem calm_warmEvents : ∀ e ∈ warmEvents, e.Calm := by
  rintro e he e' rfl rest rfl
  simp [warmEvents] at he

theorem calm_callEvents (client : Bool) : ∀ e ∈ callEvents client, e.Calm := by
  rintro e he e' rfl
  simp [callEvents] at he

theorem persists_of_run_bob : ∃ s' : Lookups Bool epoch,
    s'.calls true = .returned (.shadow (.ok bobIndex.shadowAll)) ∧
    Persists (fun _ => 0) (.passwd (.ok [⟨10000, "bob"⟩])) (.shadow (.ok bobIndex.shadowAll)) ∧
      ∀ other answer, s'.calls other = .returned answer → Listed s'.daemon.index answer := by
  obtain ⟨start, hstart⟩ : ∃ start : Lookups Bool epoch, start =
      ⟨⟨bobIndex, false, [], none, none⟩, fun _ => .accepted, fun _ => .connecting,
        fun _ => [], fun _ => []⟩ := ⟨_, rfl⟩
  obtain ⟨s, hrun, hreturned, hnew, s', hrun', hreturned'⟩ : ∃ s,
      (lookups namesakesSetup (.password "p") bobQueries epoch).run start
        (warmEvents ++ callEvents false) = some s ∧
      s.calls false = .returned (.passwd (.ok [⟨10000, "bob"⟩])) ∧ s.calls true = .connecting ∧
      ∃ s', (lookups namesakesSetup (.password "p") bobQueries epoch).run s (callEvents true) =
          some s' ∧
        s'.calls true = .returned (.shadow (.ok bobIndex.shadowAll)) := by
    subst hstart
    exact ⟨_, rfl, rfl, rfl, _, rfl, rfl⟩
  have hreach := Machine.reach_of_run_forall (.start (show
    (lookups namesakesSetup (.password "p") bobQueries epoch).start start from
      ⟨bobIndex, hstart⟩)) (fun _ e he => (List.mem_append.mp he).elim (calm_warmEvents e)
        (calm_callEvents false e)) hrun
  exact ⟨s', hreturned',
    persists_of_run hreach hreturned hnew (calm_callEvents true) hrun' hreturned' _⟩

end Guest
end Lapas
