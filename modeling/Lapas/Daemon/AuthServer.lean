import Lapas.Server.ApiServer

/-!
# The local authentication server

The daemon answers requests for the user lists on a socket of its machine, from the lists
that it has received.  A connection is for one request.

## Main definitions

* `handleLocalAuthClient` — the match on the request.
* `AuthServer`, `localAuthServer` — the cache and the sessions.

## Main results

* `inv_of_reach_localAuthServer` — the sessions keep their invariant.
* `authorisation` — **who may do what, at both servers.**
-/

namespace Lapas
namespace Daemon

open Proto Server

variable {chrono : Chrono} {ι : Type}

/-- The match of `handle_local_auth_client` on the request; `auth` is the daemon's own. -/
def handleLocalAuthClient (auth : ApiAuth) : LapasProtocol chrono → Handler chrono
  | .passwdGetList => .running .passwdAll
  | .shadowGetList isAuth =>
    match isAuth, auth with
    | .password authIs, .password authShould =>
      if authIs = authShould then .running .shadowAll else .stopped
  | _ => .stopped

/-- The server of the daemon for the programs of its guest, which answers out of the cache. -/
structure AuthServer (ι : Type) (chrono : Chrono) where
  userCache : Option (Vec (LapasUserShadow chrono))
  sessions : ι → Session chrono

/-- The steps of the local server for one client, and the update of the cache by the daemon. -/
inductive AuthServer.Event (ι : Type) (chrono : Chrono)
  | recv (client : ι) (packet : LapasProtocol chrono)
  | hangUp (client : ι)
  | send (client : ι) (sent : Bool)
  /-- `UserCache::get`, with a list or after five seconds. -/
  | get (client : ι)
  /-- `UserCache::set`, by the daemon. -/
  | set (users : Vec (LapasUserShadow chrono))

/-- `UserCache::get`: a copy of the cached list, which is empty as long as the daemon has not got
one from the server. -/
def AuthServer.users (s : AuthServer ι chrono) : Vec (LapasUserShadow chrono) :=
  s.userCache.getD (.ofList [])

section

variable [DecidableEq ι]

/-- The server with another session for the client. -/
def AuthServer.setSession (s : AuthServer ι chrono) (client : ι) (session : Session chrono) :
    AuthServer ι chrono :=
  { s with sessions := Function.update s.sessions client session }

/-- One step.  A list is what the cache holds at the moment when it is read, and empty as long as
there is none. -/
def AuthServer.step (auth : ApiAuth) (s : AuthServer ι chrono) :
    AuthServer.Event ι chrono → Option (AuthServer ι chrono)
  | .recv client packet =>
    ((s.sessions client).receive "AuthServ: Incompatible Protocol Version"
      (handleLocalAuthClient auth) packet).map (s.setSession client)
  | .hangUp client => (s.sessions client).hangUp.map (s.setSession client)
  | .send client sent => ((s.sessions client).deliver sent).map (s.setSession client)
  | .get client =>
    match (s.sessions client).handler with
    | .running .passwdAll =>
      let userList := s.users.elems.map fun u => { id := u.id, name := u.name }
      some (s.setSession client ((s.sessions client).access
        (.sending (.passwdGetListResponse (.ok (.ofList userList))) false)))
    | .running .shadowAll =>
      some (s.setSession client ((s.sessions client).access
        (.sending (.shadowGetListResponse (.ok s.users)) false)))
    | _ => none
  | .set users => some { s with userCache := some users }

/-- A daemon that has just been started. -/
def localAuthServer (auth : ApiAuth) (ι : Type) [DecidableEq ι] (chrono : Chrono) :
    Machine (AuthServer ι chrono) (AuthServer.Event ι chrono) where
  start s := s = ⟨none, fun _ => .accepted⟩
  step := AuthServer.step auth

end

/-! ### The sessions -/

section

variable {auth : ApiAuth}

theorem handleLocalAuthClient_cases (packet : LapasProtocol chrono) {handler : Handler chrono}
    (h : handleLocalAuthClient auth packet = handler) :
    handler = .stopped ∨
      ∃ request, handler = .running request ∧ Grants (· = auth) packet request := by
  cases packet with
  | passwdGetList => exact Or.inr ⟨_, h.symm, .passwdAll⟩
  | shadowGetList isAuth =>
    obtain ⟨authIs⟩ := isAuth
    obtain ⟨authShould⟩ := auth
    rw [handleLocalAuthClient] at h
    split at h
    · next heq => exact Or.inr ⟨_, h.symm, .shadowAll (congrArg ApiAuth.password heq)⟩
    · exact Or.inl h.symm
  | _ => exact Or.inl h.symm

theorem dispatches_handleLocalAuthClient :
    Dispatches (· = auth) (handleLocalAuthClient auth : LapasProtocol chrono → Handler chrono) := by
  constructor
  · intro packet h
    rcases handleLocalAuthClient_cases packet h with h | ⟨_, h, -⟩ <;> cases h
  · intro packet request h
    rcases handleLocalAuthClient_cases packet h with h | ⟨_, h, hgrants⟩
    · cases h
    · cases h
      exact hgrants
  · intro packet h
    rcases handleLocalAuthClient_cases packet h with h | ⟨_, h, -⟩ <;> cases h
  · intro packet username written h
    rcases handleLocalAuthClient_cases packet h with h | ⟨_, h, -⟩ <;> cases h
  · intro packet users goesOn h
    rcases handleLocalAuthClient_cases packet h with h | ⟨_, h, -⟩ <;> cases h

variable [DecidableEq ι] {s s' : AuthServer ι chrono}

theorem AuthServer.valid_setSession {versionError : String} {passes : ApiAuth → Prop}
    (h : ∀ client, (s.sessions client).Valid versionError passes) {client : ι}
    {session : Session chrono} (hsession : session.Valid versionError passes) (other : ι) :
    ((s.setSession client session).sessions other).Valid versionError passes := by
  show (Function.update s.sessions client session other).Valid versionError passes
  by_cases heq : other = client
  · rw [heq, Function.update_self]
    exact hsession
  · rw [Function.update_of_ne heq]
    exact h other

theorem AuthServer.valid_step
    (h : ∀ client, (s.sessions client).Valid "AuthServ: Incompatible Protocol Version" (· = auth))
    {e : AuthServer.Event ι chrono} (hstep : s.step auth e = some s') (other : ι) :
    (s'.sessions other).Valid "AuthServ: Incompatible Protocol Version" (· = auth) := by
  cases e with
  | recv client packet =>
    obtain ⟨session, hsession, rfl⟩ := Option.map_eq_some_iff.mp hstep
    exact valid_setSession h
      ((h client).receive dispatches_handleLocalAuthClient hsession) other
  | hangUp client =>
    obtain ⟨session, hsession, rfl⟩ := Option.map_eq_some_iff.mp hstep
    exact valid_setSession h ((h client).hangUp hsession) other
  | send client sent =>
    obtain ⟨session, hsession, rfl⟩ := Option.map_eq_some_iff.mp hstep
    exact valid_setSession h ((h client).deliver hsession) other
  | get client =>
    have hbacked := (h client).backed
    unfold AuthServer.step at hstep
    dsimp only at hstep
    split at hstep
    · next hhandler =>
      cases hstep
      refine valid_setSession h ((h client).access ?_ ?_ ?_) other
      · rw [hhandler]
        rintro (heq | heq | heq) <;> cases heq
      · exact fun heq => nomatch heq
      · trivial
    · next hhandler =>
      cases hstep
      refine valid_setSession h ((h client).access ?_ ?_ ?_) other
      · rw [hhandler]
        rintro (heq | heq | heq) <;> cases heq
      · exact fun heq => nomatch heq
      · rw [hhandler] at hbacked
        exact hbacked.shadow
    · cases hstep
  -- `UserCache::set` is called by the daemon, not by the task of a client
  | set users =>
    cases hstep
    exact h other

theorem inv_of_reach_localAuthServer
    (h : (localAuthServer auth ι chrono).Reach (fun _ _ => True) s) (client : ι) :
    (s.sessions client).Valid "AuthServ: Incompatible Protocol Version" (· = auth) := by
  revert client
  refine h.invariant (fun s hs => ?_) fun s e s' hs _ hstep => AuthServer.valid_step hs hstep
  rw [hs]
  exact fun _ => Session.valid_accepted

end

/-! ### Authorisation -/

/-- **Authorisation.**  In every run of the server, with any configuration and any number of
clients: in front of the handshake, a client can only make its task send the version error,
and no state changes; users and host mappings change for packets whose authentication
passes; password hashes are the answer to such packets; and a packet whose authentication
fails is answered with one failure, with which its task ends.  The local authentication
server keeps the first and the third of these, with its own password. -/
theorem authorisation [DecidableEq ι] :
    (∀ (setup : Setup ι) (s : ApiServer ι chrono),
      (apiServer setup chrono).Reach (fun _ _ => True) s →
      ((∀ client, HandshakeFirst "Incompatible Protocol Version" (s.sessions client).history) ∧
        (∀ client e s', s.step setup client e = some s' →
          ¬ Handshaken (s.sessions client).history →
          ∃ session, s' = s.setSession client session) ∧
        ∀ client packet, (client, packet) ∈ s.forwarded →
          Handshaken (s.sessions client).history ∧ Notification packet) ∧
      (∀ client e s', s.step setup client e = some s' →
        s'.index ≠ s.index ∨ s'.hosts ≠ s.hosts →
        ∃ packet auth, handling (s.sessions client).history = some packet ∧
          packet.auth? = some auth ∧ Passes setup auth) ∧
      (∀ client, ShadowAnswered (Passes setup) (s.sessions client).history) ∧
      ∀ client, Closed setup (s.sessions client)) ∧
    ∀ (auth : ApiAuth) (s : AuthServer ι chrono),
      (localAuthServer auth ι chrono).Reach (fun _ _ => True) s → ∀ client,
      HandshakeFirst "AuthServ: Incompatible Protocol Version" (s.sessions client).history ∧
      ShadowAnswered (· = auth) (s.sessions client).history := by
  constructor
  · intro setup s hreach
    have hinv := inv_of_reach_apiServer hreach
    refine ⟨⟨fun client => (hinv.valid client).handshakeFirst, fun client e s' hstep hunopened =>
      hinv.setSession hstep hunopened, hinv.forwarded⟩, fun client e s' hstep hchanged =>
      hinv.exists_passed hstep hchanged, fun client => (hinv.valid client).shadowAnswered,
      hinv.closed⟩
  · intro auth s hreach client
    have hvalid := inv_of_reach_localAuthServer hreach client
    exact ⟨hvalid.handshakeFirst, hvalid.shadowAnswered⟩

/-! ### A wrong password -/

/-- The SHA-512 hash of `pepperwrong`, so that the run with a refused password can be computed
without the function. -/
def wrongHash : List UInt8 :=
  [67, 251, 71, 24, 205, 204, 234, 92, 41, 43, 73, 71, 140, 105, 238, 37, 167, 171, 241, 144,
   245, 240, 99, 136, 233, 132, 190, 11, 28, 72, 13, 189, 162, 99, 1, 218, 132, 191, 14, 193,
   84, 181, 233, 140, 176, 129, 51, 127, 89, 185, 209, 115, 117, 6, 69, 165, 191, 28, 178, 3,
   99, 166, 22, 191]

/-- The SHA-512 hash of `peppersecret`, so that the run with the right password can be computed
without the function. -/
def secretHash : List UInt8 :=
  [12, 237, 21, 39, 199, 194, 73, 215, 121, 251, 59, 110, 61, 5, 79, 50, 65, 149, 27, 7, 124,
   251, 66, 152, 139, 103, 76, 17, 202, 75, 3, 143, 160, 160, 69, 156, 38, 202, 162, 80, 124,
   35, 64, 29, 162, 114, 252, 11, 32, 227, 251, 204, 250, 184, 125, 61, 49, 242, 124, 237, 29,
   112, 100, 55]

/-- The salt is `pepper`, and the password is `secret`. -/
def secretSetup : Setup Unit where
  config
    | "LAPAS_PASSWORD_SALT" => some "pepper"
    | "LAPAS_PASSWORD_HASH" =>
      some ("0ced1527c7c249d779fb3b6e3d054f3241951b077cfb42988b674c11ca4b038f" ++
        "a0a0459c26caa2507c23401da272fc0b20e3fbccfab87d3d31f27ced1d706437")
    | _ => none
  sha512 bytes := if bytes = utf8Bytes "pepperwrong" then wrongHash else secretHash
  sha512Crypt := bobCrypt
  dnsDomain := "lapas"
  hostsDir := "/etc/lapas/dns"
  ip _ := "192.168.0.2"

theorem checkAuth_wrong : checkAuth secretSetup (.password "wrong") = some false := by
  decide +kernel

theorem checkAuth_secret : checkAuth secretSetup (.password "secret") = some true := by
  decide +kernel

theorem exists_recv {s : ApiServer Unit epoch} {packet : LapasProtocol epoch}
    {session : Session epoch}
    (h : (apiServer secretSetup epoch).Reach (fun _ _ => True) s)
    (hsession : (s.sessions ()).receive "Incompatible Protocol Version"
      (handleClient secretSetup) packet = some session) :
    ∃ s', (apiServer secretSetup epoch).Reach (fun _ _ => True) s' ∧ s'.sessions () = session := by
  refine ⟨s.setSession () session, .step h (e := ((), .recv packet)) trivial ?_,
    s.sessions_setSession () session⟩
  show Option.map _ _ = _
  rw [hsession]
  rfl

theorem exists_send {s : ApiServer Unit epoch} {session : Session epoch}
    (h : (apiServer secretSetup epoch).Reach (fun _ _ => True) s)
    (hsession : (s.sessions ()).deliver true = some session) :
    ∃ s', (apiServer secretSetup epoch).Reach (fun _ _ => True) s' ∧ s'.sessions () = session := by
  refine ⟨s.setSession () session, .step h (e := ((), .send true)) trivial ?_,
    s.sessions_setSession () session⟩
  show Option.map _ _ = _
  rw [hsession]
  rfl

/-- The list is requested with the password `wrong`. -/
theorem authorisation_wrong : ∃ s : ApiServer Unit epoch,
    (apiServer secretSetup epoch).Reach (fun _ _ => True) s ∧
    (s.sessions ()).history =
      [.send (.shadowGetListResponse (.error "Authentication failed")) true,
        .recv (.shadowGetList (.password "wrong")),
        .send (.controlHandshakeResponse (.ok ())) true, .recv (.controlHandshake version)] ∧
    (s.sessions ()).handler = .stopped := by
  obtain ⟨start, hstart⟩ : ∃ start : ApiServer Unit epoch,
      start = ⟨.default, fun _ => none, none, none, [], [], fun _ => .accepted, []⟩ := ⟨_, rfl⟩
  let failure : LapasProtocol epoch := .shadowGetListResponse (.error "Authentication failed")
  let opened : List (Action epoch) :=
    [.send (.controlHandshakeResponse (.ok ())) true, .recv (.controlHandshake version)]
  have hrun : ∃ s, (apiServer secretSetup epoch).Reach (fun _ _ => True) s ∧
      s.sessions () = ⟨.stopped, .send failure true :: .recv (.shadowGetList (.password "wrong")) ::
        opened⟩ := by
    have hfirst : (start.sessions ()).receive "Incompatible Protocol Version"
        (handleClient secretSetup) (.controlHandshake version) =
        some ⟨.sending (.controlHandshakeResponse (.ok ())) true,
          [.recv (.controlHandshake version)]⟩ := by
      rw [hstart]
      rfl
    obtain ⟨s₁, hs₁, hsession₁⟩ := exists_recv (.start ⟨_, _, hstart⟩) hfirst
    obtain ⟨s₂, hs₂, hsession₂⟩ := exists_send hs₁
      (show (s₁.sessions ()).deliver true = some ⟨.idle, opened⟩ by
        rw [hsession₁]
        rfl)
    have hrequest : (s₂.sessions ()).receive "Incompatible Protocol Version"
        (handleClient secretSetup) (.shadowGetList (.password "wrong")) =
        some ⟨.sending failure false, .recv (.shadowGetList (.password "wrong")) :: opened⟩ := by
      rw [hsession₂]
      simp only [Session.receive, handleClient, handleRequest, checkAuth_wrong, failure]
    obtain ⟨s₃, hs₃, hsession₃⟩ := exists_recv hs₂ hrequest
    exact exists_send hs₃ (by
      rw [hsession₃]
      rfl)
  obtain ⟨s, hreach, hsession⟩ := hrun
  have hclosed := ((@authorisation epoch Unit _).1 secretSetup s hreach).2.2.2 ()
  refine ⟨s, hreach, by rw [hsession], ?_⟩
  obtain ⟨response, -, ⟨hlater, -⟩ | ⟨sent, -, hstopped⟩⟩ :=
    hclosed [.send failure true] (.shadowGetList (.password "wrong")) (.password "wrong") opened
      (by rw [hsession]; rfl) (List.mem_cons_of_mem _ List.mem_cons_self) rfl checkAuth_wrong
  · cases hlater
  · exact hstopped

end Daemon
end Lapas
