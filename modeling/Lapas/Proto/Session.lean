import Lapas.Proto.Protocol

/-!
# Sessions

The server and the daemon's local authentication server treat a connection alike: a
handshake, and then requests, some of which carry an authentication.  A session is where the
task of a connection is, with the history of what it has done.

## Main definitions

* `Handler`, `Action`, `Session` — the task of a connection, and its history.
* `receiveHandshake` — the answer to the first packet.
* `HandshakeFirst`, `ShadowAnswered` — what a history must not contain.
* `Session.Valid` — the invariant of both.

## Main results

* `Session.Valid.receive`, `Session.Valid.deliver`, `Session.Valid.access` — it is kept.
-/

namespace Lapas
namespace Proto

variable {chrono : Chrono}

/-- No vector has more than `usize::MAX` elements. -/
def Vec.ofList {α : Type} (elems : List α) : Vec α where
  elems := elems.take (2 ^ 64 - 1)
  length_lt := Nat.lt_of_le_of_lt (List.length_take_le _ _) (by decide)

/-- The authentication that a packet carries; the requests for everybody and all responses have
none. -/
def LapasProtocol.auth? : LapasProtocol chrono → Option ApiAuth
  | .controlCheckAuth auth => some auth
  | .userRegister auth _ _ => some auth
  | .userDnsMapping auth _ => some auth
  | .shadowGetList auth => some auth
  | _ => none

/-- What is done for a packet, when its authentication has passed or it needs none. -/
inductive Request
  | addUser (newUsername newPassword : String)
  | createUserHostMapping (username : String)
  | passwdAll
  | shadowAll

/-- Where the task of a connection is. -/
inductive Handler (chrono : Chrono)
  /-- It waits for the first packet. -/
  | handshake
  /-- It waits for a request. -/
  | idle
  /-- It sends a packet, and goes on behind it or returns. -/
  | sending (packet : LapasProtocol chrono) (goesOn : Bool)
  /-- `register_event_listener`. -/
  | registering
  | running (request : Request)
  /-- `add_user` has pushed the user. -/
  | writing
  /-- `create_mapping` has created the file, and so many of its bytes are in it. -/
  | mapping (username : String) (written : ℕ)
  /-- It has returned, or panicked. -/
  | stopped

/-- What a task does with its connection, or with the state that it shares with others. -/
inductive Action (chrono : Chrono)
  | recv (packet : LapasProtocol chrono)
  /-- A packet is sent, or an attempt to send it fails. -/
  | send (packet : LapasProtocol chrono) (sent : Bool)
  /-- A step on the state that the connections share. -/
  | access

/-- A connection from the side of the server: where its task is, and what it has done so far. -/
structure Session (chrono : Chrono) where
  handler : Handler chrono
  /-- What the task has done, the latest first. -/
  history : List (Action chrono)

/-- A session whose connection has just been accepted. -/
def Session.accepted : Session chrono := ⟨.handshake, []⟩

/-- The match on the first packet of a session: a handshake of another version gets an error, any
other packet ends the session. -/
def receiveHandshake (versionError : String) : LapasProtocol chrono → Handler chrono
  | .controlHandshake v =>
    if v ≠ version then .sending (.controlHandshakeResponse (.error versionError)) false
    else .sending (.controlHandshakeResponse (.ok ())) true
  | _ => .stopped

section

variable (versionError : String) (dispatch : LapasProtocol chrono → Handler chrono)

/-- A packet arrives, for the handshake or for the dispatch; a task that is busy with another packet
does not read it yet. -/
def Session.receive (s : Session chrono) (packet : LapasProtocol chrono) :
    Option (Session chrono) :=
  match s.handler with
  | .handshake => some ⟨receiveHandshake versionError packet, .recv packet :: s.history⟩
  | .idle => some ⟨dispatch packet, .recv packet :: s.history⟩
  | _ => none

/-- No packet can be received any more. -/
def Session.hangUp (s : Session chrono) : Option (Session chrono) :=
  match s.handler with
  | .handshake | .idle => some { s with handler := .stopped }
  | _ => none

/-- A packet is sent, or its sending fails. -/
def Session.deliver (s : Session chrono) (sent : Bool) : Option (Session chrono) :=
  match s.handler with
  | .sending packet goesOn =>
    some ⟨if sent && goesOn then .idle else .stopped, .send packet sent :: s.history⟩
  | _ => none

/-- A step on the shared state, which the task of the session takes while it works on a request. -/
def Session.access (s : Session chrono) (handler : Handler chrono) : Session chrono :=
  ⟨handler, .access :: s.history⟩

end

/-! ### What a history must not contain -/

/-- The packet that has been received and not been answered. -/
def handling : List (Action chrono) → Option (LapasProtocol chrono)
  | [] => none
  | .recv packet :: _ => some packet
  | .send _ _ :: _ => none
  | .access :: history => handling history

/-- The version of the server has been received in a handshake. -/
def Handshaken (history : List (Action chrono)) : Prop :=
  .recv (.controlHandshake version) ∈ history

/-- In front of the handshake, packets are received, and an error about the version is sent. -/
def HandshakeFirst (versionError : String) (history : List (Action chrono)) : Prop :=
  ∀ action earlier, action :: earlier <:+ history →
    (∃ packet, action = .recv packet) ∨
    (∃ sent, action = .send (.controlHandshakeResponse (.error versionError)) sent) ∨
    Handshaken earlier

/-- Password hashes are sent only as the answer to a packet whose authentication passes. -/
def ShadowAnswered (passes : ApiAuth → Prop) (history : List (Action chrono)) : Prop :=
  ∀ users sent earlier, .send (.shadowGetListResponse (.ok users)) sent :: earlier <:+ history →
    ∃ auth, handling earlier = some (.shadowGetList auth) ∧ passes auth

/-- A packet may start a request: the one that it asks for, and with an authentication that passes
if the request needs one. -/
inductive Grants (passes : ApiAuth → Prop) : LapasProtocol chrono → Request → Prop
  | addUser {auth : ApiAuth} {newUsername newPassword : String} (h : passes auth) :
    Grants passes (.userRegister auth newUsername newPassword)
      (.addUser newUsername newPassword)
  | createUserHostMapping {auth : ApiAuth} {username : String} (h : passes auth) :
    Grants passes (.userDnsMapping auth username) (.createUserHostMapping username)
  | passwdAll : Grants passes .passwdGetList .passwdAll
  | shadowAll {auth : ApiAuth} (h : passes auth) : Grants passes (.shadowGetList auth) .shadowAll

/-- What a task is doing is backed by the packet that it is handling. -/
def Backed (passes : ApiAuth → Prop) (history : List (Action chrono)) : Handler chrono → Prop
  | .running request => ∃ packet, handling history = some packet ∧ Grants passes packet request
  | .writing | .mapping _ _ =>
    ∃ packet auth, handling history = some packet ∧ packet.auth? = some auth ∧ passes auth
  | .sending (.shadowGetListResponse (.ok _)) _ =>
    ∃ auth, handling history = some (.shadowGetList auth) ∧ passes auth
  | _ => True

/-- The task may be in front of the handshake. -/
def Unopened (versionError : String) (handler : Handler chrono) : Prop :=
  handler = .handshake ∨ handler = .stopped ∨
    handler = .sending (.controlHandshakeResponse (.error versionError)) false

/-- What holds of a session in every state: nothing but the handshake comes before the handshake,
and what is answered or done for a request is backed by it and by a password that passes. -/
structure Session.Valid (versionError : String) (passes : ApiAuth → Prop) (s : Session chrono) :
    Prop where
  fresh : s.handler = .handshake → s.history = []
  opened : Unopened versionError s.handler ∨ Handshaken s.history
  backed : Backed passes s.history s.handler
  handshakeFirst : HandshakeFirst versionError s.history
  shadowAnswered : ShadowAnswered passes s.history

section

variable {versionError : String} {passes : ApiAuth → Prop} {s s' : Session chrono}

theorem Session.valid_accepted : (.accepted : Session chrono).Valid versionError passes where
  fresh _ := rfl
  opened := Or.inl (Or.inl rfl)
  backed := trivial
  handshakeFirst action earlier h := by
    have hlen := h.length_le
    cases hlen
  shadowAnswered users sent earlier h := by
    have hlen := h.length_le
    cases hlen

theorem Handshaken.cons {history : List (Action chrono)} (h : Handshaken history)
    (action : Action chrono) : Handshaken (action :: history) := List.mem_cons_of_mem _ h

theorem HandshakeFirst.cons {history : List (Action chrono)}
    (h : HandshakeFirst versionError history) {action : Action chrono}
    (haction : (∃ packet, action = .recv packet) ∨
      (∃ sent, action = .send (.controlHandshakeResponse (.error versionError)) sent) ∨
      Handshaken history) : HandshakeFirst versionError (action :: history) := by
  intro action' earlier hsuffix
  rcases List.suffix_cons_iff.mp hsuffix with heq | hsuffix
  · obtain ⟨rfl, rfl⟩ := List.cons.inj heq
    exact haction
  · exact h action' earlier hsuffix

theorem ShadowAnswered.cons {history : List (Action chrono)} (h : ShadowAnswered passes history)
    {action : Action chrono}
    (haction : ∀ users sent, action = .send (.shadowGetListResponse (.ok users)) sent →
      ∃ auth, handling history = some (.shadowGetList auth) ∧ passes auth) :
    ShadowAnswered passes (action :: history) := by
  intro users sent earlier hsuffix
  rcases List.suffix_cons_iff.mp hsuffix with heq | hsuffix
  · obtain ⟨hsend, rfl⟩ := List.cons.inj heq
    exact haction users sent hsend.symm
  · exact h users sent earlier hsuffix

/-- The list that is read for a packet whose authentication passes is the answer to it. -/
theorem Backed.shadow {history : List (Action chrono)}
    (h : Backed passes history (.running .shadowAll)) {users : Vec (LapasUserShadow chrono)}
    {goesOn : Bool} : Backed passes (.access :: history)
      (.sending (.shadowGetListResponse (.ok users)) goesOn) := by
  obtain ⟨packet, hpacket, hgrants⟩ := h
  cases hgrants with
  | shadowAll hpasses => exact ⟨_, hpacket, hpasses⟩

/-- What can be dispatched to: a packet starts only the request that it grants, and no packet leads
into the middle of one. -/
structure Dispatches (passes : ApiAuth → Prop) (dispatch : LapasProtocol chrono → Handler chrono) :
    Prop where
  handshake : ∀ packet, dispatch packet ≠ .handshake
  running : ∀ packet request, dispatch packet = .running request → Grants passes packet request
  writing : ∀ packet, dispatch packet ≠ .writing
  mapping : ∀ packet username written, dispatch packet ≠ .mapping username written
  shadow : ∀ packet users goesOn,
    dispatch packet ≠ .sending (.shadowGetListResponse (.ok users)) goesOn

theorem Dispatches.backed {dispatch : LapasProtocol chrono → Handler chrono}
    (h : Dispatches passes dispatch) (packet : LapasProtocol chrono)
    (history : List (Action chrono)) :
    Backed passes (.recv packet :: history) (dispatch packet) := by
  cases hdispatch : dispatch packet with
  | handshake => trivial
  | idle => trivial
  | sending reply goesOn =>
    unfold Backed
    split
    · next heq => cases heq
    · next heq => cases heq
    · next heq => cases heq
    · next users _ heq =>
      cases heq
      exact absurd hdispatch (h.shadow packet users goesOn)
    · trivial
  | registering => trivial
  | running request => exact ⟨packet, rfl, h.running packet request hdispatch⟩
  | writing => exact absurd hdispatch (h.writing packet)
  | mapping username written => exact absurd hdispatch (h.mapping packet username written)
  | stopped => trivial

theorem Session.Valid.receive (h : s.Valid versionError passes)
    {dispatch : LapasProtocol chrono → Handler chrono} (hdispatch : Dispatches passes dispatch)
    {packet : LapasProtocol chrono} (hstep : s.receive versionError dispatch packet = some s') :
    s'.Valid versionError passes := by
  have hfirst : HandshakeFirst versionError (.recv packet :: s.history) :=
    h.handshakeFirst.cons (Or.inl ⟨packet, rfl⟩)
  have hshadow : ShadowAnswered passes (.recv packet :: s.history) :=
    h.shadowAnswered.cons (fun users sent hsend => nomatch hsend)
  unfold Session.receive at hstep
  split at hstep
  -- the handshake: only the right version leaves the opening
  · cases hstep
    refine ⟨?_, ?_, ?_, hfirst, hshadow⟩
    · show receiveHandshake versionError packet = .handshake → _
      unfold receiveHandshake
      intro heq
      split at heq
      · split at heq <;> cases heq
      · cases heq
    · show Unopened versionError (receiveHandshake versionError packet) ∨ _
      unfold receiveHandshake
      split
      · next v =>
        split
        · exact Or.inl (Or.inr (Or.inr rfl))
        · next hv =>
          rw [not_not.mp hv]
          exact Or.inr List.mem_cons_self
      · exact Or.inl (Or.inr (Or.inl rfl))
    · show Backed passes _ (receiveHandshake versionError packet)
      unfold receiveHandshake
      split
      · split <;> trivial
      · trivial
  · next hidle =>
    cases hstep
    refine ⟨fun heq => absurd heq (hdispatch.handshake packet), ?_,
      hdispatch.backed packet s.history, hfirst, hshadow⟩
    rcases h.opened with hunopened | hopen
    · rw [hidle] at hunopened
      rcases hunopened with heq | heq | heq <;> cases heq
    · exact Or.inr (hopen.cons _)
  · cases hstep

theorem Session.Valid.hangUp (h : s.Valid versionError passes) (hstep : s.hangUp = some s') :
    s'.Valid versionError passes := by
  have hstopped : s' = { s with handler := .stopped } := by
    unfold Session.hangUp at hstep
    split at hstep
    · exact (Option.some.inj hstep).symm
    · exact (Option.some.inj hstep).symm
    · cases hstep
  subst hstopped
  exact ⟨(fun heq => nomatch heq), Or.inl (Or.inr (Or.inl rfl)), trivial, h.handshakeFirst,
    h.shadowAnswered⟩

theorem Session.Valid.deliver (h : s.Valid versionError passes) {sent : Bool}
    (hstep : s.deliver sent = some s') : s'.Valid versionError passes := by
  unfold Session.deliver at hstep
  split at hstep
  · next packet goesOn hsending =>
    cases hstep
    have hbacked := h.backed
    rw [hsending] at hbacked
    refine ⟨?_, ?_, ?_, h.handshakeFirst.cons ?_, h.shadowAnswered.cons ?_⟩
    · show (if (sent && goesOn) = true then Handler.idle else .stopped) = .handshake → _
      intro heq
      split at heq <;> cases heq
    · rcases h.opened with hunopened | hopen
      · rw [hsending] at hunopened
        rcases hunopened with heq | heq | heq
        · cases heq
        · cases heq
        -- the version error is the last packet that is sent
        · cases heq
          rw [Bool.and_false]
          exact Or.inl (Or.inr (Or.inl rfl))
      · exact Or.inr (hopen.cons _)
    · show Backed passes _ (if (sent && goesOn) = true then .idle else .stopped)
      split <;> trivial
    · rcases h.opened with hunopened | hopen
      · rw [hsending] at hunopened
        rcases hunopened with heq | heq | heq
        · cases heq
        · cases heq
        · cases heq
          exact Or.inr (Or.inl ⟨sent, rfl⟩)
      · exact Or.inr (Or.inr hopen)
    · intro users sent' hsend
      cases hsend
      exact hbacked
  · cases hstep

/-- A step on the shared state is made by a task that has been backed, and leaves a task
that is. -/
theorem Session.Valid.access (h : s.Valid versionError passes)
    (hunopened : ¬ Unopened versionError s.handler) {handler : Handler chrono}
    (hfresh : handler ≠ .handshake)
    (hbacked : Backed passes (.access :: s.history) handler) :
    (s.access handler).Valid versionError passes := by
  have hopen := h.opened.resolve_left hunopened
  exact ⟨fun heq => absurd heq hfresh, Or.inr (hopen.cons _), hbacked,
    h.handshakeFirst.cons (Or.inr (Or.inr hopen)),
    h.shadowAnswered.cons (fun users sent hsend => nomatch hsend)⟩

end

end Proto
end Lapas
