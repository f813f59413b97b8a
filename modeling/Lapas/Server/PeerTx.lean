import Lapas.Library.LockedWriter
import Lapas.Server.ApiServer

/-!
# What a client receives

The task of a connection and the tasks that forward notifications to it write to one stream,
behind the lock of a `PeerTx`.  Here the server of `ApiServer` sends in small steps: a task
takes the lock, writes the bytes of its packet, and gives the lock back.

## Main definitions

* `Sender`, `PeerTx`, `PeerServer`, `peerServer` — the server with the streams of its
  connections.
* `accepts` — the responses that the client takes for a request.
* `requests`, `responses`, `Exchange` — what a session has to answer, and what it has sent.
* `Paired`, `PeerInv` — the invariants of a session, and of its stream.

## Main results

* `SessionStep.paired` — a session answers its requests in turn.
* `stream_paired` — **what a client finds in its stream.**
-/

namespace Lapas
namespace Server

open Proto

variable {chrono : Chrono} {ι : Type}

/-! ### Streams -/

/-- A task that writes to the stream of a connection. -/
inductive Sender
  | handler
  /-- The task that was spawned for the `k`-th registration. -/
  | forwarder (k : ℕ)
  deriving DecidableEq

/-- The sending half of a connection, which the task of the client and the forwarding tasks
share. -/
structure PeerTx (chrono : Chrono) where
  tx : LockedWriter Sender (LapasProtocol chrono) UInt8
  /-- `shutdown` has been called. -/
  closed : Bool

/-- The server, with the sending half of each connection. -/
structure PeerServer (ι : Type) (chrono : Chrono) where
  server : ApiServer ι chrono
  peers : ι → PeerTx chrono

/-- The steps of the server on one connection, where a packet is written in pieces by whoever holds
the lock. -/
inductive PeerServer.Event (chrono : Chrono)
  /-- A step that does not send. -/
  | task (e : ApiServer.Event chrono)
  /-- The task of the connection takes the lock to send its packet. -/
  | lock
  /-- A forwarding task takes the lock to send one of the notifications, or a ping. -/
  | lockForwarder (k : ℕ) (notification : Option ℕ)
  /-- The holder of the lock writes `n` bytes. -/
  | write (n : ℕ)
  /-- The holder has written everything, and `send` returns. -/
  | unlock
  | shutdown

/-- The step sends a packet to the client: the task of the session, a forwarder or the ping does. -/
def ApiServer.Event.sends : ApiServer.Event chrono → Bool
  | .send _ | .forward _ | .ping => true
  | _ => false

section

variable [DecidableEq ι]

/-- The stream of a client has changed. -/
def PeerServer.setTx (s : PeerServer ι chrono) (client : ι)
    (tx : LockedWriter Sender (LapasProtocol chrono) UInt8) : PeerServer ι chrono :=
  { s with peers := Function.update s.peers client { s.peers client with tx } }

theorem PeerServer.peers_setTx_self (s : PeerServer ι chrono) (client : ι)
    (tx : LockedWriter Sender (LapasProtocol chrono) UInt8) :
    (s.setTx client tx).peers client = { s.peers client with tx } := Function.update_self ..

theorem PeerServer.peers_setTx_of_ne {s : PeerServer ι chrono} {client other : ι}
    (h : other ≠ client) {tx : LockedWriter Sender (LapasProtocol chrono) UInt8} :
    (s.setTx client tx).peers other = s.peers other := Function.update_of_ne h ..

/-- What a forwarding task sends: a notification, or a ping. -/
def ApiServer.notification (server : ApiServer ι chrono) :
    Option ℕ → Option (LapasProtocol chrono)
  | none => some .controlPing
  | some i => server.notified[i]?

/-- The task that holds the lock goes on. -/
def PeerServer.sendReturns (setup : Setup ι) (s : PeerServer ι chrono) (client : ι) :
    Option (ApiServer ι chrono) :=
  match (s.peers client).tx.holder with
  | some (.handler, _, _) => s.server.step setup client (.send true)
  | some (.forwarder _, packet, _) => s.server.forward client packet
  | none => none

/-- One step for a client.  What is sent takes the lock first, and the lock is released when the
last byte has been written. -/
def PeerServer.step (setup : Setup ι) (s : PeerServer ι chrono) (client : ι) :
    PeerServer.Event chrono → Option (PeerServer ι chrono)
  | .task e =>
    if e.sends then none
    else (s.server.step setup client e).map fun server => { s with server }
  | .lock =>
    match (s.server.sessions client).handler with
    | .sending packet _ =>
      if (s.peers client).closed then none
      else ((s.peers client).tx.lock encoded .handler packet).map (s.setTx client)
    | _ => none
  | .lockForwarder k notification =>
    if (s.peers client).closed ∨ s.server.listeners.count client ≤ k then none
    else (s.server.notification notification).bind fun packet =>
      ((s.peers client).tx.lock encoded (.forwarder k) packet).map (s.setTx client)
  | .write n => ((s.peers client).tx.write n).map (s.setTx client)
  | .unlock => (s.peers client).tx.unlock.bind fun tx =>
    (s.sendReturns setup client).map fun server => { s.setTx client tx with server }
  | .shutdown =>
    match (s.server.sessions client).handler, (s.peers client).tx.holder with
    | .stopped, none =>
      some { s with peers := Function.update s.peers client { s.peers client with closed := true } }
    | _, _ => none

/-- A server to which no client is connected. -/
def peerServer (setup : Setup ι) (chrono : Chrono) :
    Machine (PeerServer ι chrono) (ι × PeerServer.Event chrono) where
  start s := (apiServer setup chrono).start s.server ∧ s.peers = fun _ => ⟨.new, false⟩
  step s := fun (client, e) => s.step setup client e

end

/-! ### Requests and responses -/

/-- A packet that `handle_client` responds to with a packet of its own kind of response. -/
def isRequest : LapasProtocol chrono → Bool
  | .controlCheckAuth _ | .userRegister _ _ _ | .userDnsMapping _ _ | .passwdGetList
  | .shadowGetList _ => true
  | _ => false

/-- The response that `perform_request!` takes for a request; the one to `ShadowGetList` is
matched in the same way where the list is fetched. -/
def accepts : LapasProtocol chrono → LapasProtocol chrono → Bool
  | .controlCheckAuth _, .controlCheckAuthResponse _ => true
  | .userRegister _ _ _, .userRegisterResponse _ => true
  | .userDnsMapping _ _, .userDnsMappingResponse _ => true
  | .passwdGetList, .passwdGetListResponse _ => true
  | .shadowGetList _, .shadowGetListResponse _ => true
  | _, _ => false

/-- The requests that have been received, the earliest first. -/
def requests (history : List (Action chrono)) : List (LapasProtocol chrono) :=
  history.reverse.filterMap fun
    | .recv packet => if isRequest packet then some packet else none
    | _ => none

/-- The packets that have been sent, the earliest first. -/
def responses (history : List (Action chrono)) : List (LapasProtocol chrono) :=
  history.reverse.filterMap fun
    | .send packet true => some packet
    | _ => none

section

variable {history : List (Action chrono)} {packet : LapasProtocol chrono}

theorem requests_recv : requests (.recv packet :: history) =
    requests history ++ if isRequest packet then [packet] else [] := by
  rw [requests, List.reverse_cons, List.filterMap_append]
  cases h : isRequest packet <;> simp [requests, h]

@[simp] theorem requests_send {sent : Bool} :
    requests (.send packet sent :: history) = requests history := by
  rw [requests, List.reverse_cons, List.filterMap_append]
  exact List.append_nil _

@[simp] theorem requests_access : requests (.access :: history) = requests history := by
  rw [requests, List.reverse_cons, List.filterMap_append]
  exact List.append_nil _

@[simp] theorem responses_recv : responses (.recv packet :: history) = responses history := by
  rw [responses, List.reverse_cons, List.filterMap_append]
  exact List.append_nil _

@[simp] theorem responses_access : responses (.access :: history) = responses history := by
  rw [responses, List.reverse_cons, List.filterMap_append]
  exact List.append_nil _

theorem responses_send {sent : Bool} : responses (.send packet sent :: history) =
    responses history ++ if sent then [packet] else [] := by
  rw [responses, List.reverse_cons, List.filterMap_append]
  cases sent <;> rfl

end

/-- The task has a response to a request on its way, or has returned without it. -/
inductive Owes : Handler chrono → LapasProtocol chrono → Prop
  | sending {request response : LapasProtocol chrono} {goesOn : Bool}
    (h : accepts request response = true) : Owes (.sending response goesOn) request
  | addUser {auth : ApiAuth} {username password newUsername newPassword : String} :
    Owes (.running (.addUser username password)) (.userRegister auth newUsername newPassword)
  | writing {auth : ApiAuth} {newUsername newPassword : String} :
    Owes .writing (.userRegister auth newUsername newPassword)
  | createUserHostMapping {auth : ApiAuth} {username newUsername : String} :
    Owes (.running (.createUserHostMapping username)) (.userDnsMapping auth newUsername)
  | mapping {auth : ApiAuth} {username newUsername : String} {written : ℕ} :
    Owes (.mapping username written) (.userDnsMapping auth newUsername)
  | passwdAll : Owes (.running .passwdAll) .passwdGetList
  | shadowAll {auth : ApiAuth} : Owes (.running .shadowAll) (.shadowGetList auth)
  | stopped {request : LapasProtocol chrono} : Owes .stopped request

/-- The task owes no response: it waits for a packet, registers the client, or has stopped. -/
def Rests (handler : Handler chrono) : Prop :=
  handler = .idle ∨ handler = .registering ∨ handler = .stopped

/-- The task has not sent a packet yet. -/
def Preparing (session : Session chrono) : Prop :=
  session.handler = .handshake ∧ session.history = [] ∨ session.handler = .stopped ∨
    ((∃ e, session.handler = .sending (.controlHandshakeResponse (.error e)) false) ∨
        session.handler = .sending (.controlHandshakeResponse (.ok ())) true) ∧
      requests session.history = []

/-- Behind the handshake, the requests are answered in turn. -/
def Answering (session : Session chrono) (answers : List (LapasProtocol chrono)) : Prop :=
  Rests session.handler ∧
      List.Forall₂ (fun request response => accepts request response = true)
        (requests session.history) answers ∨
    ∃ earlier request, requests session.history = earlier ++ [request] ∧
      List.Forall₂ (fun request response => accepts request response = true) earlier answers ∧
      Owes session.handler request

/-- What a session has sent: nothing yet, the refusal of the handshake, or its acceptance and one
response for each request so far. -/
def Paired (session : Session chrono) : Prop :=
  responses session.history = [] ∧ Preparing session ∨
    (∃ e, responses session.history = [.controlHandshakeResponse (.error e)] ∧
      session.handler = .stopped ∧ requests session.history = []) ∨
    ∃ answers, responses session.history = .controlHandshakeResponse (.ok ()) :: answers ∧
      Answering session answers

section

variable {setup : Setup ι} {session session' : Session chrono}

theorem owes_handleRequest {α : Type} {authWith : Option ApiAuth}
    {responsePkt : Except String α → LapasProtocol chrono} {resultExpr : Handler chrono}
    {request : LapasProtocol chrono}
    (hfailure : accepts request (responsePkt (.error "Authentication failed")) = true)
    (hexpr : Owes resultExpr request) :
    Owes (handleRequest setup authWith responsePkt resultExpr) request := by
  rcases handleRequest_eq (rfl : handleRequest setup authWith responsePkt resultExpr = _) with
    h | h | ⟨h, -⟩
  · rw [h]
    exact .stopped
  · rw [h]
    exact .sending hfailure
  · rw [h]
    exact hexpr

/-- What the task does with a packet behind the handshake. -/
theorem handleClient_owes (packet : LapasProtocol chrono) :
    isRequest packet = true ∧ Owes (handleClient setup packet) packet ∨
      isRequest packet = false ∧ Rests (handleClient setup packet) := by
  cases packet with
  | controlCheckAuth auth =>
    rw [handleClient]
    exact Or.inl ⟨rfl, owes_handleRequest rfl (.sending rfl)⟩
  | userRegister auth newUsername newPassword =>
    rw [handleClient]
    exact Or.inl ⟨rfl, owes_handleRequest rfl .addUser⟩
  | userDnsMapping auth username =>
    rw [handleClient]
    exact Or.inl ⟨rfl, owes_handleRequest rfl .createUserHostMapping⟩
  | passwdGetList =>
    rw [handleClient]
    exact Or.inl ⟨rfl, owes_handleRequest rfl .passwdAll⟩
  | shadowGetList auth =>
    rw [handleClient]
    exact Or.inl ⟨rfl, owes_handleRequest rfl .shadowAll⟩
  | controlListenEvents => exact Or.inr ⟨rfl, Or.inr (Or.inl rfl)⟩
  | _ => exact Or.inr ⟨rfl, Or.inl rfl⟩

theorem Owes.works {handler handler' : Handler chrono} {request : LapasProtocol chrono}
    (howes : Owes handler request) (h : Works handler handler') : Owes handler' request := by
  cases h <;> cases howes <;> first | exact .sending rfl | constructor

/-- What a session has sent when it waits for a request. -/
theorem Paired.idle (h : Paired session) (hidle : session.handler = .idle) :
    ∃ answers, responses session.history = .controlHandshakeResponse (.ok ()) :: answers ∧
      List.Forall₂ (fun request response => accepts request response = true)
        (requests session.history) answers := by
  rcases h with ⟨-, hpreparing⟩ | ⟨e, -, hstopped, -⟩ |
    ⟨answers, hresponses, ⟨-, hpaired⟩ | hpending⟩
  · rw [Preparing, hidle] at hpreparing
    rcases hpreparing with ⟨heq, -⟩ | heq | ⟨⟨e, heq⟩ | heq, -⟩ <;> cases heq
  · cases hidle.symm.trans hstopped
  · exact ⟨answers, hresponses, hpaired⟩
  · obtain ⟨earlier, request, -, -, howes⟩ := hpending
    rw [hidle] at howes
    cases howes

/-- A session that waits for the handshake is new. -/
theorem Paired.handshake (h : Paired session) (hhandshake : session.handler = .handshake) :
    session.history = [] := by
  rcases h with ⟨-, hpreparing⟩ | ⟨e, -, hstopped, -⟩ | ⟨answers, -, ⟨hrests, -⟩ | hpending⟩
  · rw [Preparing, hhandshake] at hpreparing
    rcases hpreparing with ⟨-, hnew⟩ | heq | ⟨⟨e, heq⟩ | heq, -⟩
    · exact hnew
    · cases heq
    · cases heq
    · cases heq
  · cases hhandshake.symm.trans hstopped
  · rw [hhandshake] at hrests
    rcases hrests with heq | heq | heq <;> cases heq
  · obtain ⟨earlier, request, -, -, howes⟩ := hpending
    rw [hhandshake] at howes
    cases howes

theorem preparing_receiveHandshake (packet : LapasProtocol chrono) :
    Preparing ⟨receiveHandshake "Incompatible Protocol Version" packet, [.recv packet]⟩ := by
  unfold receiveHandshake
  split
  · split
    · exact Or.inr (Or.inr ⟨Or.inl ⟨_, rfl⟩, rfl⟩)
    · exact Or.inr (Or.inr ⟨Or.inr rfl, rfl⟩)
  · exact Or.inr (Or.inl rfl)

/-- A packet is received. -/
theorem Paired.receive (h : Paired session) {packet : LapasProtocol chrono}
    (hstep : session.receive "Incompatible Protocol Version" (handleClient setup) packet =
      some session') : Paired session' := by
  unfold Session.receive at hstep
  split at hstep
  · next hhandshake =>
    cases hstep
    rw [h.handshake hhandshake]
    exact Or.inl ⟨rfl, preparing_receiveHandshake packet⟩
  · next hidle =>
    cases hstep
    obtain ⟨answers, hresponses, hpaired⟩ := h.idle hidle
    refine Or.inr (Or.inr ⟨answers, by rwa [responses_recv], ?_⟩)
    rcases @handleClient_owes _ _ setup packet with ⟨hrequest, howes⟩ | ⟨hignored, hrests⟩
    · refine Or.inr ⟨requests session.history, packet, ?_, hpaired, howes⟩
      rw [requests_recv, if_pos hrequest]
    · refine Or.inl ⟨hrests, ?_⟩
      rwa [requests_recv, hignored, if_neg Bool.false_ne_true, List.append_nil]
  · cases hstep

theorem Paired.hangUp (h : Paired session) (hstep : session.hangUp = some session') :
    Paired session' := by
  unfold Session.hangUp at hstep
  split at hstep
  · next hhandshake =>
    cases hstep
    refine Or.inl ⟨?_, Or.inr (Or.inl rfl)⟩
    rw [h.handshake hhandshake]
    rfl
  · next hidle =>
    cases hstep
    obtain ⟨answers, hresponses, hpaired⟩ := h.idle hidle
    exact Or.inr (Or.inr ⟨answers, hresponses, Or.inl ⟨Or.inr (Or.inr rfl), hpaired⟩⟩)
  · cases hstep

/-- A packet is sent, and is the answer to the last request. -/
theorem Paired.deliver (h : Paired session) {sent : Bool}
    (hstep : session.deliver sent = some session') : Paired session' := by
  unfold Session.deliver at hstep
  split at hstep
  · next packet goesOn hsending =>
    cases hstep
    rcases h with ⟨hnone, hpreparing⟩ | ⟨e, -, hstopped, -⟩ | ⟨answers, hresponses, hanswering⟩
    · -- in front of the first request a session sends its handshake only
      rw [Preparing, hsending] at hpreparing
      cases sent with
      | false =>
        refine Or.inl ⟨?_, Or.inr (Or.inl rfl)⟩
        rw [responses_send, hnone]
        rfl
      | true =>
        have hsent : responses (.send packet true :: session.history) = [packet] := by
          rw [responses_send, hnone]
          rfl
        rcases hpreparing with ⟨heq, -⟩ | heq | ⟨⟨e, heq⟩ | heq, hrequests⟩
        · cases heq
        · cases heq
        · cases heq
          exact Or.inr (Or.inl ⟨e, hsent, rfl, by rw [requests_send, hrequests]⟩)
        · cases heq
          refine Or.inr (Or.inr ⟨[], hsent, Or.inl ⟨Or.inl rfl, ?_⟩⟩)
          rw [requests_send, hrequests]
          exact .nil
    · cases hsending.symm.trans hstopped
    · rw [Answering, hsending] at hanswering
      rcases hanswering with ⟨heq | heq | heq, -⟩ | ⟨earlier, request, hrequests, hpaired, howes⟩
      · cases heq
      · cases heq
      · cases heq
      · -- the packet answers the latest request
        cases howes with
        | sending haccepts =>
          cases sent with
          | false =>
            refine Or.inr (Or.inr ⟨answers, ?_, Or.inr ⟨earlier, request, ?_, hpaired, .stopped⟩⟩)
            · rw [responses_send, hresponses]
              exact List.append_nil _
            · rw [requests_send, hrequests]
          | true =>
            refine Or.inr (Or.inr ⟨answers ++ [packet], ?_, Or.inl ⟨?_, ?_⟩⟩)
            · rw [responses_send, hresponses]
              rfl
            · cases goesOn with
              | true => exact Or.inl rfl
              | false => exact Or.inr (Or.inr rfl)
            · rw [requests_send, hrequests]
              exact List.rel_append hpaired (.cons haccepts .nil)
  · cases hstep

theorem Paired.access (h : Paired session) {handler : Handler chrono}
    (hworks : Works session.handler handler) : Paired (session.access handler) := by
  rcases h with ⟨-, hpreparing⟩ | ⟨e, -, hstopped, -⟩ | ⟨answers, hresponses, hanswering⟩
  · generalize hold : session.handler = old at hworks
    rw [Preparing, hold] at hpreparing
    rcases hpreparing with ⟨rfl, -⟩ | rfl | ⟨⟨e, rfl⟩ | rfl, -⟩ <;> cases hworks
  · rw [hstopped] at hworks
    cases hworks
  · refine Or.inr (Or.inr ⟨answers, by rwa [Session.access, responses_access], ?_⟩)
    rcases hanswering with ⟨hrests, hpaired⟩ | ⟨earlier, request, hrequests, hpaired, howes⟩
    · generalize session.handler = old at hrests hworks
      refine Or.inl ⟨?_, by rwa [Session.access, requests_access]⟩
      rcases hrests with rfl | rfl | rfl
      · cases hworks
      · cases hworks
        exact Or.inl rfl
      · cases hworks
    · exact Or.inr ⟨earlier, request, by rwa [Session.access, requests_access], hpaired,
        howes.works hworks⟩

theorem SessionStep.paired (hstep : SessionStep setup session session') (h : Paired session) :
    Paired session' := by
  cases hstep with
  | receive hstep => exact h.receive hstep
  | hangUp hstep => exact h.hangUp hstep
  | deliver hstep => exact h.deliver hstep
  | access hworks => exact h.access hworks

/-- The first requests are answered, each with a response that the client takes for it, and
at most the last one is not. -/
def Exchange (requests answers : List (LapasProtocol chrono)) : Prop :=
  List.Forall₂ (fun request response => accepts request response = true)
      (requests.take answers.length) answers ∧
    requests.length ≤ answers.length + 1

theorem Exchange.of_forall {requests answers : List (LapasProtocol chrono)}
    (h : List.Forall₂ (fun request response => accepts request response = true) requests answers)
    (more : List (LapasProtocol chrono)) (hmore : more.length ≤ 1) :
    Exchange (requests ++ more) answers := by
  rw [Exchange, ← h.length_eq, List.take_left, List.length_append]
  exact ⟨h, Nat.add_le_add_left hmore _⟩

/-- What a session has sent: the answer to the handshake, and then those to the requests. -/
theorem Paired.sent (h : Paired session) : responses session.history = [] ∨
    ∃ result answers, responses session.history = .controlHandshakeResponse result :: answers ∧
      Exchange (requests session.history) answers := by
  rcases h with ⟨hnone, -⟩ | ⟨e, hsent, -, hrequests⟩ | ⟨answers, hsent, hanswering⟩
  · exact Or.inl hnone
  · refine Or.inr ⟨_, [], hsent, ?_⟩
    rw [hrequests]
    exact .of_forall .nil [] (Nat.zero_le 1)
  · refine Or.inr ⟨_, answers, hsent, ?_⟩
    rcases hanswering with ⟨-, hpaired⟩ | ⟨earlier, request, hrequests, hpaired, -⟩
    · rw [← List.append_nil (requests session.history)]
      exact .of_forall hpaired [] (Nat.zero_le 1)
    · rw [hrequests]
      exact .of_forall hpaired [request] (Nat.le_refl 1)

/-- The packet that is being sent is the next answer. -/
theorem Paired.sending (h : Paired session) {packet : LapasProtocol chrono} {goesOn : Bool}
    (hsending : session.handler = .sending packet goesOn) :
    ∃ result answers,
      responses session.history ++ [packet] = .controlHandshakeResponse result :: answers ∧
      Exchange (requests session.history) answers := by
  rcases h with ⟨hnone, hpreparing⟩ | ⟨e, -, hstopped, -⟩ | ⟨answers, hsent, hanswering⟩
  · rw [Preparing, hsending] at hpreparing
    have hexchange : Exchange ([] : List (LapasProtocol chrono)) [] :=
      .of_forall .nil [] (Nat.zero_le 1)
    rcases hpreparing with ⟨heq, -⟩ | heq | ⟨⟨e, heq⟩ | heq, hrequests⟩
    · cases heq
    · cases heq
    · cases heq
      exact ⟨_, [], by rw [hnone]; rfl, by rwa [hrequests]⟩
    · cases heq
      exact ⟨_, [], by rw [hnone]; rfl, by rwa [hrequests]⟩
  · cases hsending.symm.trans hstopped
  · rw [Answering, hsending] at hanswering
    rcases hanswering with ⟨heq | heq | heq, -⟩ | ⟨earlier, request, hrequests, hpaired, howes⟩
    · cases heq
    · cases heq
    · cases heq
    · cases howes with
      | sending haccepts =>
        refine ⟨_, answers ++ [packet], by rw [hsent]; rfl, ?_⟩
        rw [hrequests, ← List.append_nil (earlier ++ [request])]
        exact .of_forall (List.rel_append hpaired (.cons haccepts .nil)) [] (Nat.zero_le 1)

/-! ### Listeners -/

/-- The client has asked for notifications at some point, after which a forwarder may write to
it. -/
def Listened (history : List (Action chrono)) : Prop := .recv .controlListenEvents ∈ history

theorem eq_listenEvents {packet : LapasProtocol chrono}
    (h : handleClient setup packet = .registering) : packet = .controlListenEvents := by
  rcases @handleClient_owes _ _ setup packet with ⟨-, howes⟩ | ⟨hignored, -⟩
  · rw [h] at howes
    cases howes
  · cases packet with
    | controlListenEvents => rfl
    | controlCheckAuth _ | userRegister _ _ _ | userDnsMapping _ _ | passwdGetList
    | shadowGetList _ => cases hignored
    | _ => cases h

theorem SessionStep.history_suffix (h : SessionStep setup session session') :
    session.history <:+ session'.history := by
  cases h with
  | receive h =>
    unfold Session.receive at h
    split at h
    · cases h
      exact List.suffix_cons _ _
    · cases h
      exact List.suffix_cons _ _
    · cases h
  | hangUp h =>
    unfold Session.hangUp at h
    split at h
    · cases h
      exact List.suffix_rfl
    · cases h
      exact List.suffix_rfl
    · cases h
  | deliver h =>
    unfold Session.deliver at h
    split at h
    · cases h
      exact List.suffix_cons _ _
    · cases h
  | access => exact List.suffix_cons _ _

/-- A task that registers its client has been asked to. -/
theorem SessionStep.listened (h : SessionStep setup session session')
    (hregistering : session'.handler = .registering) : Listened session'.history := by
  cases h with
  | @receive packet _ h =>
    unfold Session.receive at h
    split at h
    · cases h
      have hpreparing := @preparing_receiveHandshake chrono packet
      rw [Preparing, hregistering] at hpreparing
      rcases hpreparing with ⟨heq, -⟩ | heq | ⟨⟨e, heq⟩ | heq, -⟩ <;> cases heq
    · cases h
      rw [eq_listenEvents hregistering]
      exact List.mem_cons_self
    · cases h
  | hangUp h =>
    unfold Session.hangUp at h
    split at h <;> cases h <;> cases hregistering
  | @deliver sent _ h =>
    unfold Session.deliver at h
    split at h
    · next packet goesOn _ =>
      cases h
      cases sent <;> cases goesOn <;> cases hregistering
    · cases h
  | @access handler h =>
    have hhandler : handler = .registering := hregistering
    subst hhandler
    generalize session.handler = old at h
    cases h

/-- A task that is not sending sends nothing. -/
theorem SessionStep.responses_eq (h : SessionStep setup session session')
    (hquiet : ∀ packet goesOn, session.handler ≠ .sending packet goesOn) :
    responses session'.history = responses session.history := by
  cases h with
  | receive h =>
    unfold Session.receive at h
    split at h
    · cases h
      exact responses_recv
    · cases h
      exact responses_recv
    · cases h
  | hangUp h =>
    unfold Session.hangUp at h
    split at h <;> cases h <;> rfl
  | deliver h =>
    unfold Session.deliver at h
    split at h
    · next hsending => exact absurd hsending (hquiet _ _)
    · cases h
  | access => exact responses_access

end

/-! ### One connection -/

/-- What the tasks of one kind have written. -/
def sentBy (kind : Sender → Bool) (sent : List (Sender × LapasProtocol chrono)) :
    List (LapasProtocol chrono) :=
  (sent.filter fun e => kind e.1).map Prod.snd

/-- Whether the packet is one of the task that handles the client. -/
def Sender.isHandler : Sender → Bool
  | .handler => true
  | .forwarder _ => false

/-- Whether the packet is one of a forwarding task. -/
def Sender.isForwarder : Sender → Bool
  | .handler => false
  | .forwarder _ => true

theorem sentBy_append (kind : Sender → Bool) (sent sent' : List (Sender × LapasProtocol chrono)) :
    sentBy kind (sent ++ sent') = sentBy kind sent ++ sentBy kind sent' := by
  rw [sentBy, List.filter_append, List.map_append]
  rfl

/-- A session, the stream of its connection, and what has been forwarded to it. -/
structure PeerInv (session : Session chrono) (tx : LockedWriter Sender (LapasProtocol chrono) UInt8)
    (forwarded : List (LapasProtocol chrono)) : Prop where
  paired : Paired session
  whole : tx.Whole encoded
  /-- The packets of the stream are those that the tasks have sent. -/
  handler_sent : sentBy Sender.isHandler tx.finished = responses session.history
  forwarder_sent : sentBy Sender.isForwarder tx.finished = forwarded
  holds : ∀ packet rest, tx.holder = some (.handler, packet, rest) →
    ∃ goesOn, session.handler = .sending packet goesOn
  forwards : ∀ k packet, (Sender.forwarder k, packet) ∈ tx.packets →
    Listened session.history ∧ Notification packet
  registering : session.handler = .registering → Listened session.history

section

variable {setup : Setup ι} {session session' : Session chrono}
  {tx tx' : LockedWriter Sender (LapasProtocol chrono) UInt8}
  {forwarded : List (LapasProtocol chrono)}

theorem PeerInv.accepted : PeerInv (.accepted : Session chrono) .new [] where
  paired := Or.inl ⟨rfl, Or.inl ⟨rfl, rfl⟩⟩
  whole := LockedWriter.whole_new
  handler_sent := rfl
  forwarder_sent := rfl
  holds := nofun
  forwards := nofun
  registering := nofun

theorem Listened.mono {history history' : List (Action chrono)} (h : Listened history)
    (hsuffix : history <:+ history') : Listened history' := hsuffix.subset h

/-- The task of the connection does something other than sending. -/
theorem PeerInv.task (h : PeerInv session tx forwarded) (hstep : SessionStep setup session session')
    (hquiet : ∀ packet goesOn, session.handler ≠ .sending packet goesOn) :
    PeerInv session' tx forwarded where
  paired := hstep.paired h.paired
  whole := h.whole
  handler_sent := by rw [hstep.responses_eq hquiet, h.handler_sent]
  forwarder_sent := h.forwarder_sent
  holds packet rest hholder := by
    obtain ⟨goesOn, hsending⟩ := h.holds packet rest hholder
    exact absurd hsending (hquiet packet goesOn)
  forwards k packet hpacket :=
    (h.forwards k packet hpacket).imp_left fun hlistened => hlistened.mono hstep.history_suffix
  registering := hstep.listened

theorem PeerInv.lock (h : PeerInv session tx forwarded) {packet : LapasProtocol chrono}
    {goesOn : Bool} (hsending : session.handler = .sending packet goesOn)
    (hlock : tx.lock encoded .handler packet = some tx') : PeerInv session tx' forwarded := by
  have hpackets := LockedWriter.packets_lock hlock
  have hwhole := h.whole.lock hlock
  obtain ⟨-, rfl⟩ := LockedWriter.lock_eq_some hlock
  refine ⟨h.paired, hwhole, h.handler_sent, h.forwarder_sent, ?_, ?_, h.registering⟩
  · rintro _ _ hholder
    cases hholder
    exact ⟨goesOn, hsending⟩
  · intro k packet' hpacket
    rw [hpackets] at hpacket
    rcases List.mem_append.mp hpacket with hpacket | hpacket
    · exact h.forwards k packet' hpacket
    · cases List.mem_singleton.mp hpacket

theorem PeerInv.lockForwarder (h : PeerInv session tx forwarded) {k : ℕ}
    {packet : LapasProtocol chrono} (hlistened : Listened session.history)
    (hnotification : Notification packet)
    (hlock : tx.lock encoded (.forwarder k) packet = some tx') : PeerInv session tx' forwarded := by
  have hpackets := LockedWriter.packets_lock hlock
  have hwhole := h.whole.lock hlock
  obtain ⟨-, rfl⟩ := LockedWriter.lock_eq_some hlock
  refine ⟨h.paired, hwhole, h.handler_sent, h.forwarder_sent, nofun, ?_, h.registering⟩
  intro k' packet' hpacket
  rw [hpackets] at hpacket
  rcases List.mem_append.mp hpacket with hpacket | hpacket
  · exact h.forwards k' packet' hpacket
  · cases List.mem_singleton.mp hpacket
    exact ⟨hlistened, hnotification⟩

theorem PeerInv.write (h : PeerInv session tx forwarded) {n : ℕ} (hwrite : tx.write n = some tx') :
    PeerInv session tx' forwarded := by
  have hpackets := LockedWriter.packets_write hwrite
  have hwhole := h.whole.write hwrite
  obtain ⟨sender, packet, rest, hholder, rfl⟩ := LockedWriter.write_eq_some hwrite
  refine ⟨h.paired, hwhole, h.handler_sent, h.forwarder_sent, ?_, ?_, h.registering⟩
  · rintro _ _ heq
    cases heq
    exact h.holds packet rest hholder
  · rw [hpackets]
    exact h.forwards

/-- A packet of the task of the connection is complete. -/
theorem PeerInv.unlock (h : PeerInv session tx forwarded) {packet : LapasProtocol chrono}
    {rest : List UInt8} (hholder : tx.holder = some (.handler, packet, rest))
    (hunlock : tx.unlock = some tx') (hdeliver : session.deliver true = some session') :
    PeerInv session' tx' forwarded := by
  have hpackets := LockedWriter.packets_unlock hunlock
  have hwhole := h.whole.unlock hunlock
  have hpaired := h.paired.deliver hdeliver
  obtain ⟨sender, packet', hholder', rfl⟩ := LockedWriter.unlock_eq_some hunlock
  cases hholder.symm.trans hholder'
  obtain ⟨goesOn, hsending⟩ := h.holds packet [] hholder
  rw [Session.deliver, hsending] at hdeliver
  cases hdeliver
  refine ⟨hpaired, hwhole, ?_, ?_, nofun, ?_, ?_⟩
  · rw [sentBy_append, h.handler_sent, responses_send]
    rfl
  · rw [sentBy_append, h.forwarder_sent]
    exact List.append_nil _
  · rw [hpackets]
    exact fun k packet hpacket => (h.forwards k packet hpacket).imp_left fun hlistened =>
      hlistened.mono (List.suffix_cons _ _)
  · intro hregistering
    cases goesOn <;> cases hregistering

/-- A packet that is forwarded is complete. -/
theorem PeerInv.unlockForwarder (h : PeerInv session tx forwarded) {k : ℕ}
    {packet : LapasProtocol chrono} {rest : List UInt8}
    (hholder : tx.holder = some (.forwarder k, packet, rest)) (hunlock : tx.unlock = some tx') :
    PeerInv session tx' (forwarded ++ [packet]) := by
  have hpackets := LockedWriter.packets_unlock hunlock
  have hwhole := h.whole.unlock hunlock
  obtain ⟨sender, packet', hholder', rfl⟩ := LockedWriter.unlock_eq_some hunlock
  cases hholder.symm.trans hholder'
  refine ⟨h.paired, hwhole, ?_, ?_, nofun, ?_, h.registering⟩
  · rw [sentBy_append, h.handler_sent]
    exact List.append_nil _
  · rw [sentBy_append, h.forwarder_sent]
    rfl
  · rw [hpackets]
    exact h.forwards

end

/-! ### Whole runs -/

section

variable [DecidableEq ι] {setup : Setup ι}

/-- What the forwarding tasks of a client have sent, the earliest first. -/
def ApiServer.forwardedTo (s : ApiServer ι chrono) (client : ι) : List (LapasProtocol chrono) :=
  (s.forwarded.reverse.filter fun e => e.1 = client).map Prod.snd

/-- What holds in every state: the bytes of each connection are those of its packets, the forwarders
only send notifications, and they belong to clients that have asked for them. -/
structure PeerServer.Inv (s : PeerServer ι chrono) : Prop where
  peer : ∀ client, PeerInv (s.server.sessions client) (s.peers client).tx
    (s.server.forwardedTo client)
  notified : ∀ packet ∈ s.server.notified, Notification packet
  listeners : ∀ client ∈ s.server.listeners, Listened (s.server.sessions client).history

variable {s s' : PeerServer ι chrono} {client : ι}

theorem PeerServer.inv_start (h : (peerServer setup chrono).start s) : s.Inv := by
  obtain ⟨⟨index, hosts, hserver⟩, hpeers⟩ := h
  obtain ⟨server, peers⟩ := s
  cases hserver
  cases hpeers
  exact ⟨fun _ => .accepted, nofun, nofun⟩

/-- A task that is sending does nothing else. -/
theorem ApiServer.step_of_sending {server : ApiServer ι chrono} {packet : LapasProtocol chrono}
    {goesOn : Bool} (hsending : (server.sessions client).handler = .sending packet goesOn)
    {e : ApiServer.Event chrono} (hquiet : e.sends = false) :
    server.step setup client e = none := by
  cases e with
  | send _ => cases hquiet
  | forward _ => cases hquiet
  | ping => cases hquiet
  | recv _ => simp [ApiServer.step, Session.receive, hsending]
  | hangUp => simp [ApiServer.step, Session.hangUp, hsending]
  | _ => simp [ApiServer.step, hsending]

/-- The stream of one client has changed. -/
theorem PeerServer.Inv.update (h : s.Inv) {peer : PeerTx chrono}
    (hpeer : PeerInv (s.server.sessions client) peer.tx (s.server.forwardedTo client)) :
    ({ s with peers := Function.update s.peers client peer } : PeerServer ι chrono).Inv := by
  refine ⟨fun other => ?_, h.notified, h.listeners⟩
  show PeerInv (s.server.sessions other) (Function.update s.peers client peer other).tx
    (s.server.forwardedTo other)
  by_cases heq : other = client
  · rw [heq, Function.update_self]
    exact hpeer
  · rw [Function.update_of_ne heq]
    exact h.peer other

theorem Moves.listened {server server' : ApiServer ι chrono} {other : ι}
    (h : Moves setup server client server') (hlistened : Listened (server.sessions other).history) :
    Listened (server'.sessions other).history := by
  obtain ⟨session, hsession, hsessions⟩ := h.session
  rw [hsessions]
  by_cases heq : other = client
  · rw [heq] at hlistened ⊢
    rw [Function.update_self]
    exact hlistened.mono hsession.history_suffix
  · rwa [Function.update_of_ne heq]

/-- A task has done something other than sending. -/
theorem PeerServer.Inv.task (h : s.Inv) {e : ApiServer.Event chrono} (hquiet : e.sends = false)
    {server : ApiServer ι chrono} (hserver : s.server.step setup client e = some server) :
    ({ s with server } : PeerServer ι chrono).Inv := by
  have hsending : ∀ packet goesOn, (s.server.sessions client).handler ≠ .sending packet goesOn := by
    intro packet goesOn hsending
    rw [ApiServer.step_of_sending hsending hquiet] at hserver
    cases hserver
  have hmoves : Moves setup s.server client server := by
    refine moves_of_task ?_ ?_ hserver
    · rintro i rfl
      cases hquiet
    · rintro rfl
      cases hquiet
  obtain ⟨session, hsession, hsessions⟩ := hmoves.session
  have hforwarded : ∀ other, server.forwardedTo other = s.server.forwardedTo other := by
    intro other
    rw [ApiServer.forwardedTo, ApiServer.forwardedTo, hmoves.forwarded]
  refine ⟨fun other => ?_, fun packet hpacket => ?_, fun other hother => ?_⟩
  · show PeerInv (server.sessions other) (s.peers other).tx (server.forwardedTo other)
    rw [hforwarded, hsessions]
    by_cases heq : other = client
    · rw [heq, Function.update_self]
      exact (h.peer client).task hsession hsending
    · rw [Function.update_of_ne heq]
      exact h.peer other
  · exact (hmoves.notified packet hpacket).elim (h.notified packet) Or.inr
  · refine hmoves.listened ?_
    rcases hmoves.listeners other hother with hold | ⟨rfl, hregistering⟩
    · exact h.listeners other hold
    · exact (h.peer other).registering hregistering

/-- A packet has been sent. -/
theorem PeerServer.Inv.unlock (h : s.Inv) {tx : LockedWriter Sender (LapasProtocol chrono) UInt8}
    (htx : (s.peers client).tx.unlock = some tx) {server : ApiServer ι chrono}
    (hserver : s.sendReturns setup client = some server) :
    ({ s.setTx client tx with server } : PeerServer ι chrono).Inv := by
  rw [PeerServer.sendReturns] at hserver
  split at hserver
  · next packet rest hholder =>
    -- the task of the client has sent its packet
    obtain ⟨session, hdeliver, rfl⟩ := Option.map_eq_some_iff.mp hserver
    have hsession : SessionStep setup (s.server.sessions client) session := .deliver hdeliver
    refine ⟨fun other => ?_, h.notified, fun other hother => ?_⟩
    · show PeerInv (Function.update s.server.sessions client session other)
        ((s.setTx client tx).peers other).tx (s.server.forwardedTo other)
      by_cases heq : other = client
      · rw [heq, Function.update_self, PeerServer.peers_setTx_self]
        exact (h.peer client).unlock hholder htx hdeliver
      · rw [Function.update_of_ne heq, PeerServer.peers_setTx_of_ne heq]
        exact h.peer other
    · show Listened (Function.update s.server.sessions client session other).history
      by_cases heq : other = client
      · rw [heq] at hother ⊢
        rw [Function.update_self]
        exact (h.listeners client hother).mono hsession.history_suffix
      · rw [Function.update_of_ne heq]
        exact h.listeners other hother
  · next k packet rest hholder =>
    -- a forwarding task has sent one more notification
    rw [ApiServer.forward] at hserver
    split at hserver
    · cases hserver
      refine ⟨fun other => ?_, h.notified, h.listeners⟩
      by_cases heq : other = client
      · subst heq
        have hforwarded : ApiServer.forwardedTo
            { s.server with forwarded := (other, packet) :: s.server.forwarded } other =
              s.server.forwardedTo other ++ [packet] := by
          simp [ApiServer.forwardedTo]
        rw [hforwarded]
        show PeerInv (s.server.sessions other) ((s.setTx other tx).peers other).tx _
        rw [PeerServer.peers_setTx_self]
        exact (h.peer other).unlockForwarder hholder htx
      · have hforwarded : ApiServer.forwardedTo
            { s.server with forwarded := (client, packet) :: s.server.forwarded } other =
              s.server.forwardedTo other := by
          simp [ApiServer.forwardedTo, Ne.symm heq]
        rw [hforwarded]
        show PeerInv (s.server.sessions other) ((s.setTx client tx).peers other).tx _
        rw [PeerServer.peers_setTx_of_ne heq]
        exact h.peer other
    · cases hserver
  · cases hserver

theorem PeerServer.Inv.step (h : s.Inv) {e : PeerServer.Event chrono}
    (hstep : s.step setup client e = some s') : s'.Inv := by
  cases e with
  | task e =>
    rw [PeerServer.step] at hstep
    split at hstep
    · cases hstep
    · next hquiet =>
      obtain ⟨server, hserver, rfl⟩ := Option.map_eq_some_iff.mp hstep
      exact h.task (Bool.not_eq_true _ ▸ hquiet) hserver
  | lock =>
    rw [PeerServer.step] at hstep
    split at hstep
    · next packet goesOn hsending =>
      split at hstep
      · cases hstep
      · obtain ⟨tx, htx, rfl⟩ := Option.map_eq_some_iff.mp hstep
        exact h.update ((h.peer client).lock hsending htx)
    · cases hstep
  | lockForwarder k notification =>
    rw [PeerServer.step] at hstep
    split at hstep
    · cases hstep
    · next hopen =>
      -- who forwards has been asked to, and has a notification or a ping
      obtain ⟨packet, hpacket, hrest⟩ := Option.bind_eq_some_iff.mp hstep
      obtain ⟨tx, htx, rfl⟩ := Option.map_eq_some_iff.mp hrest
      have hcount : 0 < s.server.listeners.count client := by
        rw [not_or, Nat.not_le] at hopen
        exact Nat.zero_lt_of_lt hopen.2
      have hnotification : Notification packet := by
        cases notification with
        | none =>
          cases hpacket
          exact Or.inl rfl
        | some i => exact h.notified packet (List.mem_of_getElem? hpacket)
      exact h.update ((h.peer client).lockForwarder
        (h.listeners client (List.count_pos_iff.mp hcount)) hnotification htx)
  | write n =>
    obtain ⟨tx, htx, rfl⟩ := Option.map_eq_some_iff.mp hstep
    exact h.update ((h.peer client).write htx)
  | unlock =>
    obtain ⟨tx, htx, hrest⟩ := Option.bind_eq_some_iff.mp hstep
    obtain ⟨server, hserver, rfl⟩ := Option.map_eq_some_iff.mp hrest
    exact h.unlock htx hserver
  | shutdown =>
    rw [PeerServer.step] at hstep
    split at hstep
    · cases hstep
      exact h.update (h.peer client)
    · cases hstep

theorem PeerServer.inv_of_reach (h : (peerServer setup chrono).Reach (fun _ _ => True) s) :
    s.Inv :=
  h.invariant (fun _ hstart => PeerServer.inv_start hstart)
    fun _ _ _ hinv _ hstep => hinv.step hstep

/-- **What a client finds in its stream**, at any point of any run: whole encodings, and the
beginning of the one that is being written; in turn, the packets that the task of its
connection has sent and those that have been forwarded, each of them once; the answer to its
handshake and then, for its requests in order, responses that it takes for them; and nothing
else if it has not asked for notifications. -/
theorem stream_paired (h : (peerServer setup chrono).Reach (fun _ _ => True) s) (client : ι) :
    let tx := (s.peers client).tx
    let history := (s.server.sessions client).history
    (∃ begun, tx.out = tx.finished.flatMap (fun e => encoded e.2) ++ begun ∧
      begun <+: tx.current.flatMap fun e => encoded e.2) ∧
    (sentBy Sender.isHandler tx.finished = responses history ∧
      sentBy Sender.isForwarder tx.finished = s.server.forwardedTo client) ∧
    (sentBy Sender.isHandler tx.packets = [] ∨
      ∃ result answers, sentBy Sender.isHandler tx.packets =
          .controlHandshakeResponse result :: answers ∧ Exchange (requests history) answers) ∧
    (¬ Listened history → ∀ e ∈ tx.packets, e.1 = .handler) := by
  intro tx history
  have hpeer := (PeerServer.inv_of_reach h).peer client
  refine ⟨hpeer.whole.out_eq, ⟨hpeer.handler_sent, hpeer.forwarder_sent⟩, ?_, ?_⟩
  · rw [LockedWriter.packets, sentBy_append, hpeer.handler_sent, LockedWriter.current]
    split
    · rw [show sentBy Sender.isHandler ([] : List (Sender × LapasProtocol chrono)) = [] from rfl,
        List.append_nil]
      exact hpeer.paired.sent
    · next sender packet rest hholder =>
      cases sender with
      | handler =>
        obtain ⟨goesOn, hsending⟩ := hpeer.holds packet rest hholder
        exact Or.inr (hpeer.paired.sending hsending)
      | forwarder k =>
        have hnone : sentBy Sender.isHandler [(Sender.forwarder k, packet)] = [] := rfl
        rw [hnone, List.append_nil]
        exact hpeer.paired.sent
  · rintro hlistened ⟨sender, packet⟩ hpacket
    cases sender with
    | handler => rfl
    | forwarder k => exact absurd (hpeer.forwards k packet hpacket).1 hlistened

end

/-- A server without a configuration, on which lists can be requested. -/
def plainSetup : Setup Unit where
  config _ := none
  sha512 _ := []
  sha512Crypt _ _ := ""
  dnsDomain := ""
  hostsDir := ""
  ip _ := ""

/-- A client registers for notifications and asks for the list of users.  While the list is read,
a ping is forwarded to it; so far it has five bytes of the list. -/
theorem stream_paired_list : ∃ s : PeerServer Unit epoch,
    (peerServer plainSetup epoch).Reach (fun _ _ => True) s ∧
    s.server.forwardedTo () = [.controlPing] ∧
    ∃ begun, (s.peers ()).tx.out =
        encoded (.controlHandshakeResponse (.ok ()) : LapasProtocol epoch) ++
          encoded (.controlPing : LapasProtocol epoch) ++ begun ∧
      begun <+: encoded (.passwdGetListResponse (.ok (.ofList [])) : LapasProtocol epoch) := by
  let start : PeerServer Unit epoch :=
    ⟨⟨.default, fun _ => none, none, none, [], [], fun _ => .accepted, []⟩, fun _ => ⟨.new, false⟩⟩
  let events : List (Unit × PeerServer.Event epoch) :=
    [.task (.recv (.controlHandshake version)), .lock, .write 3, .write 100, .unlock,
      .task (.recv .controlListenEvents), .task .listen, .task (.recv .passwdGetList),
      .lockForwarder 0 none, .task .list, .write 100, .unlock, .lock, .write 5].map fun e => ((), e)
  obtain ⟨s, hrun, hfinished, hcurrent⟩ : ∃ s,
      (peerServer plainSetup epoch).run start events = some s ∧
      (s.peers ()).tx.finished =
        [(.handler, .controlHandshakeResponse (.ok ())), (.forwarder 0, .controlPing)] ∧
      (s.peers ()).tx.current = [(.handler, .passwdGetListResponse (.ok (.ofList [])))] :=
    ⟨_, rfl, rfl, rfl⟩
  have hstart : (peerServer plainSetup epoch).start start := ⟨⟨_, _, rfl⟩, rfl⟩
  have hreach := Machine.reach_of_run (.start hstart) hrun
  obtain ⟨⟨begun, hout, hbegun⟩, ⟨-, hforwarded⟩, -⟩ := stream_paired hreach ()
  rw [hfinished, List.flatMap_cons, List.flatMap_singleton] at hout
  rw [hcurrent, List.flatMap_singleton] at hbegun
  rw [hfinished] at hforwarded
  exact ⟨s, hreach, hforwarded.symm, begun, hout, hbegun⟩

end Server
end Lapas
