import Lapas.Library.Transition
import Lapas.Proto.Protocol

/-!
# The framing of the daemon's connection

`run_daemon` waits in a `select!` for the next packet and for a timer.  When the timer wins,
the `decode` that was going on is dropped, and the bytes it has read are gone: the next
`decode` starts where this one has stopped.  As long as the timer wins only between two
packets, what is dispatched is what has been sent.

## Main definitions

* `Connection`, `Event`, `daemon` — the server's stream and the loop that reads it.
* `TimerBetweenPackets` — the timer wins only when no byte of a packet has been read.
* `Synchronized` — the loop is at the border of a packet, or within one that it is reading.

## Main results

* `synchronized_step` — the steps keep the loop synchronized.
* `dispatched_prefix_sent` — **in such runs the dispatched packets are a prefix of the sent ones.**
* `not_dispatched_prefix_sent` — in others they are not.
-/

namespace Lapas
namespace Daemon

open Proto

variable {chrono : Chrono}

/-- The stream from the server to the daemon. -/
structure Connection (chrono : Chrono) where
  /-- The packets that the server has encoded. -/
  sent : List (LapasProtocol chrono)
  /-- Their bytes that have not arrived. -/
  wire : List UInt8
  /-- The bytes that have arrived and have not been read. -/
  socket : List UInt8
  /-- What is left of the current `decode`. -/
  decoding : Reader String (LapasProtocol chrono)
  /-- What the current `decode` has read. -/
  taken : List UInt8
  /-- The packets that the loop has matched on. -/
  dispatched : List (LapasProtocol chrono)
  /-- `run_daemon` has not returned. -/
  running : Bool

/-- The steps of the connection between the server and the daemon, with the two branches of
`select!`. -/
inductive Event (chrono : Chrono)
  /-- The server encodes a packet. -/
  | send (packet : {v : LapasProtocol chrono // Fits chrono v})
  /-- The next `n` bytes arrive. -/
  | arrive (n : ℕ)
  /-- The connection is closed, and `decode` fails with an `IOError`. -/
  | closed
  /-- `decode` is polled; a request that is made of the packet is sent or not. -/
  | poll (requestSent : Bool)
  /-- The timer wins; the ping is sent or not. -/
  | timer (pingSent : Bool)

/-- Whether the loop goes on behind a packet. -/
def goesOn (requestSent : Bool) : LapasProtocol chrono → Bool
  | .notifyUsersChanged => requestSent
  | .shadowGetListResponse (.error _) => false
  | _ => true

/-- One step of the server, the network and the loop. -/
def Connection.step (s : Connection chrono) : Event chrono → Option (Connection chrono)
  | .send packet =>
    some { s with sent := s.sent ++ [packet.1], wire := s.wire ++ encoded packet.1 }
  | .arrive n =>
    if n ≤ s.wire.length then
      some { s with socket := s.socket ++ s.wire.take n, wire := s.wire.drop n }
    else none
  | .closed => if s.running then some { s with running := false } else none
  | .poll requestSent =>
    if s.running then
      match s.decoding.resume s.socket with
      | (.pure packet, rest) =>
        some { s with
          socket := rest, decoding := decode, taken := []
          dispatched := s.dispatched ++ [packet], running := goesOn requestSent packet }
      | (.fail _, rest) => some { s with socket := rest, running := false }
      | (.exact n next, rest) =>
        some { s with socket := rest, decoding := .exact n next, taken := s.taken ++ s.socket }
    else none
  | .timer pingSent =>
    -- the dropped `decode` takes with it what it has read
    if s.running then some { s with decoding := decode, taken := [], running := pingSent }
    else none

/-- The daemon that reads one connection, from its beginning. -/
def daemon (chrono : Chrono) : Machine (Connection chrono) (Event chrono) where
  start s := s = ⟨[], [], [], decode, [], [], true⟩
  step := Connection.step

/-- The timer wins only when no byte of a packet has been read. -/
def TimerBetweenPackets (s : Connection chrono) (e : Event chrono) : Prop :=
  ∀ pingSent, e = .timer pingSent → s.taken = []

/-! ### Staying synchronized -/

/-- The loop is at the border of a packet, or within one that it is reading. -/
structure Synchronized (s : Connection chrono) : Prop where
  /-- What has been read of the current packet, what has arrived and what is still to come
  are the bytes of the packets that have not been dispatched. -/
  stream : ∃ pending : List (LapasProtocol chrono), s.sent = s.dispatched ++ pending ∧
    (∀ v ∈ pending, Fits chrono v) ∧
    s.taken ++ (s.socket ++ s.wire) = pending.flatMap encoded
  decoding_eq : (decode : Reader String (LapasProtocol chrono)).resume s.taken = (s.decoding, [])

theorem resume_decode_nil :
    (decode : Reader String (LapasProtocol chrono)).resume [] = (decode, []) := rfl

/-- Polling goes on where the bytes that have been read end. -/
theorem Synchronized.resume_socket {s : Connection chrono} (h : Synchronized s) :
    s.decoding.resume s.socket =
      (decode : Reader String (LapasProtocol chrono)).resume (s.taken ++ s.socket) := by
  rw [Reader.resume_append, h.decoding_eq, List.nil_append]

/-- Polling a synchronized loop dispatches the first packet that is pending, or waits. -/
theorem Synchronized.poll [chrono.Documented] {s s' : Connection chrono} (h : Synchronized s)
    {requestSent : Bool} (hstep : s.step (.poll requestSent) = some s') : Synchronized s' := by
  obtain ⟨⟨pending, hsent, hfits, hbytes⟩, hdecoding⟩ := id h
  have hresume := h.resume_socket
  rw [← List.append_assoc] at hbytes
  -- all bytes that have arrived are a part of the packets that are pending
  have hcases : (∃ v vs left, pending = v :: vs ∧ s.decoding.resume s.socket = (.pure v, left) ∧
      s.taken ++ s.socket = encoded v ++ left) ∨
      ∃ n next, s.decoding.resume s.socket = (.exact n next, []) := by
    cases pending with
    | nil =>
      have hempty : s.taken ++ s.socket = [] := (List.append_eq_nil_iff.mp hbytes).1
      rw [hresume, hempty, resume_decode_nil]
      exact Or.inr ⟨_, _, rfl⟩
    | cons v vs =>
      have hreads := reads_encoded v (hfits v List.mem_cons_self)
      rw [hresume]
      rcases Reader.resume_of_reads hreads (hbytes.trans List.flatMap_cons) with
        ⟨left, hleft, hpart⟩ | hwait
      · exact Or.inl ⟨v, vs, left, rfl, hleft, hpart⟩
      · exact Or.inr hwait
  rw [Connection.step] at hstep
  split at hstep
  · rcases hcases with ⟨v, vs, left, rfl, hpure, hpart⟩ | ⟨n, next, hexact⟩
    · rw [hpure] at hstep
      cases hstep
      refine ⟨⟨vs, ?_, fun v' hv' => hfits v' (List.mem_cons_of_mem v hv'), ?_⟩, resume_decode_nil⟩
      · rw [hsent, List.append_assoc, List.singleton_append]
      · rw [hpart, List.append_assoc, List.flatMap_cons] at hbytes
        exact List.append_cancel_left hbytes
    · rw [hexact] at hstep
      cases hstep
      refine ⟨⟨pending, hsent, hfits, ?_⟩, ?_⟩
      · rw [List.nil_append, hbytes]
      · rw [← hresume, hexact]
  · cases hstep

/-- **One step.** -/
theorem synchronized_step [chrono.Documented] {s s' : Connection chrono} {e : Event chrono}
    (h : Synchronized s) (htimer : TimerBetweenPackets s e) (hstep : s.step e = some s') :
    Synchronized s' := by
  cases e with
  | poll requestSent => exact h.poll hstep
  | send packet =>
    obtain ⟨⟨pending, hsent, hfits, hbytes⟩, hdecoding⟩ := h
    cases hstep
    refine ⟨⟨pending ++ [packet.1], ?_, ?_, ?_⟩, hdecoding⟩
    · rw [hsent, List.append_assoc]
    · intro v hv
      rcases List.mem_append.mp hv with hv | hv
      · exact hfits v hv
      · rw [List.mem_singleton.mp hv]
        exact packet.2
    · rw [List.flatMap_append, ← hbytes, List.flatMap_singleton]
      simp only [List.append_assoc]
  | arrive n =>
    obtain ⟨⟨pending, hsent, hfits, hbytes⟩, hdecoding⟩ := h
    rw [Connection.step] at hstep
    split at hstep
    · cases hstep
      refine ⟨⟨pending, hsent, hfits, ?_⟩, hdecoding⟩
      rw [List.append_assoc, List.take_append_drop, hbytes]
    · cases hstep
  | closed =>
    rw [Connection.step] at hstep
    split at hstep
    · cases hstep
      exact ⟨h.stream, h.decoding_eq⟩
    · cases hstep
  | timer pingSent =>
    -- the future of `decode` is dropped, and with it what it has taken: nothing
    have htaken := htimer pingSent rfl
    rw [Connection.step] at hstep
    split at hstep
    · cases hstep
      refine ⟨?_, resume_decode_nil⟩
      have hstream := h.stream
      rw [htaken] at hstream
      exact hstream
    · cases hstep

theorem synchronized_of_reach [chrono.Documented] {s : Connection chrono}
    (h : (daemon chrono).Reach TimerBetweenPackets s) : Synchronized s :=
  h.invariant (fun s hs => by
    rw [hs]
    exact ⟨⟨[], rfl, fun _ hv => absurd hv List.not_mem_nil, rfl⟩, resume_decode_nil⟩)
    fun _ _ _ hs htimer hstep => synchronized_step hs htimer hstep

/-- **Framing.**  In every run in which the timer wins only between packets, the packets that
are dispatched are a prefix of the packets that have been sent. -/
theorem dispatched_prefix_sent [chrono.Documented] {s : Connection chrono}
    (h : (daemon chrono).Reach TimerBetweenPackets s) : s.dispatched <+: s.sent := by
  obtain ⟨pending, hsent, -, -⟩ := (synchronized_of_reach h).stream
  exact ⟨pending, hsent.symm⟩

/-- A notification, and the timer behind it. -/
theorem dispatched_prefix_sent_notify : ∃ s, (daemon epoch).Reach TimerBetweenPackets s ∧
    s.dispatched <+: s.sent ∧ s.dispatched = [.notifyUsersChanged] := by
  have hfits : Fits epoch (.notifyUsersChanged : LapasProtocol epoch) :=
    ⟨by simp [strings], by simp [timestamps]⟩
  have hsend : (daemon epoch).Reach TimerBetweenPackets _ :=
    .step (.start rfl) (e := .send ⟨.notifyUsersChanged, hfits⟩) (fun _ h => by cases h) rfl
  have harrive : (daemon epoch).Reach TimerBetweenPackets _ :=
    .step hsend (e := .arrive 4) (fun _ h => by cases h) rfl
  have hpoll : (daemon epoch).Reach TimerBetweenPackets _ :=
    .step harrive (e := .poll true) (fun _ h => by cases h) rfl
  have htimer : (daemon epoch).Reach TimerBetweenPackets _ :=
    .step hpoll (e := .timer true) (fun _ _ => rfl) rfl
  exact ⟨_, htimer, dispatched_prefix_sent htimer, rfl⟩

/-- The list of no users is sent, its tag arrives and is read, the timer wins, and the rest
is read as the handshake of version 0. -/
theorem not_dispatched_prefix_sent : ∃ s,
    (daemon epoch).Reach (fun _ _ => True) s ∧
    s.sent = [.shadowGetListResponse (.ok ⟨[], by decide⟩)] ∧
    s.dispatched = [.controlHandshake 0] ∧ ¬ s.dispatched <+: s.sent := by
  have hfits : Fits epoch (.shadowGetListResponse (.ok ⟨[], by decide⟩) : LapasProtocol epoch) :=
    ⟨by simp [strings], by simp [timestamps]⟩
  have hrun : ∃ s, (daemon epoch).run ⟨[], [], [], decode, [], [], true⟩
      [.send ⟨_, hfits⟩, .arrive 4, .poll true, .timer true, .arrive 9, .poll true] = some s ∧
      s.sent = [.shadowGetListResponse (.ok ⟨[], by decide⟩)] ∧
      s.dispatched = [.controlHandshake 0] := ⟨_, rfl, rfl, rfl⟩
  obtain ⟨s, hs, hsent, hdispatched⟩ := hrun
  refine ⟨s, Machine.reach_of_run (.start rfl) hs, hsent, hdispatched, ?_⟩
  rw [hsent, hdispatched, List.cons_prefix_cons]
  rintro ⟨h, -⟩
  cases h

end Daemon
end Lapas
