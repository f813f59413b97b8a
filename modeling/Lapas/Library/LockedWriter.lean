import Mathlib.Data.List.Basic
import Mathlib.Tactic.Common

/-!
# Writers behind a lock

Tasks write packets to one stream.  A task takes the lock of the stream, writes the encoding
of its packet in pieces of any size, and gives the lock back; no other task writes in
between.

## Main definitions

* `LockedWriter` — the stream, what has been written to it, and who holds the lock.
* `LockedWriter.lock`, `LockedWriter.write`, `LockedWriter.unlock` — the steps.
* `LockedWriter.Whole` — the invariant.

## Main results

* `Whole.lock`, `Whole.write`, `Whole.unlock` — it is kept.
* `Whole.out_eq` — the stream consists of whole encodings, and of the beginning of the one
  that is being written.
-/

namespace Lapas

/-- A stream of bytes that tasks write packets to, one after the other, while they hold a lock. -/
structure LockedWriter (T P B : Type*) where
  out : List B
  /-- Who has written what, in this order. -/
  finished : List (T × P)
  /-- Who holds the lock, with what packet, and what of it is not written. -/
  holder : Option (T × P × List B)

namespace LockedWriter

variable {T P B : Type*}

/-- A stream that nothing has been written to. -/
def new : LockedWriter T P B := ⟨[], [], none⟩

/-- What is being written: the packet of the task that holds the lock, if there is one. -/
def current (w : LockedWriter T P B) : List (T × P) :=
  match w.holder with
  | none => []
  | some (task, packet, _) => [(task, packet)]

/-- What the holder of the lock has still to write. -/
def unwritten (w : LockedWriter T P B) : List B :=
  match w.holder with
  | none => []
  | some (_, _, rest) => rest

/-- Everything for which the lock has been taken. -/
def packets (w : LockedWriter T P B) : List (T × P) := w.finished ++ w.current

variable (encode : P → List B)

/-- A task takes the lock, if nobody holds it, and has its whole packet to write then. -/
def lock (w : LockedWriter T P B) (task : T) (packet : P) : Option (LockedWriter T P B) :=
  match w.holder with
  | none => some { w with holder := some (task, packet, encode packet) }
  | some _ => none

/-- The holder writes the next `n` bytes. -/
def write (w : LockedWriter T P B) (n : ℕ) : Option (LockedWriter T P B) :=
  match w.holder with
  | none => none
  | some (task, packet, rest) =>
    some { w with out := w.out ++ rest.take n, holder := some (task, packet, rest.drop n) }

/-- The holder has written its packet to the end and gives the lock back; before that the step is
not possible. -/
def unlock (w : LockedWriter T P B) : Option (LockedWriter T P B) :=
  match w.holder with
  | some (task, packet, []) =>
    some { w with finished := w.finished ++ [(task, packet)], holder := none }
  | _ => none

/-- What is written and what is not make up the packets. -/
structure Whole (w : LockedWriter T P B) : Prop where
  append_eq : w.out ++ w.unwritten = w.packets.flatMap fun e => encode e.2
  rest_suffix : ∀ task packet rest, w.holder = some (task, packet, rest) → rest <:+ encode packet

variable {encode} {w w' : LockedWriter T P B}

theorem whole_new : (new : LockedWriter T P B).Whole encode := ⟨rfl, nofun⟩

theorem lock_eq_some {task : T} {packet : P} (h : w.lock encode task packet = some w') :
    w.holder = none ∧ w' = { w with holder := some (task, packet, encode packet) } := by
  rw [lock] at h
  split at h
  · next hfree =>
    cases h
    exact ⟨hfree, rfl⟩
  · cases h

theorem write_eq_some {n : ℕ} (h : w.write n = some w') :
    ∃ task packet rest, w.holder = some (task, packet, rest) ∧
      w' = { w with out := w.out ++ rest.take n, holder := some (task, packet, rest.drop n) } := by
  rw [write] at h
  split at h
  · cases h
  · next task packet rest hholder =>
    cases h
    exact ⟨task, packet, rest, hholder, rfl⟩

theorem unlock_eq_some (h : w.unlock = some w') :
    ∃ task packet, w.holder = some (task, packet, []) ∧
      w' = { w with finished := w.finished ++ [(task, packet)], holder := none } := by
  rw [unlock] at h
  split at h
  · next task packet hholder =>
    cases h
    exact ⟨task, packet, hholder, rfl⟩
  · cases h

theorem packets_of_free (h : w.holder = none) : w.packets = w.finished := by
  rw [packets, current, h, List.append_nil]

theorem packets_of_holder {task : T} {packet : P} {rest : List B}
    (h : w.holder = some (task, packet, rest)) :
    w.packets = w.finished ++ [(task, packet)] := by
  rw [packets, current, h]

/-- A packet is among those of the stream from the lock on. -/
theorem packets_lock {task : T} {packet : P} (h : w.lock encode task packet = some w') :
    w'.packets = w.packets ++ [(task, packet)] := by
  obtain ⟨hfree, rfl⟩ := lock_eq_some h
  rw [packets_of_free hfree]
  rfl

theorem packets_write {n : ℕ} (h : w.write n = some w') : w'.packets = w.packets := by
  obtain ⟨task, packet, rest, hholder, rfl⟩ := write_eq_some h
  rw [packets_of_holder hholder]
  rfl

theorem packets_unlock (h : w.unlock = some w') : w'.packets = w.packets := by
  obtain ⟨task, packet, hholder, rfl⟩ := unlock_eq_some h
  rw [packets_of_holder hholder]
  exact List.append_nil _

theorem Whole.lock (hw : w.Whole encode) {task : T} {packet : P}
    (h : w.lock encode task packet = some w') : w'.Whole encode := by
  have hpackets := packets_lock h
  obtain ⟨hfree, rfl⟩ := lock_eq_some h
  have hout := hw.append_eq
  rw [unwritten, hfree, List.append_nil] at hout
  constructor
  · rw [hpackets, List.flatMap_append, ← hout, List.flatMap_singleton]
    rfl
  · rintro _ _ _ hholder
    cases hholder
    exact List.suffix_rfl

theorem Whole.write (hw : w.Whole encode) {n : ℕ} (h : w.write n = some w') : w'.Whole encode := by
  have hpackets := packets_write h
  obtain ⟨task, packet, rest, hholder, rfl⟩ := write_eq_some h
  constructor
  · rw [hpackets, ← hw.append_eq]
    show w.out ++ rest.take n ++ rest.drop n = w.out ++ w.unwritten
    rw [unwritten, hholder, List.append_assoc, List.take_append_drop]
  · rintro _ _ _ heq
    cases heq
    exact (List.drop_suffix n rest).trans (hw.rest_suffix task packet rest hholder)

theorem Whole.unlock (hw : w.Whole encode) (h : w.unlock = some w') : w'.Whole encode := by
  have hpackets := packets_unlock h
  obtain ⟨task, packet, hholder, rfl⟩ := unlock_eq_some h
  have hrest : w.unwritten = [] := by rw [unwritten, hholder]
  refine ⟨?_, nofun⟩
  rw [hpackets, ← hw.append_eq, hrest]
  rfl

/-- **The stream** consists of whole encodings, and of the beginning of the one that is being
written. -/
theorem Whole.out_eq (hw : w.Whole encode) :
    ∃ begun, w.out = w.finished.flatMap (fun e => encode e.2) ++ begun ∧
      begun <+: w.current.flatMap fun e => encode e.2 := by
  have hout := hw.append_eq
  cases hholder : w.holder with
  | none =>
    rw [unwritten, hholder, List.append_nil, packets_of_free hholder] at hout
    exact ⟨[], by rw [hout, List.append_nil], List.nil_prefix⟩
  | some holder =>
    obtain ⟨task, packet, rest⟩ := holder
    obtain ⟨begun, hbegun⟩ := hw.rest_suffix task packet rest hholder
    rw [unwritten, hholder, packets_of_holder hholder, List.flatMap_append,
      List.flatMap_singleton, ← hbegun, ← List.append_assoc] at hout
    refine ⟨begun, List.append_cancel_right hout, ?_⟩
    rw [current, hholder, List.flatMap_singleton]
    exact ⟨rest, hbegun⟩

end LockedWriter
end Lapas
