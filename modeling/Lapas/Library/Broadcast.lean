import Mathlib.Data.Nat.Notation
import Mathlib.Tactic.Common

/-!
# Broadcast channels

A broadcast channel keeps the last `capacity` of the values that have been sent.  A receiver
is a position in the list of all values; when the value at its position is not kept any
more, it receives an error, and goes on with the oldest that is.

## Main definitions

* `Broadcast.receive` — receiving at a position.
* `Broadcast.Keeps` — a receiver has missed nothing.

## Main results

* `Keeps.receive` — such a receiver receives the next value.
* `Keeps.send` — it stays one when a value is sent, if there is room.
-/

namespace Lapas
namespace Broadcast

variable {α : Type*}

/-- What a receiver gets: a value, or the number of values that it has missed. -/
inductive Received (α : Type*)
  | value (a : α)
  | lagged (missed : ℕ)

/-- What is received at a position, and the position behind it; `none` while there is
nothing. -/
def receive (capacity : ℕ) (sent : List α) (next : ℕ) : Option (Received α × ℕ) :=
  if next + capacity < sent.length then
    some (.lagged (sent.length - capacity - next), sent.length - capacity)
  else sent[next]?.map fun a => (.value a, next + 1)

/-- What is received has been sent. -/
theorem mem_of_receive {α : Type*} {capacity : ℕ} {sent : List α} {next next' : ℕ} {a : α}
    (h : receive capacity sent next = some (.value a, next')) : a ∈ sent := by
  unfold receive at h
  split at h
  · cases h
  · obtain ⟨b, hb, heq⟩ := Option.map_eq_some_iff.mp h
    cases heq
    exact List.mem_of_getElem? hb

/-- The receiver has missed nothing: it is not ahead of the senders, and what it has not taken still
fits into the channel. -/
structure Keeps (capacity : ℕ) (sent : List α) (next : ℕ) : Prop where
  next_le : next ≤ sent.length
  length_le : sent.length ≤ next + capacity

variable {capacity : ℕ} {sent : List α} {next : ℕ}

/-- A receiver that subscribes starts behind the last value. -/
theorem keeps_length : Keeps capacity sent sent.length := ⟨Nat.le_refl _, Nat.le_add_right _ _⟩

theorem Keeps.receive (h : Keeps capacity sent next) {received : Received α} {next' : ℕ}
    (hreceive : receive capacity sent next = some (received, next')) :
    ∃ a, received = .value a ∧ next' = next + 1 ∧ sent.drop next = a :: sent.drop (next + 1) ∧
      Keeps capacity sent (next + 1) := by
  have hroom : ¬ next + capacity < sent.length := Nat.not_lt.mpr h.length_le
  rw [Broadcast.receive, if_neg hroom] at hreceive
  obtain ⟨a, ha, heq⟩ := Option.map_eq_some_iff.mp hreceive
  obtain ⟨hlt, hget⟩ := List.getElem?_eq_some_iff.mp ha
  cases heq
  have hlength := h.length_le
  refine ⟨a, rfl, rfl, ?_, ⟨hlt, by omega⟩⟩
  rw [List.drop_eq_getElem_cons hlt, hget]

/-- What has been received before stays received, and the new value is behind the others. -/
theorem Keeps.drop_send (h : Keeps capacity sent next) (a : α) :
    (sent ++ [a]).drop next = sent.drop next ++ [a] := List.drop_append_of_le_length h.next_le

theorem Keeps.send (h : Keeps capacity sent next) (hroom : sent.length < next + capacity) (a : α) :
    Keeps capacity (sent ++ [a]) next := by
  have hnext := h.next_le
  constructor
  · rw [List.length_append, List.length_singleton]
    omega
  · rw [List.length_append, List.length_singleton]
    omega

end Broadcast
end Lapas
