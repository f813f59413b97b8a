import Mathlib.Data.List.AList
import Mathlib.Data.List.Induction
import Mathlib.Tactic.Common

/-!
# A map filled by a loop

Each round of a loop puts a value into a map, under a key of its own.  What remains of two
rounds with the same key is the value of the later one.

## Main definitions

* `Kept` — a round that is the last one with its key.

## Main results

* `foldlM_eq_ok_iff` — when no round of a loop fails.
* `lookup_foldl_erase` — a loop that erases.
* `lookup_foldl_insert_eq_some_iff` — a loop that inserts.
-/

namespace Lapas

/-! ### Rounds that can fail -/

section

variable {α σ ε : Type} {step : σ → α → Except ε σ} {Inv : σ → Prop} {ok : α → Prop}
  {next : σ → α → σ}

/-- As long as an invariant holds, whether a round fails depends on its argument only. -/
theorem foldlM_eq_ok_iff (hstep : ∀ s, Inv s → ∀ a s', step s a = .ok s' ↔ ok a ∧ s' = next s a)
    (hnext : ∀ s, Inv s → ∀ a, ok a → Inv (next s a)) (l : List α) {s : σ} (hs : Inv s) {s' : σ} :
    l.foldlM step s = .ok s' ↔ (∀ a ∈ l, ok a) ∧ s' = l.foldl next s := by
  induction l generalizing s with
  | nil => simp [pure, Except.pure, eq_comm]
  | cons a l ih =>
    rw [List.foldlM_cons, List.forall_mem_cons, List.foldl_cons]
    cases hround : step s a with
    | error e =>
      have hnot : ¬ ok a := fun ha => by
        have hok := (hstep s hs a _).mpr ⟨ha, rfl⟩
        rw [hround] at hok
        cases hok
      constructor
      · intro h
        cases h
      · exact fun h => absurd h.1.1 hnot
    | ok s₁ =>
      obtain ⟨ha, rfl⟩ := (hstep s hs a s₁).mp hround
      rw [and_iff_right ha, ← ih (hnext s hs a ha)]
      rfl

theorem invariant_foldl (hnext : ∀ s, Inv s → ∀ a, ok a → Inv (next s a)) (l : List α)
    (hl : ∀ a ∈ l, ok a) {s : σ} (hs : Inv s) : Inv (l.foldl next s) := by
  induction l generalizing s with
  | nil => exact hs
  | cons a l ih =>
    rw [List.forall_mem_cons] at hl
    exact ih hl.2 (hnext s hs a hl.1)

end

/-! ### The last round with a key -/

section

variable {α κ β : Type} {key : α → κ}

/-- No later round has its key. -/
def Kept (key : α → κ) (l : List α) (a : α) : Prop :=
  ∃ before after, l = before ++ a :: after ∧ ∀ a' ∈ after, key a' ≠ key a

theorem Kept.mem {l : List α} {a : α} (h : Kept key l a) : a ∈ l := by
  obtain ⟨before, after, rfl, -⟩ := h
  exact List.mem_append_right _ List.mem_cons_self

theorem kept_concat {l : List α} {a a' : α} :
    Kept key (l ++ [a]) a' ↔ a' = a ∨ Kept key l a' ∧ key a ≠ key a' := by
  constructor
  · rintro ⟨before, after, hl, hafter⟩
    rcases List.eq_nil_or_concat after with rfl | ⟨after, last, rfl⟩
    · exact .inl (List.append_inj_right' hl rfl |> List.cons.inj).1.symm
    · rw [List.concat_eq_append, ← List.cons_append, ← List.append_assoc] at hl
      obtain ⟨hl, hlast⟩ := List.append_inj' hl rfl
      rw [← (List.cons.inj hlast).1] at hafter
      exact .inr ⟨⟨before, after, hl, fun a hmem => hafter a (by simp [hmem])⟩,
        hafter a (by simp)⟩
  · rintro (rfl | ⟨⟨before, after, rfl, hafter⟩, hne⟩)
    · exact ⟨l, [], rfl, fun _ hmem => absurd hmem List.not_mem_nil⟩
    · refine ⟨before, after ++ [a], by simp, fun a'' hmem => ?_⟩
      rcases List.mem_append.mp hmem with hmem | hmem
      · exact hafter a'' hmem
      · rwa [List.mem_singleton.mp hmem]

/-- Each key has one. -/
theorem Kept.unique {l : List α} {a a' : α} (ha : Kept key l a) (ha' : Kept key l a')
    (heq : key a = key a') : a = a' := by
  induction l using List.reverseRecOn with
  | nil => exact absurd ha.mem List.not_mem_nil
  | append_singleton l last ih =>
    rcases kept_concat.mp ha with rfl | ⟨ha, hne⟩ <;>
      rcases kept_concat.mp ha' with rfl | ⟨ha', hne'⟩
    · rfl
    · exact absurd heq hne'
    · exact absurd heq.symm hne
    · exact ih ha ha'

theorem exists_kept (key : α → κ) {l : List α} {a : α} (h : a ∈ l) :
    ∃ a', Kept key l a' ∧ key a' = key a := by
  induction l using List.reverseRecOn with
  | nil => exact absurd h List.not_mem_nil
  | append_singleton l last ih =>
    by_cases hlast : key last = key a
    · exact ⟨last, kept_concat.mpr (.inl rfl), hlast⟩
    · have hmem : a ∈ l := by
        rcases List.mem_append.mp h with h | h
        · exact h
        · exact absurd (congrArg key (List.mem_singleton.mp h)).symm hlast
      obtain ⟨a', ha', heq⟩ := ih hmem
      exact ⟨a', kept_concat.mpr (.inr ⟨ha', fun h => hlast (h.trans heq)⟩), heq⟩

variable [DecidableEq κ]

theorem lookup_foldl_erase (keys : List κ) (map : AList fun _ : κ => β) (k : κ) :
    (keys.foldl (fun map k => map.erase k) map).lookup k =
      if k ∈ keys then none else map.lookup k := by
  induction keys generalizing map with
  | nil => rfl
  | cons k' keys ih =>
    rw [List.foldl_cons, ih]
    by_cases hmem : k ∈ keys
    · rw [if_pos hmem, if_pos (List.mem_cons_of_mem _ hmem)]
    · rw [if_neg hmem]
      by_cases heq : k = k'
      · rw [heq, AList.lookup_erase, if_pos List.mem_cons_self]
      · rw [AList.lookup_erase_ne heq, if_neg (by simp [heq, hmem])]

theorem lookup_foldl_insert_eq_some_iff {value : α → β} (l : List α) {map : AList fun _ : κ => β}
    {k : κ} {b : β} :
    (l.foldl (fun map a => map.insert (key a) (value a)) map).lookup k = some b ↔
      (∃ a, Kept key l a ∧ key a = k ∧ value a = b) ∨
        (∀ a ∈ l, key a ≠ k) ∧ map.lookup k = some b := by
  induction l using List.reverseRecOn with
  | nil =>
    simp only [List.foldl_nil, List.not_mem_nil, IsEmpty.forall_iff, implies_true, true_and]
    exact ⟨.inr, fun h => h.resolve_left fun ⟨_, ha, _⟩ => List.not_mem_nil ha.mem⟩
  | append_singleton l last ih =>
    rw [List.foldl_concat]
    by_cases hlast : key last = k
    · rw [← hlast, AList.lookup_insert, Option.some_inj]
      constructor
      · exact fun h => .inl ⟨last, kept_concat.mpr (.inl rfl), rfl, h⟩
      · rintro (⟨a, ha, hkey, rfl⟩ | ⟨hnone, -⟩)
        · rw [ha.unique (kept_concat.mpr (.inl rfl)) hkey]
        · exact absurd rfl (hnone last (by simp))
    · rw [AList.lookup_insert_ne (Ne.symm hlast), ih]
      refine or_congr ?_ (and_congr_left' ?_)
      · constructor
        · rintro ⟨a, ha, hkey, hvalue⟩
          exact ⟨a, kept_concat.mpr (.inr ⟨ha, hkey ▸ hlast⟩), hkey, hvalue⟩
        · rintro ⟨a, ha, hkey, hvalue⟩
          rcases kept_concat.mp ha with rfl | ⟨ha, -⟩
          · exact absurd hkey hlast
          · exact ⟨a, ha, hkey, hvalue⟩
      · simp [List.mem_append, or_imp, forall_and, hlast]

end

end Lapas
