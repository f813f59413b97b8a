import Mathlib.Data.List.Basic
import Mathlib.Data.List.Induction
import Mathlib.Data.List.Infix
import Mathlib.Data.Nat.Notation
import Mathlib.Tactic.Common

/-!
# Lines with their ends

The lines of a text, each with the separator that ends it.  Only the last one may be without.

## Main definitions

* `keptLines` — the lines.
* `Terminated` — texts whose last line has an end.
* `LineBegins` — texts with a line that begins in some way.

## Main results

* `flatten_keptLines` — the lines make up the text.
* `keptLines_append`, `keptLines_line` — the lines of a text behind a text that has an end, and
  behind a line.
-/

namespace Lapas

variable {α : Type*} {sep : α}

/-! ### Ends -/

/-- The text is empty or its last line has an end. -/
def Terminated (sep : α) (text : List α) : Prop := ∀ c, text.getLast? = some c → c = sep

theorem terminated_nil : Terminated sep [] := by
  intro c h
  cases h

theorem terminated_concat (text : List α) : Terminated sep (text ++ [sep]) := by
  intro c h
  rw [List.getLast?_concat] at h
  exact (Option.some.inj h).symm

theorem Terminated.append {text text' : List α} (h : Terminated sep text)
    (h' : Terminated sep text') : Terminated sep (text ++ text') := by
  intro c hc
  rw [List.getLast?_append] at hc
  cases hlast : text'.getLast? with
  | none =>
    rw [hlast, Option.none_or] at hc
    exact h c hc
  | some d =>
    rw [hlast, Option.some_or] at hc
    exact h' c (hlast.trans hc)

theorem Terminated.of_append {text text' : List α} (h : Terminated sep (text ++ text'))
    (hne : text' ≠ []) : Terminated sep text' := by
  intro c hc
  apply h c
  rw [List.getLast?_append_of_ne_nil _ hne, hc]

theorem Terminated.of_cons {c : α} {text : List α} (h : Terminated sep (c :: text)) :
    Terminated sep text := by
  cases text with
  | nil => exact terminated_nil
  | cons d text =>
    have hc : Terminated sep ([c] ++ d :: text) := h
    exact hc.of_append (List.cons_ne_nil d text)

/-! ### The lines -/

variable [DecidableEq α]

/-- The lines of a text, each with the separator at its end when it has one. -/
def keptLines (sep : α) : List α → List (List α)
  | [] => []
  | c :: text =>
    if c = sep then [c] :: keptLines sep text
    else
      match keptLines sep text with
      | [] => [[c]]
      | line :: lines => (c :: line) :: lines

@[simp] theorem keptLines_nil (sep : α) : keptLines sep [] = [] := rfl

theorem keptLines_sep (text : List α) :
    keptLines sep (sep :: text) = [sep] :: keptLines sep text := by
  rw [keptLines, if_pos rfl]

/-- The lines make up the text. -/
theorem flatten_keptLines (sep : α) (text : List α) : (keptLines sep text).flatten = text := by
  induction text with
  | nil => rfl
  | cons c text ih =>
    rw [keptLines]
    by_cases hc : c = sep
    · rw [if_pos hc, List.flatten_cons, ih, List.singleton_append]
    · rw [if_neg hc]
      cases hlines : keptLines sep text with
      | nil =>
        rw [hlines, List.flatten_nil] at ih
        rw [← ih]
        rfl
      | cons line lines =>
        rw [hlines, List.flatten_cons] at ih
        rw [List.flatten_cons, List.cons_append, ih]

theorem eq_nil_of_keptLines {text : List α} (h : keptLines sep text = []) : text = [] := by
  rw [← flatten_keptLines sep text, h, List.flatten_nil]

theorem ne_nil_of_mem_keptLines {text line : List α} (h : line ∈ keptLines sep text) :
    line ≠ [] := by
  induction text generalizing line with
  | nil => cases h
  | cons c text ih =>
    rw [keptLines] at h
    by_cases hc : c = sep
    · rw [if_pos hc] at h
      rcases List.mem_cons.mp h with rfl | hmem
      · exact List.cons_ne_nil c []
      · exact ih hmem
    · rw [if_neg hc] at h
      cases hlines : keptLines sep text with
      | nil =>
        rw [hlines] at h
        rw [List.mem_singleton.mp h]
        exact List.cons_ne_nil c []
      | cons first lines =>
        rw [hlines] at h
        rcases List.mem_cons.mp h with rfl | hmem
        · exact List.cons_ne_nil c first
        · exact ih (hlines ▸ List.mem_cons_of_mem first hmem)

/-- Without some of the lines at its end, a text is shorter. -/
theorem length_flatten_take_lt {text : List α} {n : ℕ} (hn : n < (keptLines sep text).length) :
    ((keptLines sep text).take n).flatten.length < text.length := by
  have hne : (keptLines sep text)[n] ≠ [] := ne_nil_of_mem_keptLines (List.getElem_mem hn)
  have hpos : 0 < (keptLines sep text)[n].length := List.length_pos_of_ne_nil hne
  have hlength : ((keptLines sep text).take n).flatten.length +
      ((keptLines sep text).drop n).flatten.length = text.length := by
    rw [← List.length_append, ← List.flatten_append, List.take_append_drop, flatten_keptLines]
  rw [List.drop_eq_getElem_cons hn, List.flatten_cons, List.length_append] at hlength
  omega

/-- A line, and what is behind it. -/
theorem keptLines_line {line : List α} (h : sep ∉ line) (text : List α) :
    keptLines sep (line ++ sep :: text) = (line ++ [sep]) :: keptLines sep text := by
  induction line with
  | nil => exact keptLines_sep text
  | cons c line ih =>
    rw [List.mem_cons, not_or] at h
    have hc : c ≠ sep := fun heq => h.1 heq.symm
    rw [List.cons_append, keptLines, if_neg hc, ih h.2]
    rfl

/-- The lines of a text behind one that has an end. -/
theorem keptLines_append {text : List α} (h : Terminated sep text) (text' : List α) :
    keptLines sep (text ++ text') = keptLines sep text ++ keptLines sep text' := by
  induction text with
  | nil => rfl
  | cons c text ih =>
    have ht : Terminated sep text := h.of_cons
    rw [List.cons_append, keptLines, keptLines, ih ht]
    by_cases hc : c = sep
    · rw [if_pos hc, if_pos hc, List.cons_append]
    · rw [if_neg hc, if_neg hc]
      cases hlines : keptLines sep text with
      | nil =>
        -- then the text ends in `c`
        obtain rfl := eq_nil_of_keptLines hlines
        exact absurd (h c rfl) hc
      | cons line lines => rfl

/-- Each line of such a text has an end. -/
theorem exists_of_mem_keptLines {text : List α} (h : Terminated sep text) {line : List α}
    (hline : line ∈ keptLines sep text) : ∃ front, line = front ++ [sep] := by
  induction text generalizing line with
  | nil => cases hline
  | cons c text ih =>
    have ht : Terminated sep text := h.of_cons
    rw [keptLines] at hline
    by_cases hc : c = sep
    · rw [if_pos hc] at hline
      rcases List.mem_cons.mp hline with rfl | hmem
      · exact ⟨[], by rw [hc, List.nil_append]⟩
      · exact ih ht hmem
    · rw [if_neg hc] at hline
      cases hlines : keptLines sep text with
      | nil =>
        obtain rfl := eq_nil_of_keptLines hlines
        exact absurd (h c rfl) hc
      | cons first lines =>
        rw [hlines] at hline
        rcases List.mem_cons.mp hline with rfl | hmem
        · obtain ⟨front, hfront⟩ := ih ht (hlines ▸ List.mem_cons_self)
          exact ⟨c :: front, by rw [hfront, List.cons_append]⟩
        · exact ih ht (hlines ▸ List.mem_cons_of_mem first hmem)

/-! ### Lines that begin in some way -/

/-- A text has a line that begins with `start`. -/
def LineBegins (sep : α) (start text : List α) : Prop :=
  ∃ line ∈ keptLines sep text, start <+: line

instance (sep : α) (start text : List α) : Decidable (LineBegins sep start text) := by
  unfold LineBegins
  infer_instance

theorem lineBegins_append {start text text' : List α} (h : Terminated sep text) :
    LineBegins sep start (text ++ text') ↔
      LineBegins sep start text ∨ LineBegins sep start text' := by
  rw [LineBegins, keptLines_append h]
  constructor
  · rintro ⟨line, hmem, hstart⟩
    rcases List.mem_append.mp hmem with hmem | hmem
    · exact .inl ⟨line, hmem, hstart⟩
    · exact .inr ⟨line, hmem, hstart⟩
  · rintro (⟨line, hmem, hstart⟩ | ⟨line, hmem, hstart⟩)
    · exact ⟨line, List.mem_append_left _ hmem, hstart⟩
    · exact ⟨line, List.mem_append_right _ hmem, hstart⟩

/-- The last line of a text, as far as it has no end. -/
theorem exists_eq_append (sep : α) (text : List α) :
    ∃ front line, text = front ++ line ∧ Terminated sep front ∧ sep ∉ line := by
  induction text using List.reverseRecOn with
  | nil => exact ⟨[], [], rfl, terminated_nil, List.not_mem_nil⟩
  | append_singleton text c ih =>
    by_cases hc : c = sep
    · refine ⟨text ++ [c], [], (List.append_nil _).symm, ?_, List.not_mem_nil⟩
      rw [hc]
      exact terminated_concat text
    · obtain ⟨front, line, rfl, hfront, hline⟩ := ih
      refine ⟨front, line ++ [c], List.append_assoc _ _ _, hfront, ?_⟩
      intro hmem
      rcases List.mem_append.mp hmem with hmem | hmem
      · exact hline hmem
      · exact hc (List.mem_singleton.mp hmem).symm

theorem keptLines_of_notMem {line : List α} (h : sep ∉ line) (hne : line ≠ []) :
    keptLines sep line = [line] := by
  induction line with
  | nil => exact absurd rfl hne
  | cons c line ih =>
    rw [List.mem_cons, not_or] at h
    rw [keptLines, if_neg fun heq => h.1 heq.symm]
    cases line with
    | nil => rfl
    | cons d line => rw [ih h.2 (List.cons_ne_nil d line)]

/-- An end at the last line changes nothing. -/
theorem lineBegins_concat {start : List α} (hstart : sep ∉ start) (hne : start ≠ [])
    (text : List α) : LineBegins sep start (text ++ [sep]) ↔ LineBegins sep start text := by
  obtain ⟨front, line, rfl, hfront, hline⟩ := exists_eq_append sep text
  rw [List.append_assoc, lineBegins_append hfront, lineBegins_append hfront]
  apply or_congr_right
  have hbegins : start <+: line ++ [sep] ↔ start <+: line := by
    rw [List.prefix_concat_iff, or_iff_right_iff_imp]
    intro heq
    exact absurd (heq ▸ List.mem_append_right line List.mem_cons_self) hstart
  rw [LineBegins, keptLines_line hline, LineBegins]
  by_cases hnil : line = []
  · subst hnil
    constructor
    · rintro ⟨line, hmem, hline'⟩
      obtain rfl := List.mem_singleton.mp hmem
      exact absurd (List.prefix_nil.mp (hbegins.mp hline')) hne
    · rintro ⟨line, hmem, -⟩
      cases hmem
  · rw [keptLines_of_notMem hline hnil]
    simp [hbegins]

end Lapas
