import Mathlib.Algebra.BigOperators.Group.List.Basic
import Lapas.Library.PyText

/-!
# Command lines of desktop entries

The value of the key `Exec` is a command line.  A desktop takes the escapes out of it that every
value may have, takes it apart into arguments, which may be quoted, and puts something in for the
field codes of an argument.  An argument with a character that is reserved has to be quoted.

## Main definitions

* `unescape`, `splitArgs`, `expandCodes` — the three steps.
* `readExec` — the arguments that a desktop passes on.
* `IsPlainArg` — an argument that can stand in a command line as it is.

## Main results

* `readExec_intercalate` — plain arguments are read back.
* `size_le_of_readExec`, `eq_of_readExec` — **no other line of the same length has the same
  arguments.**
-/

namespace Lapas
namespace Guest

/-! ### The reader -/

/-- The escape sequences of a value; a backslash in front of another character is an error. -/
def escapeSequence : PyChar → Option PyChar
  | .char 's' => some (.char ' ')
  | .char 'n' => some (.char '\n')
  | .char 't' => some (.char '\t')
  | .char 'r' => some (.char '\r')
  | .char '\\' => some (.char '\\')
  | _ => none

/-- A value without its escape sequences. -/
def unescape : PyStr → Option PyStr
  | [] => some []
  | .char '\\' :: c :: text =>
    (escapeSequence c).bind fun c' => (unescape text).map (c' :: ·)
  | [.char '\\'] => none
  | c :: text => (unescape text).map (c :: ·)

/-- The characters that make quotes necessary. -/
def isReserved (c : PyChar) : Bool := (lit " \t\n\"'\\><~|&;$*?#()`").contains c

/-- In a quoted argument these characters are escaped. -/
def isEscaped (c : PyChar) : Bool := (lit "\"`$\\").contains c

/-- Where the reader is in a command line, and the argument so far. -/
inductive ArgMode
  | between
  | word (arg : PyStr)
  | quoted (arg : PyStr)
  /-- Behind a backslash. -/
  | escaped (arg : PyStr)
  /-- Behind the closing quote, where only a space may follow. -/
  | closed (arg : PyStr)

/-- The arguments of a command line, which are separated by spaces; `none` where a reserved
character is not quoted. -/
def splitArgs : ArgMode → PyStr → Option (List PyStr)
  | .between, [] => some []
  | .word arg, [] => some [arg]
  | .closed arg, [] => some [arg]
  | .quoted _, [] => none
  | .escaped _, [] => none
  | .between, c :: text =>
    if c = .char ' ' then splitArgs .between text
    else if c = .char '"' then splitArgs (.quoted []) text
    else if isReserved c then none
    else splitArgs (.word [c]) text
  | .word arg, c :: text =>
    if c = .char ' ' then (splitArgs .between text).map (arg :: ·)
    else if isReserved c then none
    else splitArgs (.word (arg ++ [c])) text
  | .quoted arg, c :: text =>
    if c = .char '"' then splitArgs (.closed arg) text
    else if c = .char '\\' then splitArgs (.escaped arg) text
    else if isEscaped c then none
    else splitArgs (.quoted (arg ++ [c])) text
  | .escaped arg, c :: text =>
    if isEscaped c then splitArgs (.quoted (arg ++ [c])) text else none
  | .closed arg, c :: text =>
    if c = .char ' ' then (splitArgs .between text).map (arg :: ·) else none

/-- An argument with its doubled percent signs; `none` for one with a field code, which stands for
something that is not in the line. -/
def expandCodes : PyStr → Option PyStr
  | [] => some []
  | .char '%' :: c :: text =>
    if c = .char '%' then (expandCodes text).map (c :: ·) else none
  | [.char '%'] => none
  | c :: text => (expandCodes text).map (c :: ·)

/-- The arguments of the value of the key `Exec`. -/
def readExec (value : PyStr) : Option (List PyStr) :=
  (unescape value).bind fun text => (splitArgs .between text).bind (·.mapM expandCodes)

/-- Nothing in an argument is taken away or put in. -/
def IsPlainArg (arg : PyStr) : Prop :=
  arg ≠ [] ∧ ∀ c ∈ arg, isReserved c = false ∧ c ≠ .char '%'

instance (arg : PyStr) : Decidable (IsPlainArg arg) :=
  @instDecidableAnd _ _ inferInstance
    (List.decidableBAll (fun c => isReserved c = false ∧ c ≠ .char '%') arg)

/-! ### Lengths -/

/-- How long arguments are in a line, each with a separator. -/
def size (args : List PyStr) : ℕ := (args.map (·.length + 1)).sum

@[simp] theorem size_nil : size [] = 0 := rfl

@[simp] theorem size_cons (arg : PyStr) (args : List PyStr) :
    size (arg :: args) = arg.length + 1 + size args := rfl

theorem unescape_length {value text : PyStr} (h : unescape value = some text) :
    text.length ≤ value.length ∧ (text.length = value.length → text = value) := by
  induction value using unescape.induct generalizing text with
  | case1 =>
    cases h
    exact ⟨le_rfl, fun _ => rfl⟩
  | case2 c value ih =>
    rw [unescape, Option.bind_eq_some_iff] at h
    obtain ⟨c', -, h⟩ := h
    obtain ⟨text', htext, rfl⟩ := Option.map_eq_some_iff.mp h
    have hle := (ih htext).1
    constructor
    · simp only [List.length_cons]
      omega
    · intro heq
      simp only [List.length_cons] at heq
      omega
  | case3 => cases h
  | case4 c value hescape hlast ih =>
    rw [unescape.eq_4 _ _ hescape hlast] at h
    obtain ⟨text', htext, rfl⟩ := Option.map_eq_some_iff.mp h
    obtain ⟨hle, heq⟩ := ih htext
    exact ⟨Nat.succ_le_succ hle, fun h => by rw [heq (Nat.succ.inj h)]⟩

theorem expandCodes_length {arg arg' : PyStr} (h : expandCodes arg = some arg') :
    arg'.length ≤ arg.length ∧
      (arg'.length = arg.length → arg' = arg ∧ .char '%' ∉ arg) := by
  induction arg using expandCodes.induct generalizing arg' with
  | case1 =>
    cases h
    exact ⟨le_rfl, fun _ => ⟨rfl, List.not_mem_nil⟩⟩
  | case2 text ih =>
    rw [expandCodes, if_pos rfl] at h
    obtain ⟨rest, hrest, rfl⟩ := Option.map_eq_some_iff.mp h
    have hle := (ih hrest).1
    constructor
    · simp only [List.length_cons]
      omega
    · intro heq
      simp only [List.length_cons] at heq
      omega
  | case3 c text hc =>
    rw [expandCodes, if_neg hc] at h
    cases h
  | case4 => cases h
  | case5 c text hdouble hlast ih =>
    rw [expandCodes.eq_4 _ _ hdouble hlast] at h
    obtain ⟨rest, hrest, rfl⟩ := Option.map_eq_some_iff.mp h
    obtain ⟨hle, heq⟩ := ih hrest
    refine ⟨Nat.succ_le_succ hle, fun h => ?_⟩
    obtain ⟨hrest, hpercent⟩ := heq (Nat.succ.inj h)
    refine ⟨by rw [hrest], fun hmem => ?_⟩
    rcases List.mem_cons.mp hmem with hc | hmem
    · -- a percent sign does not stand for itself
      cases text with
      | nil => exact hlast hc.symm rfl
      | cons d text => exact hdouble d text hc.symm rfl
    · exact hpercent hmem

theorem mapM_expandCodes_size {args args' : List PyStr} (h : args.mapM expandCodes = some args') :
    size args' ≤ size args ∧
      (size args' = size args → args' = args ∧ ∀ arg ∈ args, .char '%' ∉ arg) := by
  induction args generalizing args' with
  | nil =>
    cases h
    exact ⟨le_rfl, fun _ => ⟨rfl, fun _ hmem => absurd hmem List.not_mem_nil⟩⟩
  | cons arg args ih =>
    rw [List.mapM_cons] at h
    obtain ⟨arg', harg, h⟩ := Option.bind_eq_some_iff.mp h
    obtain ⟨rest, hrest, hret⟩ := Option.bind_eq_some_iff.mp h
    cases hret
    obtain ⟨hle, heq⟩ := ih hrest
    obtain ⟨hle', heq'⟩ := expandCodes_length harg
    rw [size_cons, size_cons]
    refine ⟨by omega, fun h => ?_⟩
    obtain ⟨rfl, hargs⟩ := heq (by omega)
    obtain ⟨rfl, hpercent⟩ := heq' (by omega)
    exact ⟨rfl, List.forall_mem_cons.mpr ⟨hpercent, hargs⟩⟩

/-- What has been read of an argument. -/
def ArgMode.read : ArgMode → ℕ
  | .between => 0
  | .word arg => arg.length
  | .quoted arg => arg.length
  | .escaped arg => arg.length
  | .closed arg => arg.length

/-- The characters that are still to be dropped. -/
def ArgMode.lost : ArgMode → ℕ
  | .quoted _ => 1
  | .escaped _ => 1
  | _ => 0

/-- Arguments are no longer than their line. -/
theorem size_le_of_splitArgs {mode : ArgMode} {text : PyStr} {args : List PyStr}
    (h : splitArgs mode text = some args) :
    size args + mode.lost ≤ text.length + mode.read + 1 := by
  induction text generalizing mode args with
  | nil =>
    cases mode with
    | between => cases h; simp [ArgMode.lost]
    | word arg => cases h; simp [ArgMode.lost, ArgMode.read]
    | closed arg => cases h; simp [ArgMode.lost, ArgMode.read]
    | quoted arg => cases h
    | escaped arg => cases h
  | cons c text ih =>
    -- what is left is read in another mode, in which at most one character more has been read
    have hnext : ∀ {mode' : ArgMode}, splitArgs mode' text = some args →
        mode'.read + mode.lost ≤ mode.read + mode'.lost + 1 →
          size args + mode.lost ≤ (c :: text).length + mode.read + 1 := by
      intro mode' hread hmode
      have hle := ih hread
      rw [List.length_cons]
      omega
    have hspace : ∀ {arg : PyStr}, mode.lost = 0 → mode.read = arg.length →
        (splitArgs .between text).map (arg :: ·) = some args →
          size args + mode.lost ≤ (c :: text).length + mode.read + 1 := by
      intro arg hlost hmode hread
      obtain ⟨args', hargs, rfl⟩ := Option.map_eq_some_iff.mp hread
      have hle := ih hargs
      simp only [ArgMode.lost, ArgMode.read] at hle
      rw [List.length_cons, size_cons]
      omega
    cases mode with
    | between =>
      rw [splitArgs] at h
      split_ifs at h
      · exact hnext h (by simp [ArgMode.lost, ArgMode.read])
      · exact hnext h (by simp [ArgMode.lost, ArgMode.read])
      · exact hnext h (by simp [ArgMode.lost, ArgMode.read])
    | word arg =>
      rw [splitArgs] at h
      split_ifs at h
      · exact hspace rfl rfl h
      · exact hnext h (by simp [ArgMode.lost, ArgMode.read])
    | quoted arg =>
      rw [splitArgs] at h
      split_ifs at h
      · exact hnext h (by simp [ArgMode.lost, ArgMode.read])
      · exact hnext h (by simp [ArgMode.lost, ArgMode.read])
      · exact hnext h (by simp [ArgMode.lost, ArgMode.read])
    | escaped arg =>
      rw [splitArgs] at h
      split_ifs at h
      exact hnext h (by simp [ArgMode.lost, ArgMode.read])
    | closed arg =>
      rw [splitArgs] at h
      split_ifs at h
      exact hspace rfl rfl h

/-! ### Reading back -/

/-- An argument that does not need quotes. -/
def Unreserved (arg : PyStr) : Prop := arg ≠ [] ∧ ∀ c ∈ arg, isReserved c = false

theorem ne_nil_of_size {args : List PyStr} {n : ℕ} (h : size args = n + 1) : args ≠ [] := by
  rintro rfl
  cases h

theorem intercalate_cons {arg : PyStr} {args : List PyStr} (h : args ≠ []) :
    (lit " ").intercalate (arg :: args) = arg ++ .char ' ' :: (lit " ").intercalate args := by
  obtain ⟨arg', args', rfl⟩ := List.exists_cons_of_ne_nil h
  rw [List.intercalate_cons_cons]
  exact List.append_assoc arg (lit " ") _

/-- A line from which only single spaces have been dropped has plain arguments. -/
theorem eq_of_splitArgs (text : PyStr) :
    (∀ args, splitArgs .between text = some args → size args = text.length + 1 →
      text = (lit " ").intercalate args ∧ ∀ arg ∈ args, Unreserved arg) ∧
    ∀ arg args, splitArgs (.word arg) text = some args → Unreserved arg →
      size args = text.length + arg.length + 1 →
        arg ++ text = (lit " ").intercalate args ∧ ∀ arg' ∈ args, Unreserved arg' := by
  -- the lengths leave no room: whatever the reader drops makes the words too short for the text
  induction text with
  | nil =>
    constructor
    · intro args h hsize
      cases h
      cases hsize
    · intro arg args h harg _
      cases h
      rw [List.intercalate_singleton, List.append_nil]
      exact ⟨rfl, List.forall_mem_singleton.mpr harg⟩
  | cons c text ih =>
    constructor
    · intro args h hsize
      rw [splitArgs] at h
      split_ifs at h with hspace hquote hreserved
      · -- a second space is dropped as well
        have hle := size_le_of_splitArgs h
        simp only [ArgMode.lost, ArgMode.read] at hle
        rw [List.length_cons] at hsize
        omega
      · -- a quote is dropped
        have hle := size_le_of_splitArgs h
        simp only [ArgMode.lost, ArgMode.read, List.length_nil] at hle
        rw [List.length_cons] at hsize
        omega
      · have hc : Unreserved [c] := by
          refine ⟨List.cons_ne_nil c [], fun d hd => ?_⟩
          rw [List.mem_singleton.mp hd]
          exact Bool.eq_false_iff.mpr hreserved
        exact ih.2 [c] args h hc hsize
    · intro arg args h harg hsize
      rw [splitArgs] at h
      split_ifs at h with hspace hreserved
      · -- a space ends the word
        obtain ⟨args', hargs, rfl⟩ := Option.map_eq_some_iff.mp h
        rw [size_cons, List.length_cons] at hsize
        have hsize' : size args' = text.length + 1 := by omega
        obtain ⟨htext, hunreserved⟩ := ih.1 args' hargs hsize'
        rw [intercalate_cons (ne_nil_of_size hsize'), ← htext, hspace]
        exact ⟨rfl, List.forall_mem_cons.mpr ⟨harg, hunreserved⟩⟩
      · have hc : Unreserved (arg ++ [c]) := by
          refine ⟨List.append_ne_nil_of_left_ne_nil harg.1 _, fun d hd => ?_⟩
          rcases List.mem_append.mp hd with hd | hd
          · exact harg.2 d hd
          · rw [List.mem_singleton.mp hd]
            exact Bool.eq_false_iff.mpr hreserved
        have hsize' : size args = text.length + (arg ++ [c]).length + 1 := by
          rw [hsize, List.length_cons, List.length_append, List.length_singleton]
          omega
        obtain ⟨htext, hunreserved⟩ := ih.2 (arg ++ [c]) args h hc hsize'
        rw [List.append_assoc, List.singleton_append] at htext
        exact ⟨htext, hunreserved⟩

/-- The arguments are no longer than the value that they are read from. -/
theorem size_le_of_readExec {value : PyStr} {args : List PyStr} (h : readExec value = some args) :
    size args ≤ value.length + 1 := by
  obtain ⟨text, htext, h⟩ := Option.bind_eq_some_iff.mp h
  obtain ⟨args', hargs, hcodes⟩ := Option.bind_eq_some_iff.mp h
  have hunescape := (unescape_length htext).1
  have hsplit := size_le_of_splitArgs hargs
  have hexpand := (mapM_expandCodes_size hcodes).1
  simp only [ArgMode.lost, ArgMode.read] at hsplit
  omega

/-- **Where they are as long, they stand in the value as they are.** -/
theorem eq_of_readExec {value : PyStr} {args : List PyStr} (h : readExec value = some args)
    (hsize : size args = value.length + 1) :
    value = (lit " ").intercalate args ∧ ∀ arg ∈ args, IsPlainArg arg := by
  obtain ⟨text, htext, h⟩ := Option.bind_eq_some_iff.mp h
  obtain ⟨args', hargs, hcodes⟩ := Option.bind_eq_some_iff.mp h
  obtain ⟨hle, hunescape⟩ := unescape_length htext
  obtain ⟨hle', hexpand⟩ := mapM_expandCodes_size hcodes
  have hsplit := size_le_of_splitArgs hargs
  simp only [ArgMode.lost, ArgMode.read] at hsplit
  obtain rfl := hunescape (by omega)
  obtain ⟨rfl, hpercent⟩ := hexpand (by omega)
  obtain ⟨hvalue, hunreserved⟩ := (eq_of_splitArgs text).1 args hargs hsize
  refine ⟨hvalue, fun arg harg => ⟨(hunreserved arg harg).1, fun c hc => ?_⟩⟩
  refine ⟨(hunreserved arg harg).2 c hc, ?_⟩
  rintro rfl
  exact hpercent arg harg hc

/-! ### Plain arguments -/

theorem unescape_of_notMem {value : PyStr} (h : .char '\\' ∉ value) :
    unescape value = some value := by
  induction value using unescape.induct with
  | case1 => rfl
  | case2 c value ih => exact absurd List.mem_cons_self h
  | case3 => exact absurd List.mem_cons_self h
  | case4 c value hescape hlast ih =>
    rw [unescape.eq_4 _ _ hescape hlast, ih fun hmem => h (List.mem_cons_of_mem _ hmem)]
    rfl

theorem expandCodes_of_notMem {arg : PyStr} (h : .char '%' ∉ arg) : expandCodes arg = some arg := by
  induction arg using expandCodes.induct with
  | case1 => rfl
  | case2 text ih => exact absurd List.mem_cons_self h
  | case3 c text hc => exact absurd List.mem_cons_self h
  | case4 => exact absurd List.mem_cons_self h
  | case5 c text hdouble hlast ih =>
    rw [expandCodes.eq_4 _ _ hdouble hlast, ih fun hmem => h (List.mem_cons_of_mem _ hmem)]
    rfl

theorem mapM_expandCodes_of_plain {args : List PyStr} (h : ∀ arg ∈ args, IsPlainArg arg) :
    args.mapM expandCodes = some args := by
  induction args with
  | nil => rfl
  | cons arg args ih =>
    rw [List.forall_mem_cons] at h
    have harg : .char '%' ∉ arg := fun hmem => (h.1.2 _ hmem).2 rfl
    rw [List.mapM_cons, expandCodes_of_notMem harg, ih h.2]
    rfl

/-- An argument is read character by character. -/
theorem splitArgs_word_append {arg : PyStr} (h : ∀ c ∈ arg, isReserved c = false)
    (start rest : PyStr) :
    splitArgs (.word start) (arg ++ rest) = splitArgs (.word (start ++ arg)) rest := by
  induction arg generalizing start with
  | nil => rw [List.append_nil, List.nil_append]
  | cons c arg ih =>
    have hc : isReserved c = false := h c List.mem_cons_self
    have hspace : c ≠ .char ' ' := by
      rintro rfl
      exact absurd hc (by decide)
    rw [List.cons_append, splitArgs, if_neg hspace, if_neg (by rw [hc]; exact Bool.false_ne_true),
      ih fun d hd => h d (List.mem_cons_of_mem _ hd), List.append_assoc, List.singleton_append]

theorem splitArgs_between_append {arg : PyStr} (h : IsPlainArg arg) (rest : PyStr) :
    splitArgs .between (arg ++ rest) = splitArgs (.word arg) rest := by
  obtain ⟨hne, hchars⟩ := h
  obtain ⟨c, arg, rfl⟩ := List.exists_cons_of_ne_nil hne
  have hc : isReserved c = false := (hchars c List.mem_cons_self).1
  have hspace : c ≠ .char ' ' := by
    rintro rfl
    exact absurd hc (by decide)
  have hquote : c ≠ .char '"' := by
    rintro rfl
    exact absurd hc (by decide)
  have harg : ∀ d ∈ arg, isReserved d = false := fun d hd =>
    (hchars d (List.mem_cons_of_mem _ hd)).1
  rw [List.cons_append, splitArgs, if_neg hspace, if_neg hquote,
    if_neg (by rw [hc]; exact Bool.false_ne_true), splitArgs_word_append harg]
  rfl

theorem splitArgs_intercalate {args : List PyStr} (h : ∀ arg ∈ args, IsPlainArg arg) :
    splitArgs .between ((lit " ").intercalate args) = some args := by
  induction args with
  | nil => rfl
  | cons arg args ih =>
    rw [List.forall_mem_cons] at h
    by_cases hargs : args = []
    · subst hargs
      have hword := splitArgs_between_append h.1 []
      rw [List.append_nil] at hword
      rw [List.intercalate_singleton, hword]
      rfl
    · rw [intercalate_cons hargs, splitArgs_between_append h.1, splitArgs, if_pos rfl, ih h.2]
      rfl

/-- Plain arguments are read back. -/
theorem readExec_intercalate {args : List PyStr} (h : ∀ arg ∈ args, IsPlainArg arg) :
    readExec ((lit " ").intercalate args) = some args := by
  have hbackslash : .char '\\' ∉ (lit " ").intercalate args := by
    induction args with
    | nil => exact List.not_mem_nil
    | cons arg args ih =>
      rw [List.forall_mem_cons] at h
      have harg : .char '\\' ∉ arg := fun hmem => absurd (h.1.2 _ hmem).1 (by decide)
      by_cases hargs : args = []
      · rwa [hargs, List.intercalate_singleton]
      · rw [intercalate_cons hargs, List.mem_append, List.mem_cons]
        rintro (hmem | heq | hmem)
        · exact harg hmem
        · cases heq
        · exact ih h.2 hmem
  rw [readExec, unescape_of_notMem hbackslash, Option.bind_some, splitArgs_intercalate h,
    Option.bind_some, mapM_expandCodes_of_plain h]

end Guest
end Lapas
