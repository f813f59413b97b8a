import Mathlib.Data.List.Basic
import Mathlib.Data.List.TakeWhile
import Mathlib.Data.Nat.Notation

/-!
# What the sources use of Rust's standard library

Strings are lists of characters here, so that the parsers of the sources can be
followed by recursion; a call that can fail returns `Except Failure`, which keeps
an `Err` value apart from a panic.

* `Failure` — an `Err` value, or a panic.
* `splitn`, `replace`, `contains`, `trim`, `lines` — the string functions of that name.
* `Segment`, `FileName`, `Path` — path components, file names and relative paths.
-/

namespace Lapas

/-- A `str`, as the list of its characters. -/
abbrev Str := List Char

/-- How a call ends that does not return a value. -/
inductive Failure
  /-- An `Err` value, with its message. -/
  | err (msg : String)
  /-- A panic, with its message. -/
  | panic (msg : String)
  deriving DecidableEq, Repr

/-- A call with fixed arguments, evaluated: it returns a value with the property. -/
theorem exists_ok_of_decide {ε α : Type} {call : Except ε α} {p : α → Prop} [DecidablePred p]
    (h : (match call with | .ok a => decide (p a) | .error _ => false) = true) :
    ∃ a, call = .ok a ∧ p a := by
  cases call with
  | error e => cases h
  | ok a => exact ⟨a, rfl, of_decide_eq_true h⟩

theorem bind_of_ok {ε α β : Type} {call : Except ε α} {a : α} (h : call = .ok a)
    (rest : α → Except ε β) : call >>= rest = rest a := by
  rw [h]
  rfl

/-- A `?` that is passed. -/
theorem exists_of_bind_ok {ε α β : Type} {call : Except ε α} {rest : α → Except ε β} {b : β}
    (h : call >>= rest = .ok b) : ∃ a, call = .ok a ∧ rest a = .ok b := by
  cases call with
  | error e => cases h
  | ok a => exact ⟨a, rfl, h⟩

/-! ### Strings -/

/-- `str::splitn`: at most `n` pieces, the last one keeping its separators. -/
def splitn : ℕ → Char → Str → List Str
  | 0, _, _ => []
  | 1, _, s => [s]
  | n + 2, sep, s =>
    match s.dropWhile (· ≠ sep) with
    | [] => [s]
    | _ :: post => s.takeWhile (· ≠ sep) :: splitn (n + 1) sep post

/-- `str::replace`, scanning from the left; `skip` counts the characters of the
last match that are still to be passed over. -/
def replaceFrom (pat repl : Str) : ℕ → Str → Str
  | _, [] => []
  | skip + 1, _ :: s => replaceFrom pat repl skip s
  | 0, c :: s =>
    if pat.isPrefixOf (c :: s) then repl ++ replaceFrom pat repl (pat.length - 1) s
    else c :: replaceFrom pat repl 0 s

/-- `str::replace` for a non-empty pattern: every leftmost non-overlapping
occurrence of `pat` becomes `repl`. -/
def replace (s pat repl : Str) : Str := replaceFrom pat repl 0 s

theorem replaceFrom_skip (pat repl : Str) (u s : Str) :
    replaceFrom pat repl u.length (u ++ s) = replaceFrom pat repl 0 s := by
  induction u with
  | nil => rfl
  | cons c u ih => exact ih

@[simp] theorem replace_nil (pat repl : Str) : replace [] pat repl = [] := rfl

/-- An occurrence at the front. -/
theorem replace_append {pat : Str} (hpat : pat ≠ []) (s repl : Str) :
    replace (pat ++ s) pat repl = repl ++ replace s pat repl := by
  obtain ⟨c, u, rfl⟩ := List.exists_cons_of_ne_nil hpat
  have hfront : (c :: u).isPrefixOf (c :: (u ++ s)) = true :=
    List.isPrefixOf_iff_prefix.mpr (List.prefix_append (c :: u) s)
  rw [replace, List.cons_append, replaceFrom, if_pos hfront, List.length_cons,
    Nat.add_sub_cancel, replaceFrom_skip, replace]

/-- No occurrence at the front. -/
theorem replace_cons {pat : Str} {c : Char} {s : Str} (h : ¬ pat <+: c :: s) (repl : Str) :
    replace (c :: s) pat repl = c :: replace s pat repl := by
  rw [replace, replaceFrom, if_neg (by rwa [List.isPrefixOf_iff_prefix]), replace]

/-- A text in which no occurrence can start. -/
theorem replace_append_of_notMem {c : Char} {pat u : Str} (h : c ∉ u) (s repl : Str) :
    replace (u ++ s) (c :: pat) repl = u ++ replace s (c :: pat) repl := by
  induction u with
  | nil => rfl
  | cons d u ih =>
    rw [List.mem_cons, not_or] at h
    rw [List.cons_append, replace_cons (by rw [List.cons_prefix_cons]; exact fun hd => h.1 hd.1),
      ih h.2, List.cons_append]

/-- A pattern of one character. -/
theorem replace_singleton (c : Char) (s repl : Str) :
    replace s [c] repl = s.flatMap fun d => if d = c then repl else [d] := by
  induction s with
  | nil => rfl
  | cons d s ih =>
    rw [List.flatMap_cons]
    by_cases hd : d = c
    · subst hd
      rw [if_pos rfl, ← ih]
      exact replace_append (List.cons_ne_nil d []) s repl
    · rw [if_neg hd, replace_cons, ih, List.singleton_append]
      rw [List.cons_prefix_cons]
      exact fun h => hd h.1.symm

/-- `str::contains` of a text, in characters: the pattern begins at one of the places of the
text. -/
def contains (pat : Str) : Str → Bool
  | [] => pat.isEmpty
  | c :: s => pat.isPrefixOf (c :: s) || contains pat s

theorem contains_iff {pat s : Str} : contains pat s = true ↔ pat <:+: s := by
  induction s with
  | nil => rw [contains, List.isEmpty_iff, List.infix_nil]
  | cons c s ih =>
    rw [contains, Bool.or_eq_true, List.isPrefixOf_iff_prefix, ih, List.infix_cons_iff]

/-- A property of all characters of a text is decided on the text. -/
theorem all_eq_false_iff {p : Char → Bool} {s : Str} :
    (s.all fun c => !p c) = true ↔ ∀ c ∈ s, p c = false := by
  rw [List.all_eq_true]
  exact forall₂_congr fun c _ => by rw [Bool.not_eq_true']

/-- The characters with the Unicode property `White_Space`. -/
def isWhitespace (c : Char) : Bool :=
  (0x9 ≤ c.toNat && c.toNat ≤ 0xd) || (0x2000 ≤ c.toNat && c.toNat ≤ 0x200a) ||
    [0x20, 0x85, 0xa0, 0x1680, 0x2028, 0x2029, 0x202f, 0x205f, 0x3000].contains c.toNat

/-- `str::trim`: the white space at both ends is taken away, by the Unicode property. -/
def trim (s : Str) : Str :=
  ((s.dropWhile isWhitespace).reverse.dropWhile isWhitespace).reverse

/-- A line without its `\r`, as `BufRead::lines` returns it for a line that ended
in `\r\n`. -/
def stripCr (s : Str) : Str := if s.getLast? = some '\r' then s.dropLast else s

/-- `BufRead::lines` on a whole text: the last piece is a line only when the text
does not end in a newline, and then keeps a trailing `\r`. -/
def lines (text : Str) : List Str :=
  let pieces := text.splitOn '\n'
  pieces.dropLast.map stripCr ++ pieces.getLast?.toList.filter (· ≠ [])

/-- A line at the front of a text. -/
theorem lines_append {line : Str} (h : '\n' ∉ line) (rest : Str) :
    lines (line ++ '\n' :: rest) = stripCr line :: lines rest := by
  unfold lines
  rw [List.splitOn_append_cons_self_of_not_mem h]
  obtain ⟨piece, pieces, hpieces⟩ := List.exists_cons_of_ne_nil (List.splitOn_ne_nil '\n' rest)
  rw [hpieces]
  rfl

/-- A piece in front of the first separator. -/
theorem splitn_append_cons {sep : Char} {key : Str} (h : sep ∉ key) (n : ℕ) (value : Str) :
    splitn (n + 2) sep (key ++ sep :: value) = key :: splitn (n + 1) sep value := by
  have hkey : ∀ c ∈ key, decide (c ≠ sep) = true :=
    fun c hc => decide_eq_true fun heq => h (heq ▸ hc)
  have hdrop : (key ++ sep :: value).dropWhile (· ≠ sep) = sep :: value := by
    rw [List.dropWhile_append_of_pos hkey, List.dropWhile_cons_of_neg (by simp)]
  have htake : (key ++ sep :: value).takeWhile (· ≠ sep) = key := by
    rw [List.takeWhile_append_of_pos hkey, List.takeWhile_cons_of_neg (by simp), List.append_nil]
  rw [splitn, hdrop, htake]

/-- The two pieces around the first separator. -/
theorem splitn_two {sep : Char} {key : Str} (h : sep ∉ key) (value : Str) :
    splitn 2 sep (key ++ sep :: value) = [key, value] := splitn_append_cons h 0 value

/-- The first of two or more pieces ends at the first separator. -/
theorem eq_append_of_splitn {n : ℕ} {sep : Char} {s piece next : Str} {pieces : List Str}
    (h : splitn (n + 2) sep s = piece :: next :: pieces) :
    ∃ rest, s = piece ++ sep :: rest ∧ sep ∉ piece ∧ splitn (n + 1) sep rest = next :: pieces := by
  rw [splitn] at h
  split at h
  · cases h
  · next c post hpost =>
    obtain ⟨rfl, hrest⟩ := List.cons.inj h
    have hc : c = sep := by
      have hhead := List.head?_dropWhile_not (· ≠ sep) s
      rw [hpost, List.head?_cons] at hhead
      simpa using hhead
    subst hc
    refine ⟨post, ?_, fun hmem => ?_, hrest⟩
    · rw [← hpost, List.takeWhile_append_dropWhile]
    · simpa using List.mem_takeWhile_imp hmem

/-- Without a separator, there is a single piece. -/
theorem splitn_of_notMem {sep : Char} {s : Str} (h : sep ∉ s) (n : ℕ) :
    splitn (n + 1) sep s = [s] := by
  cases n with
  | zero => rfl
  | succ n =>
    have hdrop : s.dropWhile (· ≠ sep) = [] :=
      List.dropWhile_eq_nil_iff.mpr fun c hc => decide_eq_true fun heq => h (heq ▸ hc)
    rw [splitn, hdrop]

theorem mem_of_mem_splitn {n : ℕ} {sep c : Char} {s piece : Str} (hpiece : piece ∈ splitn n sep s)
    (hc : c ∈ piece) : c ∈ s := by
  fun_induction splitn n sep s with
  | case1 => cases hpiece
  | case2 | case3 =>
    rw [List.mem_singleton.mp hpiece] at hc
    exact hc
  | case4 n sep s separator post hpost ih =>
    rcases List.mem_cons.mp hpiece with rfl | hrest
    · exact (List.takeWhile_sublist _).mem hc
    · refine (List.dropWhile_sublist (· ≠ sep)).mem ?_
      rw [hpost]
      exact List.mem_cons_of_mem _ (ih hrest)

/-! ### Paths -/

/-- A non-empty piece of text without `/`: one component of a UTF-8 path. -/
structure Segment where
  /-- The text of the component. -/
  text : Str
  /-- A component is never empty. -/
  ne_nil : text ≠ []
  /-- The separator does not occur in a component. -/
  slash_notMem : '/' ∉ text
  deriving DecidableEq

/-- A name a directory can list: UTF-8 text, or bytes that are not UTF-8. -/
inductive FileName
  | utf8 (seg : Segment)
  | raw (bytes : List UInt8)
  deriving DecidableEq

/-- `OsStr::to_str`: the text of a name, if the bytes of the name are UTF-8. -/
def FileName.toStr : FileName → Option Str
  | .utf8 seg => some seg.text
  | .raw _ => none

/-- A relative path, component by component, from the folder that is cleaned; the components may not
be text. -/
abbrev Path := List FileName

/-- `Path::to_str`: the components joined by `/`, when all of them are UTF-8. -/
def Path.toStr (path : Path) : Option Str :=
  (path.mapM FileName.toStr).map (['/'].intercalate ·)

theorem mapM_toStr_utf8 (segs : List Segment) :
    (segs.map FileName.utf8).mapM FileName.toStr = some (segs.map Segment.text) := by
  induction segs with
  | nil => rfl
  | cons seg segs ih => simp [List.mapM_cons, ih, FileName.toStr]

/-- A path whose components are all UTF-8 is text. -/
theorem Path.toStr_utf8 (segs : List Segment) :
    Path.toStr (segs.map FileName.utf8) = some (['/'].intercalate (segs.map Segment.text)) := by
  rw [Path.toStr, mapM_toStr_utf8]
  rfl

/-- A path with a component that is not UTF-8 is no text. -/
theorem Path.toStr_eq_none {path : Path} (h : ∀ segs : List Segment, path ≠ segs.map .utf8) :
    Path.toStr path = none := by
  have key : ∀ path : Path, path.mapM FileName.toStr ≠ none →
      ∃ segs : List Segment, path = segs.map .utf8 := by
    intro path
    induction path with
    | nil => intro _; exact ⟨[], rfl⟩
    | cons name path ih =>
      intro hne
      cases name with
      | raw bytes => simp [List.mapM_cons, FileName.toStr] at hne
      | utf8 seg =>
        obtain ⟨segs, rfl⟩ := ih (by
          intro hnone
          simp [List.mapM_cons, FileName.toStr, hnone] at hne)
        exact ⟨seg :: segs, rfl⟩
  by_contra hne
  obtain ⟨segs, rfl⟩ := key path (by
    intro hnone
    simp [Path.toStr, hnone] at hne)
  exact h segs rfl

/-- Splitting the text of a path at `/` gives back its components. -/
theorem splitOn_intercalate_text {segs : List Segment} (hne : segs ≠ []) :
    (['/'].intercalate (segs.map Segment.text)).splitOn '/' = segs.map Segment.text := by
  refine List.splitOn_intercalate '/' ?_ (by simpa using hne)
  intro l hl
  obtain ⟨seg, -, rfl⟩ := List.mem_map.mp hl
  exact seg.slash_notMem

end Lapas
