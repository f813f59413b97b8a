import Lapas.Rust

/-!
# Filling in a template

`configureStream` hands a text through one `awk` program for each option.  The program goes over
the records of the text, and keeps in `start` where the rest of the record begins that it still
searches.

## Main definitions

* `index`, `substr`, `records` — what the program uses of `awk`.
* `awkLoop`, `awkProgram`, `configureStream` — the program, and the function around it.
* `substituteLines` — what an option is to do with a text.

## Main results

* `awkLoop_eq` — the loop replaces every occurrence, and it ends.
* `configureStream_eq` — so does the function, for one option after another; and where there is an
  option, the last line ends in a newline.
-/

namespace Lapas
namespace Install

/-! ### `awk` -/

/-- `index(s, t)`: where `t` occurs first in `s`, from 1 on; 0 if it does not. -/
def index (s t : Str) : ℕ :=
  match s with
  | [] => 0
  | c :: s => if t.isPrefixOf (c :: s) then 1 else if index s t = 0 then 0 else index s t + 1

/-- `substr(s, m, n)`, for a position `m` from 1 on. -/
def substr (s : Str) (m n : ℕ) : Str := (s.drop (m - 1)).take n

/-- `substr(s, m)` of `awk`: the text from the position `m` on, where the first character has the
position one. -/
def substrFrom (s : Str) (m : ℕ) : Str := s.drop (m - 1)

/-- The lines of a text; the last one may end with the text. -/
def records (text : Str) : List Str :=
  let pieces := text.splitOn '\n'
  if pieces.getLast? = some [] then pieces.dropLast else pieces

/-- `while (i=index(line, varKey))`; `none` is a loop that has not ended yet. -/
def awkLoop (record varKey varValue : Str) : ℕ → ℕ → Str → Str → Option Str
  | 0, _, _, _ => none
  | fuel + 1, start, line, newline =>
    let i := index line varKey
    if i = 0 then some (newline ++ line)
    else
      let newline := newline ++ substr line 1 (i - 1) ++ varValue
      let start := start + (i + varKey.length - 1)
      let line := substrFrom record start
      awkLoop record varKey varValue fuel start line newline

/-- The program on one record: a record without the key is printed as it is, and else the loop
replaces every occurrence. -/
def awkRecord (fuel : ℕ) (varKey varValue record : Str) : Option Str :=
  if index record varKey = 0 then some record
  else awkLoop record varKey varValue fuel 1 record []

/-- The program of `awk` for one variable: it is run on each record, and what it prints ends in a
newline, also for the last one. -/
def awkProgram (fuel : ℕ) (varKey varValue text : Str) : Option Str :=
  ((records text).mapM (awkRecord fuel varKey varValue)).map (·.flatMap (· ++ ['\n']))

/-! ### The function -/

/-- `${keyVal%%=*}`: what is in front of the first equals sign, or all of it when there is none. -/
def optionKey (keyVal : Str) : Str := keyVal.takeWhile (· ≠ '=')

/-- `${keyVal#*=}`: what is behind the first equals sign, or all of it when there is none. -/
def optionValue (keyVal : Str) : Str :=
  match keyVal.dropWhile (· ≠ '=') with
  | [] => keyVal
  | _ :: value => value

/-- The text that stands for an option in a template. -/
def placeholder (name : Str) : Str := "@@".toList ++ name ++ "@@".toList

/-- `configureStream`; `assign` is what `awk -v` makes of the text of a value. -/
def configureStream (assign : Str → Str) (fuel : ℕ) : List Str → Str → Option Str
  | [], text => some text
  | keyVal :: options, text => do
    let text ← awkProgram fuel (assign (placeholder (optionKey keyVal)))
      (assign (optionValue keyVal)) text
    configureStream assign fuel options text

/-! ### What it is for -/

/-- Every line of a text with the occurrences replaced, from the left. -/
def substituteLines (key value text : Str) : Str :=
  ['\n'].intercalate ((text.splitOn '\n').map fun line => replace line key value)

/-- The text with its last line ended. -/
def terminated (text : Str) : Str :=
  if text = [] ∨ text.getLast? = some '\n' then text else text ++ ['\n']

/-- One option after another, as the loop of the script pipes the text through `awk`; what one
inserts the next may replace. -/
def substituteAll (options : List (Str × Str)) (text : Str) : Str :=
  options.foldl (fun text (name, value) => substituteLines (placeholder name) value text) text

/-- `NAME=VALUE`, the text that the callers pass for an option; the value may have further equals
signs. -/
def optionText : Str × Str → Str
  | (name, value) => name ++ '=' :: value

/-! ### The loop -/

section

variable {key : Str}

/-- Without an occurrence, nothing is replaced. -/
theorem replace_of_index_eq_zero {s : Str} (h : index s key = 0) (value : Str) :
    replace s key value = s := by
  induction s with
  | nil => rfl
  | cons c s ih =>
    rw [index] at h
    split at h
    · cases h
    · next hfront =>
      split at h
      · next hrest =>
        rw [replace_cons (by rwa [List.isPrefixOf_iff_prefix] at hfront), ih hrest]
      · cases h

variable (hkey : key ≠ [])
include hkey

/-- The first occurrence is replaced, and then those in the rest. -/
theorem exists_of_index_ne_zero {s : Str} (h : index s key ≠ 0) : ∃ before rest,
    s = before ++ key ++ rest ∧ index s key = before.length + 1 ∧
      ∀ value, replace s key value = before ++ value ++ replace rest key value := by
  induction s with
  | nil => exact absurd rfl h
  | cons c s ih =>
    by_cases hfront : key.isPrefixOf (c :: s)
    · obtain ⟨rest, hrest⟩ := List.isPrefixOf_iff_prefix.mp hfront
      refine ⟨[], rest, hrest.symm, ?_, fun value => ?_⟩
      · rw [index, if_pos hfront, List.length_nil]
      · rw [← hrest, replace_append hkey, List.nil_append]
    · rw [index, if_neg hfront] at h ⊢
      by_cases hrest : index s key = 0
      · exact absurd (if_pos hrest) h
      · obtain ⟨before, rest, rfl, hindex, hreplace⟩ := ih hrest
        refine ⟨c :: before, rest, rfl, ?_, fun value => ?_⟩
        · rw [if_neg hrest, hindex, List.length_cons]
        · rw [replace_cons (by rwa [List.isPrefixOf_iff_prefix] at hfront), hreplace]
          rfl

/-- The loop: `line` is the record from `start` on, and is shorter after every round. -/
theorem awkLoop_eq {record value : Str} {fuel start : ℕ} {line newline : Str} (hstart : 1 ≤ start)
    (hline : record.drop (start - 1) = line) (hfuel : line.length < fuel) :
    awkLoop record key value fuel start line newline =
      some (newline ++ replace line key value) := by
  induction fuel generalizing start line newline with
  | zero => exact absurd hfuel (Nat.not_lt_zero _)
  | succ fuel ih =>
    rw [awkLoop]
    by_cases hindex : index line key = 0
    · rw [if_pos hindex, replace_of_index_eq_zero hindex]
    · obtain ⟨before, rest, hparts, hposition, hreplace⟩ := exists_of_index_ne_zero hkey hindex
      have hpos : 0 < key.length := List.length_pos_iff.mpr hkey
      have hlength := congrArg List.length hparts
      simp only [List.length_append] at hlength
      -- the rest of the line is the rest of the record
      have hrest : substrFrom record (start + (index line key + key.length - 1)) = rest := by
        have hsum : start + (index line key + key.length - 1) - 1 =
            (start - 1) + (before ++ key).length := by
          rw [hposition, List.length_append]
          omega
        rw [substrFrom, hsum, ← List.drop_drop, hline, hparts, List.drop_left]
      have hbefore : substr line 1 (index line key - 1) = before := by
        rw [substr, hposition, Nat.add_sub_cancel, Nat.sub_self, List.drop_zero, hparts,
          List.append_assoc, List.take_left]
      rw [if_neg hindex]
      simp only [hrest, hbefore]
      rw [ih (by omega) hrest (by omega), hreplace]
      simp only [List.append_assoc]

theorem awkRecord_eq {value record : Str} {fuel : ℕ} (hfuel : record.length < fuel) :
    awkRecord fuel key value record = some (replace record key value) := by
  rw [awkRecord]
  split
  · next hindex => rw [replace_of_index_eq_zero hindex]
  · exact awkLoop_eq hkey le_rfl rfl hfuel

end

/-! ### Lines -/

theorem intercalate_concat_nil (l : List Str) :
    ['\n'].intercalate (l ++ [[]]) = l.flatMap (· ++ ['\n']) := by
  induction l with
  | nil => rfl
  | cons line l ih =>
    obtain ⟨next, rest, hnext⟩ : ∃ next rest, l ++ [[]] = next :: rest :=
      List.exists_cons_of_ne_nil (by simp)
    rw [List.cons_append, hnext, List.intercalate_cons_cons, ← hnext, ih, List.flatMap_cons,
      List.append_assoc]

/-- A text whose last line is ended. -/
def Ended (text : Str) : Prop := text = [] ∨ text.getLast? = some '\n'

theorem ended_flatMap (l : List Str) : Ended (l.flatMap (· ++ ['\n'])) := by
  rcases List.eq_nil_or_concat l with rfl | ⟨init, last, rfl⟩
  · exact .inl rfl
  · right
    simp

theorem getLast?_splitOn_iff (text : Str) :
    (text.splitOn '\n').getLast? = some [] ↔ Ended text := by
  constructor
  · intro h
    obtain ⟨init, hinit⟩ := List.getLast?_eq_some_iff.mp h
    have htext : ['\n'].intercalate (text.splitOn '\n') = text := List.intercalate_splitOn '\n'
    rw [hinit, intercalate_concat_nil] at htext
    rw [← htext]
    exact ended_flatMap init
  · rintro (rfl | h)
    · rfl
    · obtain ⟨init, rfl⟩ := List.getLast?_eq_some_iff.mp h
      rw [List.splitOn_append_cons_self]
      simp

theorem terminated_of_ended {text : Str} (h : Ended text) : terminated text = text := if_pos h

/-- The records are the lines of the text with its last line ended. -/
theorem splitOn_terminated (text : Str) :
    (terminated text).splitOn '\n' = records text ++ [[]] := by
  by_cases h : Ended text
  · have hlast := (getLast?_splitOn_iff text).mpr h
    obtain ⟨init, hinit⟩ := List.getLast?_eq_some_iff.mp hlast
    rw [terminated_of_ended h, records]
    simp only [if_pos hlast]
    rw [hinit, List.dropLast_concat]
  · have hlast : ¬ (text.splitOn '\n').getLast? = some [] :=
      fun hlast => h ((getLast?_splitOn_iff text).mp hlast)
    have hterminated : terminated text = text ++ ['\n'] := if_neg h
    rw [hterminated, List.splitOn_append_cons_self, records]
    simp only [if_neg hlast]
    rfl

theorem substituteLines_terminated (key value text : Str) :
    substituteLines key value (terminated text) =
      (records text).flatMap (fun line => replace line key value ++ ['\n']) := by
  rw [substituteLines, splitOn_terminated, List.map_append, List.map_singleton, replace_nil,
    intercalate_concat_nil, List.flatMap_map]

theorem ended_substituteLines (key value text : Str) :
    Ended (substituteLines key value (terminated text)) := by
  have h := ended_flatMap ((records text).map (replace · key value))
  rwa [List.flatMap_map, ← substituteLines_terminated] at h

theorem mapM_eq_some_map {α β : Type} {f : α → Option β} {g : α → β} {l : List α}
    (h : ∀ a ∈ l, f a = some (g a)) : l.mapM f = some (l.map g) := by
  induction l with
  | nil => rfl
  | cons a l ih =>
    rw [List.forall_mem_cons] at h
    rw [List.mapM_cons, h.1, ih h.2]
    rfl

/-- The program ends on every text, and replaces in every line. -/
theorem awkProgram_eq {key : Str} (hkey : key ≠ []) (value text : Str) {fuel : ℕ}
    (hfuel : (records text).flatten.length < fuel) :
    awkProgram fuel key value text = some (substituteLines key value (terminated text)) := by
  have hrecord : ∀ record ∈ records text,
      awkRecord fuel key value record = some (replace record key value) := by
    intro record hmem
    have hlength := (List.sublist_flatten_of_mem hmem).length_le
    exact awkRecord_eq hkey (by omega)
  rw [awkProgram, mapM_eq_some_map hrecord, substituteLines_terminated, Option.map_some,
    List.flatMap_map]

/-! ### Options -/

theorem optionKey_text {name : Str} (h : '=' ∉ name) (value : Str) :
    optionKey (optionText (name, value)) = name := by
  have hname : ∀ c ∈ name, decide (c ≠ '=') = true :=
    fun c hc => decide_eq_true fun heq => h (heq ▸ hc)
  rw [optionKey, optionText, List.takeWhile_append_of_pos hname,
    List.takeWhile_cons_of_neg (by simp), List.append_nil]

theorem optionValue_text {name : Str} (h : '=' ∉ name) (value : Str) :
    optionValue (optionText (name, value)) = value := by
  have hname : ∀ c ∈ name, decide (c ≠ '=') = true :=
    fun c hc => decide_eq_true fun heq => h (heq ▸ hc)
  rw [optionValue, optionText, List.dropWhile_append_of_pos hname,
    List.dropWhile_cons_of_neg (by simp)]

/-- **Filling in a template**: with enough fuel, which is to say that it ends, the function outputs
the text with one option after another substituted in every line, from the left; where there is an
option, the last line is ended. -/
theorem configureStream_eq {assign : Str → Str} (hassign : ∀ s, '\\' ∉ s → assign s = s)
    {options : List (Str × Str)}
    (hoptions : ∀ option ∈ options, '=' ∉ option.1 ∧ '\\' ∉ option.1 ∧ '\\' ∉ option.2)
    (text : Str) : ∃ enough, ∀ fuel, enough ≤ fuel →
      configureStream assign fuel (options.map optionText) text =
        some (substituteAll options (if options = [] then text else terminated text)) := by
  induction options generalizing text with
  | nil => exact ⟨0, fun _ _ => rfl⟩
  | cons option options ih =>
    obtain ⟨name, value⟩ := option
    obtain ⟨⟨heq, hname, hvalue⟩, hrest⟩ := List.forall_mem_cons.mp hoptions
    obtain ⟨enough, henough⟩ :=
      ih hrest (substituteLines (placeholder name) value (terminated text))
    refine ⟨max enough ((records text).flatten.length + 1), fun fuel hfuel => ?_⟩
    have hkey : placeholder name ≠ [] := List.cons_ne_nil _ _
    have hplain : '\\' ∉ placeholder name := by
      simp only [placeholder, List.mem_append, not_or]
      exact ⟨⟨by decide, hname⟩, by decide⟩
    rw [List.map_cons, configureStream, optionKey_text heq, optionValue_text heq, hassign _ hplain,
      hassign _ hvalue, awkProgram_eq hkey value text (by omega)]
    refine (henough fuel (by omega)).trans ?_
    -- what the program puts out is ended
    rw [terminated_of_ended (ended_substituteLines _ _ _), ite_self]
    rfl

/-- Adjacent occurrences, a value that holds its own placeholder, and one with `=`. -/
theorem configureStream_eq_adjacent : ∃ enough, ∀ fuel, enough ≤ fuel →
    configureStream id fuel ["A=<@@A@@>".toList, "B=b=".toList]
        "1@@A@@@@A@@\n@@B@@ @@C@@\n".toList =
      some "1<@@A@@><@@A@@>\nb= @@C@@\n".toList := by
  obtain ⟨enough, henough⟩ := @configureStream_eq id (fun _ _ => rfl)
    [("A".toList, "<@@A@@>".toList), ("B".toList, "b=".toList)] (by decide)
    "1@@A@@@@A@@\n@@B@@ @@C@@\n".toList
  refine ⟨enough, fun fuel hfuel => (henough fuel hfuel).trans ?_⟩
  decide

/-- A line that is not ended is ended, though nothing is replaced in it. -/
theorem configureStream_unterminated :
    (∀ fuel, configureStream id fuel ["A=x".toList] "abc".toList = some "abc\n".toList) ∧
      substituteAll [("A".toList, "x".toList)] "abc".toList = "abc".toList :=
  ⟨fun _ => rfl, by decide⟩

end Install
end Lapas
