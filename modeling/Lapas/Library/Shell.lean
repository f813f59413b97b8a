import Lapas.Rust
import Mathlib.Data.List.Forall2

/-!
# The expansions of the shell

What a word becomes before a command sees it, and what `echo` writes.  The separators of
fields are white space: a run of them counts as one, and at the ends they are dropped.

## Main definitions

* `splitWords`, `expandPathname`, `expand` — an expansion that is not quoted.
* `LeftAlone` — a text without separators and without patterns.
* `quotedAt` — an array in double quotes.
* `echo` — the command of that name.
* `grepMatches` — `grep`, for patterns in which only dots are special.
* `Quoting`, `assigned` — the value that an assignment holds literally.
* `Verbatim`, `Unexpanded` — texts that stand for themselves in double quotes.

## Main results

* `expand_of_plain`, `flatMap_expand` — such texts are left alone.
* `mem_quotedAt` — the words of an array in double quotes.
* `grepMatches_of_notMem`, `grepMatches_dot_iff` — what a pattern with at most one dot finds.
* `assigned_double_iff` — **when an assignment in double quotes holds the text between them.**
-/

namespace Lapas
namespace Shell

/-! ### Words -/

/-- Word splitting: the text is cut at the characters of `IFS`, and empty words are dropped. -/
def splitWords (ifs : Char → Bool) (text : Str) : List Str :=
  (text.splitOnP ifs).filter (· ≠ [])

/-- The characters that make a word a pattern. -/
def isPattern (c : Char) : Bool := c = '*' || c = '?' || c = '['

/-- Pathname expansion; `glob` returns the names that match.  A pattern without a match is left
alone. -/
def expandPathname (glob : Str → List Str) (word : Str) : List Str :=
  if word.any isPattern then
    match glob word with
    | [] => [word]
    | names => names
  else [word]

/-- An expansion outside of quotes: its text is split into words, and each word that has a pattern
is globbed. -/
def expand (ifs : Char → Bool) (glob : Str → List Str) (text : Str) : List Str :=
  (splitWords ifs text).flatMap (expandPathname glob)

/-- The words of `"before${array[@]}"`: one for each element, and the text in front goes to the
first one only. -/
def quotedAt (before : Str) : List Str → List Str
  | [] => [before]
  | element :: elements => (before ++ element) :: elements

/-! ### Echo -/

/-- `echo` takes such words as options instead of printing them: a dash and some of three
letters. -/
def isEchoOption : Str → Bool
  | '-' :: letters => letters ≠ [] && letters.all (['n', 'e', 'E'].contains ·)
  | _ => false

/-- `echo word`: the word and a newline, unless the word is taken as an option. -/
def echo (word : Str) : Str :=
  if isEchoOption word then if word.contains 'n' then [] else ['\n'] else word ++ ['\n']

/-- `echo -n word`: the word without a newline, unless the word is taken as an option. -/
def echoN (word : Str) : Str := if isEchoOption word then [] else word

/-! ### Plain words -/

section

variable {ifs : Char → Bool} {text : Str}

theorem splitWords_of_forall (h : ∀ c ∈ text, ifs c = false) (hne : text ≠ []) :
    splitWords ifs text = [text] := by
  rw [splitWords, List.splitOnP_eq_singleton h]
  exact List.filter_cons_of_pos (decide_eq_true hne)

/-- An empty word disappears. -/
@[simp] theorem expand_nil (glob : Str → List Str) : expand ifs glob [] = [] := by
  simp [expand, splitWords]

/-- A word that is neither split nor a pattern is left alone. -/
theorem expand_of_plain (glob : Str → List Str) (hifs : ∀ c ∈ text, ifs c = false)
    (hpattern : ∀ c ∈ text, isPattern c = false) (hne : text ≠ []) :
    expand ifs glob text = [text] := by
  have hany : ¬ text.any isPattern = true := by
    rw [List.any_eq_true]
    rintro ⟨c, hc, hpos⟩
    exact absurd ((hpattern c hc).symm.trans hpos) Bool.false_ne_true
  rw [expand, splitWords_of_forall hifs hne, List.flatMap_singleton, expandPathname, if_neg hany]

/-- Words that an expansion leaves alone: not empty, with nothing at which it is split or
globbed. -/
def LeftAlone (ifs : Char → Bool) (text : Str) : Prop :=
  text ≠ [] ∧ ∀ c ∈ text, ifs c = false ∧ isPattern c = false

instance (ifs : Char → Bool) (text : Str) : Decidable (LeftAlone ifs text) :=
  decidable_of_iff (text ≠ [] ∧ (text.all fun c => !ifs c && !isPattern c) = true) (by
    simp [LeftAlone])

theorem LeftAlone.append {text' : Str} (h : LeftAlone ifs text) (h' : LeftAlone ifs text') :
    LeftAlone ifs (text ++ text') :=
  ⟨List.append_ne_nil_of_left_ne_nil h.1 _, fun c hc =>
    (List.mem_append.mp hc).elim (h.2 c) (h'.2 c)⟩

theorem expand_of_leftAlone (glob : Str → List Str) (h : LeftAlone ifs text) :
    expand ifs glob text = [text] :=
  expand_of_plain glob (fun c hc => (h.2 c hc).1) (fun c hc => (h.2 c hc).2) h.1

theorem flatMap_expand (glob : Str → List Str) {words : List Str}
    (h : ∀ word ∈ words, LeftAlone ifs word) : words.flatMap (expand ifs glob) = words := by
  induction words with
  | nil => rfl
  | cons word words ih =>
    rw [List.flatMap_cons, expand_of_leftAlone glob (h word List.mem_cons_self),
      ih fun w hw => h w (List.mem_cons_of_mem _ hw)]
    rfl

theorem mem_quotedAt {before word : Str} {elements : List Str}
    (h : word ∈ quotedAt before elements) :
    word = before ∨ (∃ element ∈ elements, word = before ++ element) ∨ word ∈ elements := by
  cases elements with
  | nil => exact Or.inl (List.mem_singleton.mp h)
  | cons element elements =>
    refine Or.inr ((List.mem_cons.mp h).imp (fun heq => ?_) (List.mem_cons_of_mem _))
    exact ⟨element, List.mem_cons_self, heq⟩

end

/-! ### Grep -/

/-- Whether a text begins with what a basic regular expression stands for, where dots are the
only special characters of the expression: a dot stands for any character. -/
def grepAt : Str → Str → Bool
  | [], _ => true
  | _ :: _, [] => false
  | p :: pattern, c :: text => (p = '.' || p = c) && grepAt pattern text

/-- Whether `grep pattern` prints a line, for such patterns. -/
def grepMatches (pattern : Str) : Str → Bool
  | [] => grepAt pattern []
  | c :: line => grepAt pattern (c :: line) || grepMatches pattern line

/-- The texts that a pattern stands for. -/
def StandsFor : Str → Str → Prop := List.Forall₂ fun p c => p = '.' ∨ p = c

section

variable {pattern line : Str}

theorem grepAt_iff :
    grepAt pattern line = true ↔ ∃ text, StandsFor pattern text ∧ text <+: line := by
  induction pattern generalizing line with
  | nil => exact iff_of_true rfl ⟨[], .nil, List.nil_prefix⟩
  | cons p pattern ih =>
    cases line with
    | nil =>
      refine iff_of_false Bool.false_ne_true ?_
      rintro ⟨text, hstands, hprefix⟩
      rw [List.prefix_nil.mp hprefix] at hstands
      cases hstands
    | cons c line =>
      rw [grepAt, Bool.and_eq_true, Bool.or_eq_true, decide_eq_true_iff, decide_eq_true_iff, ih]
      constructor
      · rintro ⟨hfirst, text, hstands, hprefix⟩
        exact ⟨c :: text, .cons hfirst hstands, List.cons_prefix_cons.mpr ⟨rfl, hprefix⟩⟩
      · rintro ⟨text, hstands, hprefix⟩
        cases hstands with
        | cons hfirst hstands =>
          obtain ⟨rfl, hrest⟩ := List.cons_prefix_cons.mp hprefix
          exact ⟨hfirst, _, hstands, hrest⟩

theorem grepMatches_iff :
    grepMatches pattern line = true ↔ ∃ text, StandsFor pattern text ∧ text <:+: line := by
  induction line with
  | nil => simp only [grepMatches, grepAt_iff, List.prefix_nil, List.infix_nil]
  | cons c line ih =>
    simp only [grepMatches, Bool.or_eq_true, grepAt_iff, ih, List.infix_cons_iff, and_or_left,
      exists_or]

/-- What a longer pattern finds, its beginning finds as well. -/
theorem grepMatches_of_append {rest : Str} (h : grepMatches (pattern ++ rest) line = true) :
    grepMatches pattern line = true := by
  obtain ⟨text, hstands, hinfix⟩ := grepMatches_iff.mp h
  have htake := List.forall₂_take pattern.length hstands
  rw [List.take_left] at htake
  exact grepMatches_iff.mpr ⟨_, htake, (List.take_prefix _ _).isInfix.trans hinfix⟩

/-- Without dots a pattern stands for itself. -/
theorem standsFor_iff_of_notMem (h : '.' ∉ pattern) {text : Str} :
    StandsFor pattern text ↔ text = pattern := by
  induction pattern generalizing text with
  | nil => exact List.forall₂_nil_left_iff
  | cons p pattern ih =>
    rw [List.mem_cons, not_or] at h
    rw [StandsFor, List.forall₂_cons_left_iff]
    constructor
    · rintro ⟨c, text, hfirst | rfl, hstands, rfl⟩
      · exact absurd hfirst.symm h.1
      · rw [(ih h.2).mp hstands]
    · rintro rfl
      exact ⟨p, pattern, Or.inr rfl, (ih h.2).mpr rfl, rfl⟩

theorem grepMatches_of_notMem (h : '.' ∉ pattern) :
    grepMatches pattern line = contains pattern line := by
  rw [Bool.eq_iff_iff, grepMatches_iff, contains_iff]
  simp only [standsFor_iff_of_notMem h, exists_eq_left]

theorem standsFor_dot_iff {before after text : Str} (hbefore : '.' ∉ before)
    (hafter : '.' ∉ after) :
    StandsFor (before ++ '.' :: after) text ↔ ∃ c, text = before ++ c :: after := by
  induction before generalizing text with
  | nil =>
    rw [List.nil_append, StandsFor, List.forall₂_cons_left_iff]
    constructor
    · rintro ⟨c, text, -, hstands, rfl⟩
      exact ⟨c, congrArg _ ((standsFor_iff_of_notMem hafter).mp hstands)⟩
    · rintro ⟨c, rfl⟩
      exact ⟨c, after, Or.inl rfl, (standsFor_iff_of_notMem hafter).mpr rfl, rfl⟩
  | cons p before ih =>
    rw [List.mem_cons, not_or] at hbefore
    rw [List.cons_append, StandsFor, List.forall₂_cons_left_iff]
    constructor
    · rintro ⟨c, text, hfirst | rfl, hstands, rfl⟩
      · exact absurd hfirst.symm hbefore.1
      · obtain ⟨c, rfl⟩ := (ih hbefore.2).mp hstands
        exact ⟨c, rfl⟩
    · rintro ⟨c, rfl⟩
      exact ⟨p, _, Or.inr rfl, (ih hbefore.2).mpr ⟨c, rfl⟩, rfl⟩

/-- A pattern with one dot finds the texts with one character in its place. -/
theorem grepMatches_dot_iff {before after : Str} (hbefore : '.' ∉ before) (hafter : '.' ∉ after) :
    grepMatches (before ++ '.' :: after) line = true ↔ ∃ c, before ++ c :: after <:+: line := by
  rw [grepMatches_iff]
  simp only [standsFor_dot_iff hbefore hafter]
  constructor
  · rintro ⟨text, ⟨c, rfl⟩, hinfix⟩
    exact ⟨c, hinfix⟩
  · rintro ⟨c, hinfix⟩
    exact ⟨_, ⟨c, rfl⟩, hinfix⟩

end

/-! ### Assignments -/

/-- In double quotes a backslash in front of one of these characters is removed, and makes the
character stand for itself. -/
def escapable : Str := "\"\\$`".toList

/-- A dollar sign in front of one of these characters begins an expansion: a name, a position, a
special parameter, or something in brackets. -/
def startsExpansion (c : Char) : Bool :=
  c.isAlpha || c.isDigit || "_@*#?-$!\x7b([".toList.contains c

/-- Outside of quotes one of these characters ends a word, or is not taken literally. -/
def isUnquotedSpecial (c : Char) : Bool := " \t|&;()<>`~".toList.contains c

/-- Where the shell is in an assignment. -/
inductive Quoting
  | unquoted
  /-- Behind a backslash outside of quotes. -/
  | escaped
  | single
  | double
  /-- Behind a backslash in double quotes. -/
  | doubleEscaped
  deriving DecidableEq

/-- The value of an assignment that is the only line of a file, behind the equals sign.  There is
`none` where the text is not an assignment of a literal value: where something is expanded, so
that the value depends on more than the file, where the word ends in front of the end of the
line, or where a quote is left open. -/
def assigned : Quoting → Str → Option Str
  | .unquoted, [] => some []
  | _, [] => none
  | .unquoted, c :: text =>
    if c = '\n' then if text = [] then some [] else none
    else if c = '"' then assigned .double text
    else if c = '\'' then assigned .single text
    else if c = '\\' then assigned .escaped text
    else if isUnquotedSpecial c then none
    else if c = '$' ∧ text.head?.any (fun d => startsExpansion d || d = '"' || d = '\'') then none
    else (assigned .unquoted text).map (c :: ·)
  | .escaped, c :: text =>
    -- a line that ends in a backslash goes on
    if c = '\n' then assigned .unquoted text else (assigned .unquoted text).map (c :: ·)
  | .single, c :: text =>
    if c = '\'' then assigned .unquoted text else (assigned .single text).map (c :: ·)
  | .double, c :: text =>
    if c = '"' then assigned .unquoted text
    else if c = '\\' then assigned .doubleEscaped text
    else if c = '`' then none
    else if c = '$' ∧ text.head?.any startsExpansion then none
    else (assigned .double text).map (c :: ·)
  | .doubleEscaped, c :: text =>
    if c ∈ escapable then (assigned .double text).map (c :: ·)
    else if c = '\n' then assigned .double text
    else ((assigned .double text).map (c :: ·)).map ('\\' :: ·)

/-- No quote, and no backslash in front of a character that it would quote; the closing quote
is one. -/
def Verbatim (text : Str) : Prop :=
  '"' ∉ text ∧ ∀ c ∈ escapable, ¬ ['\\', c] <:+: text ++ ['"']

/-- Nothing is expanded in double quotes: there is no command in backticks, and no dollar sign
begins an expansion. -/
def Unexpanded (text : Str) : Prop :=
  '`' ∉ text ∧ ∀ c ∈ text, startsExpansion c = true → ¬ ['$', c] <:+: text

-- the decision for an infix that there is without further imports
instance (text : Str) : Decidable (Verbatim text) :=
  have decide (c : Char) : Decidable (¬ ['\\', c] <:+: text ++ ['"']) :=
    @instDecidableNot _ (List.instDecidableIsInfixOfDecidableEq _ _)
  @instDecidableAnd _ _ inferInstance (@List.decidableBAll _ _ decide escapable)

instance (text : Str) : Decidable (Unexpanded text) :=
  have decide (c : Char) : Decidable (startsExpansion c = true → ¬ ['$', c] <:+: text) :=
    @instDecidableForall _ _ inferInstance
      (@instDecidableNot _ (List.instDecidableIsInfixOfDecidableEq _ _))
  @instDecidableAnd _ _ inferInstance (@List.decidableBAll _ _ decide text)

section

variable {text value : Str}

/-- Two characters next to each other stand at the beginning, or further behind. -/
theorem infix_pair_cons {c d e : Char} :
    [d, e] <:+: c :: text ↔ (c = d ∧ text.head? = some e) ∨ [d, e] <:+: text := by
  rw [List.infix_cons_iff, List.cons_prefix_cons, List.singleton_prefix_iff_head?_eq_some, eq_comm]

theorem verbatim_cons {c : Char} :
    Verbatim (c :: text) ↔ c ≠ '"' ∧
      (c = '\\' → ∀ d ∈ escapable, (text ++ ['"']).head? ≠ some d) ∧ Verbatim text := by
  unfold Verbatim
  simp only [List.cons_append, infix_pair_cons, List.mem_cons, not_or, not_and, ne_eq]
  constructor
  · rintro ⟨⟨hc, hquote⟩, h⟩
    exact ⟨Ne.symm hc, fun heq d hd => (h d hd).1 heq, hquote, fun d hd => (h d hd).2⟩
  · rintro ⟨hc, hbackslash, hquote, h⟩
    exact ⟨⟨Ne.symm hc, hquote⟩, fun d hd => ⟨fun heq => hbackslash heq d hd, h d hd⟩⟩

theorem unexpanded_iff : Unexpanded text ↔
    '`' ∉ text ∧ ∀ c, startsExpansion c = true → ¬ ['$', c] <:+: text := by
  refine and_congr_right fun _ => ⟨fun h c hc hpair => ?_, fun h c _ => h c⟩
  exact h c (hpair.subset (List.mem_cons_of_mem _ List.mem_cons_self)) hc hpair

theorem unexpanded_cons {c : Char} :
    Unexpanded (c :: text) ↔ c ≠ '`' ∧
      (c = '$' → text.head?.any startsExpansion = false) ∧ Unexpanded text := by
  have hany : text.head?.any startsExpansion = false ↔
      ∀ d, startsExpansion d = true → text.head? ≠ some d := by
    cases text.head? with
    | none => simp
    | some e =>
      rw [Option.any_some, Bool.eq_false_iff]
      constructor
      · intro he d hd heq
        exact he (Option.some.inj heq ▸ hd)
      · exact fun h he => h e he rfl
  rw [unexpanded_iff, unexpanded_iff, hany]
  simp only [infix_pair_cons, List.mem_cons, not_or, not_and, ne_eq]
  constructor
  · rintro ⟨⟨hc, hbacktick⟩, h⟩
    exact ⟨Ne.symm hc, fun heq d hd => (h d hd).1 heq, hbacktick, fun d hd => (h d hd).2⟩
  · rintro ⟨hc, hdollar, hbacktick, h⟩
    exact ⟨⟨Ne.symm hc, hbacktick⟩, fun d hd => ⟨fun heq => hdollar heq d hd, h d hd⟩⟩

theorem map_cons_eq_some {read : Option Str} {c : Char} {value : Str}
    (h : read.map (c :: ·) = some value) : ∃ value', value = c :: value' ∧ read = some value' := by
  obtain ⟨value', hread, rfl⟩ := Option.map_eq_some_iff.mp h
  exact ⟨value', rfl, hread⟩

/-- The backslashes that have been read and that the value may still have to hold. -/
def Quoting.pending : Quoting → ℕ
  | .escaped => 1
  | .doubleEscaped => 1
  | _ => 0

/-- In front of a quote and the end of the line stands a text that is no shorter than the value:
the quote closes another one, or is escaped itself. -/
theorem length_le_of_assigned {mode : Quoting}
    (h : assigned mode (text ++ ['"', '\n']) = some value) :
    value.length ≤ text.length + mode.pending := by
  induction text generalizing mode value with
  | nil =>
    cases mode <;> simp [assigned, escapable] at h <;> simp [← h, Quoting.pending]
  | cons c text ih =>
    rw [List.cons_append] at h
    -- a character is put into the value, or it is not
    have hput : ∀ {mode' : Quoting} {k : ℕ}, mode'.pending = 0 →
        (assigned mode' (text ++ ['"', '\n'])).map (c :: ·) = some value →
          value.length ≤ (c :: text).length + k := by
      intro mode' k hmode hread
      obtain ⟨value', rfl, hvalue⟩ := map_cons_eq_some hread
      have hle := ih hvalue
      simp only [List.length_cons]
      omega
    have hdrop : ∀ {mode' : Quoting} {k : ℕ}, mode'.pending ≤ 1 →
        assigned mode' (text ++ ['"', '\n']) = some value →
          value.length ≤ (c :: text).length + k := by
      intro mode' k hmode hvalue
      have hle := ih hvalue
      simp only [List.length_cons]
      omega
    cases mode with
    | unquoted =>
      rw [assigned] at h
      split_ifs at h
      · simp at *
      · exact hdrop (by decide) h
      · exact hdrop (by decide) h
      · exact hdrop (by decide) h
      · exact hput rfl h
    | escaped =>
      rw [assigned] at h
      split_ifs at h
      · exact hdrop (by decide) h
      · exact hput rfl h
    | single =>
      rw [assigned] at h
      split_ifs at h
      · exact hdrop (by decide) h
      · exact hput rfl h
    | double =>
      rw [assigned] at h
      split_ifs at h
      · exact hdrop (by decide) h
      · exact hdrop (by decide) h
      · exact hput rfl h
    | doubleEscaped =>
      rw [assigned] at h
      split_ifs at h
      · exact hput rfl h
      · exact hdrop (by decide) h
      · -- here the backslash is kept
        obtain ⟨value', rfl, hread⟩ := map_cons_eq_some h
        obtain ⟨value'', rfl, hvalue⟩ := map_cons_eq_some hread
        have hle := ih hvalue
        simp only [Quoting.pending, List.length_cons] at hle ⊢
        omega

theorem map_cons_eq_some_iff {read : Option Str} {c : Char} :
    read.map (c :: ·) = some (c :: value) ↔ read = some value := by
  constructor
  · intro h
    obtain ⟨value', heq, hread⟩ := map_cons_eq_some h
    rw [hread, (List.cons.inj heq).2]
  · rintro rfl
    rfl

/-- A character that is not special in double quotes. -/
theorem assigned_double_cons {c : Char} (hc : c ∉ escapable) (rest : Str) :
    assigned .double (c :: rest) = (assigned .double rest).map (c :: ·) := by
  have hmem : escapable = ['"', '\\', '$', '`'] := by decide
  simp only [hmem, List.mem_cons, not_or] at hc
  obtain ⟨hquote, hbackslash, hdollar, hbacktick, -⟩ := hc
  rw [assigned, if_neg hquote, if_neg hbackslash, if_neg hbacktick, if_neg fun h => hdollar h.1]

/-- **An assignment in double quotes holds the text between them** exactly when the text has
neither something that the quotes take away nor something that the shell expands. -/
theorem assigned_double_iff (hline : '\n' ∉ text) :
    assigned .double (text ++ ['"', '\n']) = some text ↔ Verbatim text ∧ Unexpanded text := by
  induction text with
  | nil => exact iff_of_true rfl ⟨by decide, by decide⟩
  | cons c text ih =>
    rw [List.mem_cons, not_or] at hline
    have hrest := ih hline.2
    rw [verbatim_cons, unexpanded_cons, List.cons_append]
    by_cases hquote : c = '"'
    · refine iff_of_false (fun h => ?_) fun h => h.1.1 hquote
      -- the value would have to be longer than what is left
      rw [assigned, if_pos hquote] at h
      exact absurd (length_le_of_assigned h) (Nat.not_succ_le_self _)
    by_cases hbackslash : c = '\\'
    · subst hbackslash
      rw [assigned, if_neg hquote, if_pos rfl]
      cases text with
      | nil => exact iff_of_false (by decide) fun h => h.1.2.1 rfl '"' (by decide) rfl
      | cons d text =>
        rw [List.cons_append, assigned]
        by_cases hd : d ∈ escapable
        · refine iff_of_false (fun h => ?_) fun h => h.1.2.1 rfl d hd rfl
          rw [if_pos hd] at h
          obtain ⟨value, heq, hvalue⟩ := map_cons_eq_some h
          rw [← (List.cons.inj heq).2] at hvalue
          exact absurd (length_le_of_assigned hvalue) (Nat.not_succ_le_self _)
        · have hd' : d ≠ '\n' := fun heq => hline.2 (heq ▸ List.mem_cons_self)
          rw [List.cons_append, assigned_double_cons hd, map_cons_eq_some_iff] at hrest
          rw [if_neg hd, if_neg hd', map_cons_eq_some_iff, map_cons_eq_some_iff, hrest]
          constructor
          · rintro ⟨hverbatim, hunexpanded⟩
            refine ⟨⟨hquote, fun _ e he heq => ?_, hverbatim⟩, by decide, ?_, hunexpanded⟩
            · exact hd (Option.some.inj heq ▸ he)
            · intro heq
              exact absurd heq (by decide)
          · rintro ⟨⟨-, -, hverbatim⟩, -, -, hunexpanded⟩
            exact ⟨hverbatim, hunexpanded⟩
    by_cases hbacktick : c = '`'
    · refine iff_of_false (fun h => ?_) fun h => h.2.1 hbacktick
      rw [assigned, if_neg hquote, if_neg hbackslash, if_pos hbacktick] at h
      cases h
    rw [assigned, if_neg hquote, if_neg hbackslash, if_neg hbacktick]
    have hhead : (text ++ ['"', '\n']).head?.any startsExpansion =
        text.head?.any startsExpansion := by
      cases text with
      | nil => decide
      | cons d text => rfl
    rw [hhead]
    by_cases hdollar : c = '$' ∧ text.head?.any startsExpansion = true
    · rw [if_pos hdollar]
      refine iff_of_false (fun h => ?_) fun h => ?_
      · cases h
      · exact absurd (h.2.2.1 hdollar.1) (by rw [hdollar.2]; decide)
    · rw [if_neg hdollar, map_cons_eq_some_iff, hrest]
      constructor
      · rintro ⟨hverbatim, hunexpanded⟩
        refine ⟨⟨hquote, fun h => absurd h hbackslash, hverbatim⟩, hbacktick, ?_, hunexpanded⟩
        intro hc
        exact Bool.eq_false_iff.mpr fun h => hdollar ⟨hc, h⟩
      · rintro ⟨⟨-, -, hverbatim⟩, -, -, hunexpanded⟩
        exact ⟨hverbatim, hunexpanded⟩

end

end Shell
end Lapas
