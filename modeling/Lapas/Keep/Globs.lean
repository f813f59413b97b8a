import Mathlib.Data.List.Infix
import Lapas.Keep.Insertion

/-!
# Segment patterns as globs

A pattern segment is meant as a glob.  It is compiled by way of a placeholder for its stars,
so a segment that already holds the placeholder, or all of it but the last `@` in front of a
star, is compiled to something else.

## Main definitions

* `GlobMatches` — a name matches a segment as a glob.
* `Compiles` — the pieces that a segment is compiled to.
* `ClearOfGlobStar` — the segment does not run into the placeholder.

## Main results

* `regexPatternStr_eq_render` — the regular expression is that of the pieces.
* `literals_sublist_of_matchPieces` — the literals of a regular expression occur in each match.
* `isMatch_iff_globMatches_iff` — the regular expression is the glob exactly when the segment is
  clear of the placeholder.
-/

namespace Lapas
namespace Keep

/-! ### Globs -/

/-- A name matches a segment as a glob: a star stands for any run of characters, every other
character for itself. -/
inductive GlobMatches : Str → Str → Prop
  | nil : GlobMatches [] []
  | star (run : Str) {pattern name : Str} (h : GlobMatches pattern name) :
    GlobMatches ('*' :: pattern) (run ++ name)
  | char {c : Char} (hc : c ≠ '*') {pattern name : Str} (h : GlobMatches pattern name) :
    GlobMatches (c :: pattern) (c :: name)

/-- The pieces a segment stands for: each star is any run without a slash, every other character is
itself. -/
def globPieces (pattern : Str) : List Piece :=
  pattern.map fun c => if c = '*' then .star else .lit c

theorem globPieces_star (pattern : Str) :
    globPieces ('*' :: pattern) = .star :: globPieces pattern := rfl

theorem globPieces_char {c : Char} (hc : c ≠ '*') (pattern : Str) :
    globPieces (c :: pattern) = .lit c :: globPieces pattern := by
  rw [globPieces, List.map_cons, if_neg hc, ← globPieces]

theorem globPieces_append {u : Str} (hu : '*' ∉ u) (pattern : Str) :
    globPieces (u ++ pattern) = u.map .lit ++ globPieces pattern := by
  induction u with
  | nil => rfl
  | cons c u ih =>
    rw [List.mem_cons, not_or] at hu
    rw [List.cons_append, globPieces_char (Ne.symm hu.1), ih hu.2, List.map_cons, List.cons_append]

/-- A star takes a run of characters off the front. -/
theorem matchPieces_star_iff {ps : List Piece} {s : Str} (hs : '/' ∉ s) :
    matchPieces (.star :: ps) s = true ↔
      ∃ run rest, s = run ++ rest ∧ matchPieces ps rest = true := by
  simp only [matchPieces, List.any_eq_true, List.mem_range, Bool.and_eq_true]
  constructor
  · rintro ⟨i, -, -, h⟩
    exact ⟨s.take i, s.drop i, (List.take_append_drop i s).symm, h⟩
  · rintro ⟨run, rest, rfl, h⟩
    refine ⟨run.length, by rw [List.length_append]; omega, ?_, ?_⟩
    · rw [List.take_left, List.all_eq_true]
      intro c hc
      exact decide_eq_true fun heq => hs (List.mem_append_left _ (heq ▸ hc))
    · rwa [List.drop_left]

theorem matchPieces_lit_iff {c : Char} {ps : List Piece} {s : Str} :
    matchPieces (.lit c :: ps) s = true ↔ ∃ rest, s = c :: rest ∧ matchPieces ps rest = true := by
  cases s with
  | nil => simp [matchPieces]
  | cons d s =>
    rw [matchPieces, Bool.and_eq_true, beq_iff_eq]
    constructor
    · rintro ⟨rfl, h⟩
      exact ⟨s, rfl, h⟩
    · rintro ⟨rest, heq, h⟩
      cases heq
      exact ⟨rfl, h⟩

/-- The pieces of a glob match what the glob matches. -/
theorem matchPieces_globPieces {pattern name : Str} (hname : '/' ∉ name) :
    matchPieces (globPieces pattern) name = true ↔ GlobMatches pattern name := by
  induction pattern generalizing name with
  | nil =>
    rw [globPieces, List.map_nil, matchPieces, List.isEmpty_iff]
    constructor
    · rintro rfl
      exact .nil
    · intro h
      cases h
      rfl
  | cons c pattern ih =>
    by_cases hc : c = '*'
    · subst hc
      rw [globPieces_star, matchPieces_star_iff hname]
      constructor
      · rintro ⟨run, rest, rfl, h⟩
        exact .star run ((ih fun hmem => hname (List.mem_append_right _ hmem)).mp h)
      · intro h
        cases h with
        | @star run _ rest h =>
          exact ⟨run, rest, rfl, (ih fun hmem => hname (List.mem_append_right _ hmem)).mpr h⟩
        | char hc => exact absurd rfl hc
    · rw [globPieces_char hc, matchPieces_lit_iff]
      constructor
      · rintro ⟨rest, rfl, h⟩
        exact .char hc ((ih fun hmem => hname (List.mem_cons_of_mem _ hmem)).mp h)
      · intro h
        cases h with
        | star => exact absurd rfl hc
        | @char _ _ _ rest h =>
          exact ⟨rest, rfl, (ih fun hmem => hname (List.mem_cons_of_mem _ hmem)).mpr h⟩

/-! ### Literals -/

/-- The literal characters of a regular expression. -/
def literals : List Piece → Str
  | [] => []
  | .lit c :: ps => c :: literals ps
  | .star :: ps | .plus :: ps => literals ps

theorem literals_map_lit (u : Str) (ps : List Piece) :
    literals (u.map .lit ++ ps) = u ++ literals ps := by
  induction u with
  | nil => rfl
  | cons c u ih => rw [List.map_cons, List.cons_append, literals, ih, List.cons_append]

/-- With empty runs for the stars, the literals match. -/
theorem matchPieces_literals {ps : List Piece} (hplus : .plus ∉ ps) :
    matchPieces ps (literals ps) = true := by
  induction ps with
  | nil => rfl
  | cons p ps ih =>
    rw [List.mem_cons, not_or] at hplus
    cases p with
    | lit c => rw [literals, matchPieces, beq_self_eq_true, Bool.true_and, ih hplus.2]
    | star => exact matchPieces_star (ih hplus.2)
    | plus => exact absurd rfl hplus.1

/-- The literals of a regular expression occur in each match. -/
theorem literals_sublist_of_matchPieces {ps : List Piece} {s : Str}
    (h : matchPieces ps s = true) : (literals ps).Sublist s := by
  induction ps generalizing s with
  | nil => exact List.nil_sublist s
  | cons p ps ih =>
    cases p with
    | lit c =>
      obtain ⟨rest, rfl, hrest⟩ := matchPieces_lit_iff.mp h
      exact (ih hrest).cons_cons c
    | star | plus =>
      simp only [matchPieces, List.any_eq_true, Bool.and_eq_true] at h
      obtain ⟨i, -, -, hi⟩ := h
      exact (ih hi).trans (List.drop_sublist i s)

/-! ### Compiling a glob -/

/-- The letters of the placeholder, between the two at signs that `regex::escape` leaves alone. -/
def globStarName : Str := "KEEPENGINEGLOBSTAR".toList

/-- A segment after the stars are replaced and the rest is escaped. -/
def escaped (pattern : Str) : Str :=
  (pattern.flatMap fun c => if c = '*' then RegexCrate.globStar else [c]).flatMap escapeChar

/-- The pieces that a segment is compiled to: the placeholder is read from the left, wherever it
comes from. -/
inductive Compiles : Str → List Piece → Prop
  | nil : Compiles [] []
  | star {pattern : Str} {ps : List Piece} (h : Compiles pattern ps) :
    Compiles ('*' :: pattern) (.star :: ps)
  /-- The segment holds the placeholder. -/
  | literal {pattern : Str} {ps : List Piece} (h : Compiles pattern ps) :
    Compiles ('@' :: (globStarName ++ '@' :: pattern)) (.star :: ps)
  /-- The placeholder of a star completes what the segment holds, and leaves its own end. -/
  | overlap {pattern : Str} {ps : List Piece} (h : Compiles ('@' :: pattern) ps) :
    Compiles ('@' :: (globStarName ++ '*' :: pattern)) (.star :: (globStarName.map .lit ++ ps))
  | char {c : Char} {pattern : Str} {ps : List Piece} (hc : c ≠ '*')
    (hclear : c = '@' → ∀ d ∈ ['@', '*'], ¬ globStarName ++ [d] <+: pattern)
    (h : Compiles pattern ps) : Compiles (c :: pattern) (.lit c :: ps)

theorem exists_compiles (pattern : Str) : ∃ ps, Compiles pattern ps := by
  induction hn : pattern.length using Nat.strong_induction_on generalizing pattern with
  | _ n ih =>
    subst hn
    cases pattern with
    | nil => exact ⟨[], .nil⟩
    | cons c pattern =>
      obtain ⟨ps, hps⟩ := ih _ (Nat.lt_succ_self _) pattern rfl
      by_cases hstar : c = '*'
      · subst hstar
        exact ⟨_, .star hps⟩
      by_cases hclear : c = '@' → ∀ d ∈ ['@', '*'], ¬ globStarName ++ [d] <+: pattern
      · exact ⟨_, .char hstar hclear hps⟩
      push Not at hclear
      obtain ⟨rfl, d, hd, rest, rfl⟩ := hclear
      have hlen : ('@' :: rest).length < ('@' :: (globStarName ++ [d] ++ rest)).length := by
        simp only [List.length_cons, List.length_append]
        omega
      rw [List.append_assoc, List.singleton_append]
      rcases List.mem_pair.mp hd with rfl | rfl
      · obtain ⟨ps, hps⟩ := ih _ ((Nat.lt_succ_self _).trans hlen) rest rfl
        exact ⟨_, .literal hps⟩
      · obtain ⟨ps, hps⟩ := ih _ hlen ('@' :: rest) rfl
        exact ⟨_, .overlap hps⟩

theorem escaped_append (u v : Str) : escaped (u ++ v) = escaped u ++ escaped v := by
  rw [escaped, List.flatMap_append, List.flatMap_append, ← escaped, ← escaped]

theorem escaped_char {c : Char} (hc : c ≠ '*') (pattern : Str) :
    escaped (c :: pattern) = escapeChar c ++ escaped pattern := by
  rw [escaped, List.flatMap_cons, if_neg hc, List.singleton_append, List.flatMap_cons, ← escaped]

theorem escaped_star (pattern : Str) :
    escaped ('*' :: pattern) = '@' :: (globStarName ++ '@' :: escaped pattern) :=
  escaped_append ['*'] pattern

theorem escaped_globStarName (pattern : Str) :
    escaped (globStarName ++ pattern) = globStarName ++ escaped pattern :=
  escaped_append globStarName pattern

theorem escaped_at (pattern : Str) : escaped ('@' :: pattern) = '@' :: escaped pattern :=
  escaped_char (by decide) pattern

/-- Where a character of the placeholder comes from. -/
theorem eq_cons_of_prefix_escaped {d : Char} {t pattern : Str} (hd : isMeta d = false)
    (h : d :: t <+: escaped pattern) : ∃ c rest, pattern = c :: rest ∧
      (c = '*' ∧ d = '@' ∨ c = d ∧ t <+: escaped rest) := by
  cases pattern with
  | nil => exact absurd (List.prefix_nil.mp h) (List.cons_ne_nil d t)
  | cons c rest =>
    refine ⟨c, rest, rfl, ?_⟩
    by_cases hc : c = '*'
    · subst hc
      rw [escaped_star, List.cons_prefix_cons] at h
      exact .inl ⟨rfl, h.1⟩
    · rw [escaped_char hc, escapeChar] at h
      by_cases hmeta : isMeta c = true
      · rw [if_pos hmeta, List.cons_append, List.cons_prefix_cons] at h
        exact absurd (h.1 ▸ hd) (by decide)
      · rw [if_neg hmeta, List.singleton_append, List.cons_prefix_cons] at h
        exact .inr ⟨h.1.symm, h.2⟩

theorem eq_append_of_prefix_escaped {u t pattern : Str}
    (hu : (u.all fun c => !isMeta c && c != '@') = true) (h : u ++ t <+: escaped pattern) :
    ∃ rest, pattern = u ++ rest ∧ t <+: escaped rest := by
  induction u generalizing pattern with
  | nil => exact ⟨pattern, rfl, h⟩
  | cons d u ih =>
    rw [List.all_cons, Bool.and_eq_true, Bool.and_eq_true, Bool.not_eq_true', bne_iff_ne] at hu
    obtain ⟨c, rest, rfl, ⟨-, hat⟩ | ⟨rfl, hrest⟩⟩ := eq_cons_of_prefix_escaped hu.1.1 h
    · exact absurd hat hu.1.2
    · obtain ⟨rest, rfl, ht⟩ := ih hu.2 hrest
      exact ⟨rest, rfl, ht⟩

/-- The placeholder occurs only where a star was, or where the segment runs into it. -/
theorem globStar_not_prefix_escaped {c : Char} {pattern : Str} (hc : c ≠ '*')
    (hclear : c = '@' → ∀ d ∈ ['@', '*'], ¬ globStarName ++ [d] <+: pattern) :
    ¬ RegexCrate.globStar <+: escaped (c :: pattern) := by
  intro h
  change '@' :: (globStarName ++ ['@']) <+: _ at h
  obtain ⟨_, _, heq, ⟨rfl, -⟩ | ⟨rfl, hname⟩⟩ := eq_cons_of_prefix_escaped (by decide) h
  · cases heq
    exact hc rfl
  · cases heq
    obtain ⟨rest, rfl, hat⟩ := eq_append_of_prefix_escaped (by decide) hname
    obtain ⟨d, rest, rfl, hd⟩ := eq_cons_of_prefix_escaped (by decide) hat
    refine hclear rfl d ?_ ⟨rest, by rw [List.append_assoc, List.singleton_append]⟩
    rcases hd with ⟨rfl, -⟩ | ⟨rfl, -⟩ <;> decide

/-- The placeholders become stars, and what is left is escaped. -/
theorem replace_escaped {pattern : Str} {ps : List Piece} (h : Compiles pattern ps) :
    replace (escaped pattern) RegexCrate.globStar "[^/]*".toList = ps.flatMap Piece.text := by
  have hne : RegexCrate.globStar ≠ [] := by decide
  induction h with
  | nil => rfl
  | @star pattern ps h ih =>
    rw [escaped_star]
    exact (replace_append hne _ _).trans (congrArg _ ih)
  | @literal pattern ps h ih =>
    rw [escaped_at, escaped_globStarName, escaped_at]
    exact (replace_append hne _ _).trans (congrArg _ ih)
  | @overlap pattern ps h ih =>
    rw [escaped_at, escaped_globStarName, escaped_star, List.flatMap_cons, List.flatMap_append,
      ← ih, escaped_at]
    refine (replace_append hne _ _).trans (congrArg _ ?_)
    have hname : '@' ∉ globStarName := by decide
    exact replace_append_of_notMem hname _ _
  | @char c pattern ps hc hclear h ih =>
    rw [List.flatMap_cons, ← ih, Piece.text, escaped_char hc]
    by_cases hat : c = '@'
    · subst hat
      have hfirst := globStar_not_prefix_escaped hc hclear
      rw [escaped_at] at hfirst
      exact replace_cons hfirst _
    · refine replace_append_of_notMem (c := '@') ?_ _ _
      rw [escapeChar]
      split
      · exact fun hmem => by simp [Ne.symm hat] at hmem
      · exact fun hmem => hat (List.mem_singleton.mp hmem).symm

/-! ### Clear of the placeholder -/

/-- The segment holds neither the placeholder nor all of it but the last `@` in front of a
star. -/
def ClearOfGlobStar (pattern : Str) : Prop :=
  ∀ d ∈ ['@', '*'], ¬ '@' :: (globStarName ++ [d]) <:+: pattern

/-- The literals of a segment that starts like the placeholder. -/
theorem literals_globPieces_at (pattern : Str) :
    literals (globPieces ('@' :: (globStarName ++ pattern))) =
      '@' :: (globStarName ++ literals (globPieces pattern)) := by
  rw [globPieces_char (by decide), globPieces_append (by decide), literals, literals_map_lit]

/-- A placeholder that is read where no star was takes literals away. -/
theorem Compiles.length_literals_le {pattern : Str} {ps : List Piece} (h : Compiles pattern ps) :
    (literals ps).length ≤ (literals (globPieces pattern)).length := by
  induction h with
  | nil => exact le_rfl
  | star _ ih => exact ih
  | literal _ ih =>
    rw [literals_globPieces_at, globPieces_char (by decide)]
    simp only [literals, List.length_cons, List.length_append]
    omega
  | overlap _ ih =>
    rw [globPieces_char (by decide)] at ih
    rw [literals_globPieces_at, globPieces_star]
    simp only [literals, literals_map_lit, List.length_cons, List.length_append] at ih ⊢
    omega
  | char hc _ _ ih =>
    rw [globPieces_char hc]
    exact Nat.succ_le_succ ih

/-- With the literals of the glob, the segment is clear of the placeholder. -/
theorem Compiles.clear_of_literals_eq {pattern : Str} {ps : List Piece} (h : Compiles pattern ps)
    (heq : literals ps = literals (globPieces pattern)) : ClearOfGlobStar pattern := by
  induction h with
  | nil =>
    intro d _ hinfix
    exact absurd (List.infix_nil.mp hinfix) (List.cons_ne_nil _ _)
  | star _ ih =>
    intro d hd hinfix
    rcases List.infix_cons_iff.mp hinfix with hstart | hrest
    · exact absurd (List.cons_prefix_cons.mp hstart).1 (by decide)
    · exact ih heq d hd hrest
  | literal h _ =>
    -- more than the literals of the glob is gone
    have hle := h.length_literals_le
    rw [literals_globPieces_at, globPieces_char (by decide)] at heq
    have hlen := congrArg List.length heq
    simp only [literals, List.length_cons, List.length_append] at hlen
    omega
  | overlap _ _ =>
    -- the `@` in front is gone
    rw [literals_globPieces_at, literals, literals_map_lit] at heq
    exact absurd (List.cons.inj (show 'K' :: _ = '@' :: _ from heq)).1 (by decide)
  | char hc hclear _ ih =>
    rw [globPieces_char hc] at heq
    intro d hd hinfix
    rcases List.infix_cons_iff.mp hinfix with hstart | hrest
    · obtain ⟨hat, hname⟩ := List.cons_prefix_cons.mp hstart
      exact hclear hat.symm d hd hname
    · exact ih (List.cons.inj heq).2 d hd hrest

/-- A segment that is clear of the placeholder is compiled to its glob. -/
theorem Compiles.eq_globPieces {pattern : Str} {ps : List Piece} (h : Compiles pattern ps)
    (hclear : ClearOfGlobStar pattern) : ps = globPieces pattern := by
  have hrest : ∀ {c : Char} {rest : Str}, ClearOfGlobStar (c :: rest) → ClearOfGlobStar rest :=
    fun hclear d hd hinfix => hclear d hd (List.infix_cons hinfix)
  induction h with
  | nil => rfl
  | star _ ih => rw [globPieces_star, ← ih (hrest hclear)]
  | @literal pattern _ _ _ =>
    exact absurd ⟨[], pattern, by simp⟩ (hclear '@' (by decide))
  | @overlap pattern _ _ _ =>
    exact absurd ⟨[], pattern, by simp⟩ (hclear '*' (by decide))
  | char hc _ _ ih => rw [globPieces_char hc, ← ih (hrest hclear)]

/-! ### Regular expressions of segments -/

theorem Compiles.plus_notMem {pattern : Str} {ps : List Piece} (h : Compiles pattern ps) :
    .plus ∉ ps := by
  induction h with
  | nil => exact List.not_mem_nil
  | star _ ih | literal _ ih | char _ _ _ ih => simpa using ih
  | overlap _ ih => simpa using ih

theorem plus_notMem_globPieces (pattern : Str) : .plus ∉ globPieces pattern := by
  intro hmem
  obtain ⟨c, -, hc⟩ := List.mem_map.mp hmem
  split at hc <;> cases hc

theorem Compiles.literals_subset {pattern : Str} {ps : List Piece} (h : Compiles pattern ps) :
    literals ps ⊆ pattern := by
  induction h with
  | nil => exact List.nil_subset _
  | star _ ih => exact List.Subset.trans ih (List.subset_cons_self _ _)
  | literal _ ih => intro c hc; simp [ih hc]
  | overlap _ ih =>
    intro c hc
    rw [literals, literals_map_lit, List.mem_append] at hc
    have := @ih c
    simp only [List.mem_cons, List.mem_append] at this ⊢
    tauto
  | char _ _ _ ih => exact List.cons_subset_cons _ ih

theorem literals_globPieces_subset (pattern : Str) :
    literals (globPieces pattern) ⊆ pattern := by
  induction pattern with
  | nil => exact List.nil_subset _
  | cons c pattern ih =>
    by_cases hc : c = '*'
    · subst hc
      exact List.Subset.trans ih (List.subset_cons_self _ _)
    · rw [globPieces_char hc]
      exact List.cons_subset_cons c ih

/-- Stars alone match any text without a separator. -/
theorem matchPieces_of_literals_eq_nil {ps : List Piece} (hne : ps ≠ []) (hplus : .plus ∉ ps)
    (hlit : literals ps = []) {s : Str} (hs : '/' ∉ s) : matchPieces ps s = true := by
  induction ps with
  | nil => exact absurd rfl hne
  | cons p ps ih =>
    rw [List.mem_cons, not_or] at hplus
    cases p with
    | lit c => cases hlit
    | plus => exact absurd rfl hplus.1
    | star =>
      by_cases hps : ps = []
      · rw [hps]
        exact matchPieces_star_nil hs
      · exact matchPieces_star (ih hps hplus.2 hlit)

/-- Pieces that match the names the glob matches have its literals. -/
theorem Compiles.literals_eq {pattern : Str} {ps : List Piece} (h : Compiles pattern ps)
    (hslash : '/' ∉ pattern)
    (hagree : ∀ name : Str, name ≠ [] → '/' ∉ name →
      (matchPieces ps name = true ↔ GlobMatches pattern name)) :
    literals ps = literals (globPieces pattern) := by
  have hagree : ∀ name : Str, name ≠ [] → '/' ∉ name →
      (matchPieces ps name = true ↔ matchPieces (globPieces pattern) name = true) :=
    fun name hne hname =>
      (hagree name hne hname).trans (matchPieces_globPieces hname).symm
  by_cases hglob : literals (globPieces pattern) = []
  · have hle := h.length_literals_le
    rw [hglob, List.length_nil, Nat.le_zero, List.length_eq_zero_iff] at hle
    rw [hle, hglob]
  by_cases hps : literals ps = []
  · -- there are only stars, which match any name
    exfalso
    have hne : ps ≠ [] := by
      rintro rfl
      cases h
      exact hglob rfl
    have hone : ∀ c, c ≠ '/' → literals (globPieces pattern) = [c] := by
      intro c hc
      have hname : '/' ∉ [c] := fun hmem => hc (List.mem_singleton.mp hmem).symm
      have hmatch := matchPieces_of_literals_eq_nil hne h.plus_notMem hps hname
      have hsub := literals_sublist_of_matchPieces
        ((hagree [c] (List.cons_ne_nil c []) hname).mp hmatch)
      exact (List.sublist_singleton.mp hsub).resolve_left hglob
    exact absurd ((hone 'a' (by decide)).symm.trans (hone 'b' (by decide))) (by decide)
  · -- each of the two has the literals of the other as a name
    refine List.Sublist.antisymm ?_ ?_
    · refine literals_sublist_of_matchPieces ((hagree _ hglob ?_).mpr ?_)
      · exact fun hmem => hslash (literals_globPieces_subset pattern hmem)
      · exact matchPieces_literals (plus_notMem_globPieces pattern)
    · refine literals_sublist_of_matchPieces ((hagree _ hps ?_).mp ?_)
      · exact fun hmem => hslash (h.literals_subset hmem)
      · exact matchPieces_literals h.plus_notMem

section

variable {rx : RegexCrate}

/-- The regular expression of a segment, except for a star alone. -/
theorem regexPatternStr_eq_render (hrx : rx.Documented) {pattern : Str} {ps : List Piece}
    (hne : pattern ≠ "*".toList) (h : Compiles pattern ps) :
    rx.regexPatternStr pattern = render ps := by
  rw [RegexCrate.regexPatternStr, if_neg hne, hrx.escape_eq]
  have hstar := replace_singleton '*' pattern RegexCrate.globStar
  change replace pattern "*".toList RegexCrate.globStar = _ at hstar
  rw [hstar, ← escaped, replace_escaped h]
  rfl

theorem regexPatternStr_star : rx.regexPatternStr "*".toList = render [.plus] := rfl

/-- The compiled regular expression of a segment matches a name exactly when the segment does as
a glob, for a segment that is clear of the placeholder; for another, there is a name on which
they differ. -/
theorem isMatch_iff_globMatches_iff (hrx : rx.Documented) {segment pattern : Str}
    (hslash : '/' ∉ segment) {actions actions' : Option Actions} {r : rx.Regex}
    {children : List (DecisionNode rx.Regex)}
    (hnode : nodeFromSegmentPattern rx segment actions =
      .ok (.single pattern r actions' children)) :
    (∀ name : Str, name ≠ [] → '/' ∉ name →
      (rx.isMatch r name = true ↔ GlobMatches segment name)) ↔ ClearOfGlobStar segment := by
  have hr : rx.fromPattern segment = .ok r := by
    rcases nodeFromSegmentPattern_ok hnode with ⟨-, heq⟩ | ⟨-, -, r', hr, heq⟩
    · cases heq
    · cases heq
      exact hr
  by_cases hstar : segment = "*".toList
  · subst hstar
    refine iff_of_true (fun name hne hname => ?_) (fun d _ hinfix => ?_)
    · rw [hrx.isMatch_of_fromPattern regexPatternStr_star hr, matchPieces_plus_nil hne hname]
      have hglob := GlobMatches.star name .nil
      rw [List.append_nil] at hglob
      exact iff_of_true rfl hglob
    · have hlen := hinfix.length_le
      rw [List.length_cons, List.length_append, List.length_singleton] at hlen
      exact absurd hlen (by decide)
  · obtain ⟨ps, hps⟩ := exists_compiles segment
    have hmatch := hrx.isMatch_of_fromPattern (regexPatternStr_eq_render hrx hstar hps) hr
    constructor
    · intro hagree
      exact hps.clear_of_literals_eq (hps.literals_eq hslash fun name hne hname => by
        rw [← hmatch]
        exact hagree name hne hname)
    · intro hclear name _ hname
      rw [hmatch, hps.eq_globPieces hclear, matchPieces_globPieces hname]

end

instance (pattern : Str) : Decidable (ClearOfGlobStar pattern) :=
  decidable_of_iff (¬ '@' :: (globStarName ++ ['@']) <:+: pattern ∧
    ¬ '@' :: (globStarName ++ ['*']) <:+: pattern) (by simp [ClearOfGlobStar])

/-- `*.log` is compiled to its glob. -/
theorem isMatch_iff_globMatches_iff_log : ∃ r,
    nodeFromSegmentPattern pieceCrate "*.log".toList none =
      .ok (.single "*.log".toList r none []) ∧
    ∀ name : Str, name ≠ [] → '/' ∉ name →
      (pieceCrate.isMatch r name = true ↔ GlobMatches "*.log".toList name) := by
  obtain ⟨r, hr⟩ : ∃ r, nodeFromSegmentPattern pieceCrate "*.log".toList none =
      .ok (.single "*.log".toList r none []) := ⟨_, rfl⟩
  exact ⟨r, hr, (isMatch_iff_globMatches_iff pieceCrate_documented (by decide) hr).mpr (by decide)⟩

/-- The placeholder as a segment matches every name. -/
theorem isMatch_not_globMatches_globStar : ∃ r,
    nodeFromSegmentPattern pieceCrate "@KEEPENGINEGLOBSTAR@".toList none =
      .ok (.single "@KEEPENGINEGLOBSTAR@".toList r none []) ∧
    pieceCrate.isMatch r "save".toList = true ∧
    ¬ GlobMatches "@KEEPENGINEGLOBSTAR@".toList "save".toList := by
  refine ⟨_, rfl, by decide, fun h => ?_⟩
  rw [← matchPieces_globPieces (by decide)] at h
  revert h
  decide

end Keep
end Lapas
