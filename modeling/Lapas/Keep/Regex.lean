import Lapas.Rust
import Mathlib.Tactic.Common

/-!
# Segment patterns as regular expressions

A pattern segment is compiled by the `regex` crate, which is not part of the
repository: `RegexCrate` is what the engine calls of it, and
`RegexCrate.Documented` what the crate promises about the regular expressions
that the engine builds.  Those are sequences of *pieces* between two anchors: an
escaped character, `[^/]*` or `[^/]+`.

## Main definitions

* `RegexCrate`, `RegexCrate.Documented` — the crate, and its documented behaviour.
* `RegexCrate.fromPattern` — the compilation of one segment, placeholder included.
* `pieceCrate` — an implementation of the fragment, which is `Documented`.
-/

namespace Lapas
namespace Keep

/-- What the engine calls of the `regex` crate. -/
structure RegexCrate where
  /-- A compiled regular expression. -/
  Regex : Type
  /-- `Regex::new`. -/
  new : Str → Except String Regex
  /-- `Regex::is_match`. -/
  isMatch : Regex → Str → Bool
  /-- `regex::escape`. -/
  escape : Str → Str

/-- The characters `regex::escape` puts a backslash in front of. -/
def isMeta (c : Char) : Bool := "\\.+*?()|[]\x7b\x7d^$#&-~".toList.contains c

/-- One character as `regex::escape` writes it: a backslash in front of those that mean something in
a pattern. -/
def escapeChar (c : Char) : Str := if isMeta c then ['\\', c] else [c]

/-! ### Pieces -/

/-- One item of the regular expressions the engine builds. -/
inductive Piece
  /-- The character itself, escaped. -/
  | lit (c : Char)
  /-- `[^/]*` -/
  | star
  /-- `[^/]+` -/
  | plus
  deriving DecidableEq, Repr

/-- The source text of a piece in the regular expression: an escaped character, or the class of what
a star stands for. -/
def Piece.text : Piece → Str
  | .lit c => escapeChar c
  | .star => "[^/]*".toList
  | .plus => "[^/]+".toList

/-- The regular expression that matches the pieces one after another and nothing
else. -/
def render (ps : List Piece) : Str := '^' :: (ps.flatMap Piece.text ++ ['$'])

/-- Whether a string is a match for the pieces. -/
def matchPieces : List Piece → Str → Bool
  | [], s => s.isEmpty
  | .lit _ :: _, [] => false
  | .lit c :: ps, d :: s => c == d && matchPieces ps s
  | .star :: ps, s =>
    (List.range (s.length + 1)).any fun i =>
      (s.take i).all (· ≠ '/') && matchPieces ps (s.drop i)
  | .plus :: ps, s =>
    (List.range' 1 s.length).any fun i =>
      (s.take i).all (· ≠ '/') && matchPieces ps (s.drop i)

/-- The documented behaviour of the crate, on the strings the engine gives it. -/
structure RegexCrate.Documented (rx : RegexCrate) : Prop where
  escape_eq : ∀ s : Str, rx.escape s = s.flatMap escapeChar
  isMatch_render : ∀ (ps : List Piece) (r : rx.Regex), rx.new (render ps) = .ok r →
    ∀ s : Str, rx.isMatch r s = matchPieces ps s

/-- A star at the end takes any text without a separator. -/
theorem matchPieces_star_nil {s : Str} (hs : '/' ∉ s) : matchPieces [.star] s = true := by
  simp only [matchPieces, List.any_eq_true, List.mem_range, Bool.and_eq_true, List.all_eq_true]
  refine ⟨s.length, by omega, ?_, by simp⟩
  intro c hc
  rw [List.take_length] at hc
  simpa using fun h : c = '/' => hs (h ▸ hc)

/-- A plus takes any text without a separator that is not empty. -/
theorem matchPieces_plus_nil {s : Str} (hne : s ≠ []) (hs : '/' ∉ s) :
    matchPieces [.plus] s = true := by
  simp only [matchPieces, List.any_eq_true, List.mem_range', Bool.and_eq_true, List.all_eq_true]
  have hlen := List.length_pos_iff.mpr hne
  refine ⟨s.length, ⟨s.length - 1, by omega, by omega⟩, ?_, by simp⟩
  intro c hc
  rw [List.take_length] at hc
  simpa using fun h : c = '/' => hs (h ▸ hc)

theorem matchPieces_star {ps : List Piece} {s : Str} (h : matchPieces ps s = true) :
    matchPieces (.star :: ps) s = true := by
  simp only [matchPieces, List.any_eq_true, List.mem_range, Bool.and_eq_true]
  exact ⟨0, by omega, by simp, by simpa using h⟩

/-! ### Compiling a segment -/

namespace RegexCrate

variable (rx : RegexCrate)

/-- The text a glob star is replaced by while the rest of the pattern is escaped. -/
def globStar : Str := "@KEEPENGINEGLOBSTAR@".toList

/-- The regular expression a pattern segment is turned into. -/
def regexPatternStr (pattern : Str) : Str :=
  let regexPattern :=
    if pattern = "*".toList then "[^/]+".toList
    else replace (rx.escape (replace pattern "*".toList globStar)) globStar "[^/]*".toList
  "^".toList ++ regexPattern ++ "$".toList

/-- The compilation step of `SingleSegmentNode::from_pattern`: the text of the expression, and the
error of the crate when it is refused. -/
def fromPattern (pattern : Str) : Except Failure rx.Regex :=
  (rx.new (rx.regexPatternStr pattern)).mapError Failure.err

variable {rx}

/-- A compiled segment matches by the pieces of its regular expression. -/
theorem Documented.isMatch_of_fromPattern (hrx : rx.Documented) {pattern : Str} {ps : List Piece}
    (htext : rx.regexPatternStr pattern = render ps) {r : rx.Regex}
    (hr : rx.fromPattern pattern = .ok r) (s : Str) : rx.isMatch r s = matchPieces ps s := by
  rw [fromPattern, htext] at hr
  cases hnew : rx.new (render ps) with
  | error e => rw [hnew] at hr; cases hr
  | ok r' =>
    rw [hnew] at hr
    cases hr
    exact hrx.isMatch_render ps r hnew s

/-- The pattern `**`, compiled as a single segment, matches every segment. -/
theorem Documented.isMatch_doubleStar (hrx : rx.Documented) {r : rx.Regex}
    (hr : rx.fromPattern "**".toList = .ok r) {s : Str} (hs : '/' ∉ s) :
    rx.isMatch r s = true := by
  have htext : rx.regexPatternStr "**".toList = render [.star, .star] := by
    unfold regexPatternStr
    rw [hrx.escape_eq]
    decide
  rw [hrx.isMatch_of_fromPattern htext hr]
  exact matchPieces_star (matchPieces_star_nil hs)

end RegexCrate

/-! ### An implementation of the fragment -/

/-- Reading back the pieces of a regular expression, up to the closing anchor. -/
def parsePieces : Str → Except String (List Piece)
  | [] => .error "missing anchor"
  | ['$'] => .ok []
  | '\\' :: c :: s => (parsePieces s).map (.lit c :: ·)
  | '[' :: '^' :: '/' :: ']' :: '*' :: s => (parsePieces s).map (.star :: ·)
  | '[' :: '^' :: '/' :: ']' :: '+' :: s => (parsePieces s).map (.plus :: ·)
  | c :: s => if isMeta c then .error "unsupported" else (parsePieces s).map (.lit c :: ·)

/-- The fragment of the crate that the engine uses. -/
def pieceCrate : RegexCrate where
  Regex := List Piece
  new s :=
    match s with
    | '^' :: s => parsePieces s
    | _ => .error "missing anchor"
  isMatch := matchPieces
  escape s := s.flatMap escapeChar

theorem parsePieces_text (p : Piece) (s : Str) :
    parsePieces (p.text ++ s) = (parsePieces s).map (p :: ·) := by
  cases p with
  | star => rfl
  | plus => rfl
  | lit c =>
    rw [Piece.text, escapeChar]
    by_cases hc : isMeta c
    · simp [hc, parsePieces]
    · simp only [hc, Bool.false_eq_true, ↓reduceIte, List.cons_append, List.nil_append]
      have hmeta : ∀ d, isMeta d = true → c ≠ d := by
        rintro d hd rfl
        exact hc hd
      rw [parsePieces]
      · simp [hc]
      · rintro rfl; exact absurd rfl (hmeta '$' (by decide))
      · rintro d s' rfl; exact absurd rfl (hmeta '\\' (by decide))
      · rintro s' rfl; exact absurd rfl (hmeta '[' (by decide))
      · rintro s' rfl; exact absurd rfl (hmeta '[' (by decide))

theorem parsePieces_render (ps : List Piece) :
    parsePieces (ps.flatMap Piece.text ++ ['$']) = .ok ps := by
  induction ps with
  | nil => rfl
  | cons p ps ih =>
    rw [List.flatMap_cons, List.append_assoc, parsePieces_text, ih]
    rfl

theorem pieceCrate_documented : pieceCrate.Documented where
  escape_eq _ := rfl
  isMatch_render ps r hr s := by
    have : Except.ok r = .ok ps := hr.symm.trans (parsePieces_render ps)
    cases this
    rfl

end Keep
end Lapas
