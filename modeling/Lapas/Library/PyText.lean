import Mathlib.Algebra.GroupWithZero.Nat
import Mathlib.Data.Nat.Notation
import Mathlib.Data.List.Infix
import Mathlib.Tactic.Common

/-!
# Python's texts

A name of a file need not be text: what does not decode becomes a surrogate, and is encoded
again for calls of the system.  Otherwise it cannot be encoded.

## Main definitions

* `PyChar`, `PyStr`, `lit` — texts with surrogates.
* `encodable`, `fsLength` — what can be written to a file, and the length of a file name.
* `hasMagic`, `fnmatch`, `glob1` — patterns for names.

## Main results

* `matchPieces_star` — a star between two texts.
* `splitOn_append_of_notMem` — the pieces of a text behind one without separators.
-/

namespace Lapas

/-- A character of a string in Python, which may come from a byte of a file name that is not
UTF-8. -/
inductive PyChar
  | char (c : Char)
  /-- A byte from 128 on. -/
  | surrogate (byte : Fin 128)
  deriving DecidableEq

/-- The strings of Python, as far as names of files make them. -/
abbrev PyStr := List PyChar

/-- A literal of the source as a Python string; it has no surrogates. -/
def lit (text : String) : PyStr := text.toList.map .char

namespace PyChar

/-- The code point; a byte that is not decoded has one of its own among the surrogates. -/
def ord : PyChar → ℕ
  | char c => c.toNat
  | surrogate byte => 0xdc80 + byte

/-- The bytes in a file name: the UTF-8 encoding of a character, and one byte for a surrogate. -/
def fsLength : PyChar → ℕ
  | char c => c.utf8Size
  | surrogate _ => 1

/-- Whether the character is one, and not the surrogate of a byte. -/
def isChar : PyChar → Bool
  | char _ => true
  | surrogate _ => false

end PyChar

/-! ### Encoding -/

/-- It can be written to a file. -/
def encodable (text : PyStr) : Bool := text.all PyChar.isChar

/-- The length of a name in bytes, as the file system counts it. -/
def fsLength (name : PyStr) : ℕ := (name.map PyChar.fsLength).sum

@[simp] theorem encodable_append (text text' : PyStr) :
    encodable (text ++ text') = (encodable text && encodable text') := List.all_append

@[simp] theorem encodable_lit (text : String) : encodable (lit text) = true := by
  rw [encodable, lit, List.all_map]
  exact List.all_eq_true.mpr fun _ _ => rfl

/-! ### Patterns -/

/-- `glob.has_magic`: the pattern has a star, a question mark or an opening bracket, and without one
it is a plain name. -/
def hasMagic (name : PyStr) : Bool := name.any (lit "*?[").contains

/-- The pieces of a pattern of `fnmatch`: a star, a question mark, a character, or a set in
brackets. -/
inductive Piece
  | star
  | any
  | one (c : PyChar)
  | set (negated : Bool) (ranges : List (PyChar × PyChar))
  deriving DecidableEq

/-- The inside of brackets, as pairs of a lowest and a highest character; a single character is
both. -/
def ranges : PyStr → List (PyChar × PyChar)
  | low :: dash :: high :: text =>
    if dash = .char '-' then (low, high) :: ranges text
    else (low, low) :: ranges (dash :: high :: text)
  | c :: text => (c, c) :: ranges text
  | [] => []

/-- A set behind its opening bracket, and what is behind its closing one.  A bracket in the
first place does not close. -/
def readSet (text : PyStr) : Option (Piece × PyStr) :=
  let negated := text.head? = some (.char '!')
  let text := if negated then text.tail else text
  let first := if text.head? = some (.char ']') then lit "]" else []
  let text := text.drop first.length
  match text.dropWhile (· ≠ .char ']') with
  | _ :: rest => some (.set negated (ranges (first ++ text.takeWhile (· ≠ .char ']'))), rest)
  | [] => none

/-- `fnmatch.translate`; `fuel` is at least the length of the pattern. -/
def translate : ℕ → PyStr → List Piece
  | fuel + 1, .char '*' :: pat => .star :: translate fuel pat
  | fuel + 1, .char '?' :: pat => .any :: translate fuel pat
  | fuel + 1, .char '[' :: pat =>
    match readSet pat with
    | some (piece, rest) => piece :: translate fuel rest
    | none => .one (.char '[') :: translate fuel pat
  | fuel + 1, c :: pat => .one c :: translate fuel pat
  | _, _ => []

/-- Whether the piece takes this one character.  A star takes no single character here, as it is
matched with any number of them. -/
def Piece.accepts : Piece → PyChar → Bool
  | .star, _ => false
  | .any, _ => true
  | .one c, c' => c = c'
  | .set negated ranges, c =>
    (ranges.any fun range => range.1.ord ≤ c.ord && c.ord ≤ range.2.ord) != negated

/-- Whether the pieces take the whole text. -/
def matchPieces : List Piece → PyStr → Bool
  | [], text => text.isEmpty
  | .star :: pieces, text => text.tails.any (matchPieces pieces)
  | piece :: pieces, c :: text => piece.accepts c && matchPieces pieces text
  | _ :: _, [] => false

/-- `fnmatch.fnmatchcase`: the pattern, translated into pieces, matches the whole name. -/
def fnmatch (name pat : PyStr) : Bool := matchPieces (translate pat.length pat) name

/-- Names with a dot in front are hidden from `glob`. -/
def isHidden (name : PyStr) : Bool := name.head? = some (.char '.')

/-- `glob.glob1` takes a name of the folder: the pattern matches, and a name with a leading dot
needs a pattern with one. -/
def glob1 (name pat : PyStr) : Bool := (isHidden pat || !isHidden name) && fnmatch name pat

theorem matchPieces_ones (text : PyStr) (pieces : List Piece) (rest : PyStr) :
    matchPieces (text.map .one ++ pieces) (text ++ rest) = matchPieces pieces rest := by
  induction text with
  | nil => rfl
  | cons c text ih =>
    show (decide (c = c) && matchPieces (text.map .one ++ pieces) (text ++ rest)) = _
    rw [ih, decide_eq_true rfl, Bool.true_and]

/-- A star between two texts. -/
theorem matchPieces_star (start rest text : PyStr) :
    matchPieces (start.map .one ++ .star :: rest.map .one) (start ++ (text ++ rest)) = true := by
  rw [matchPieces_ones]
  refine List.any_eq_true.mpr ⟨rest, List.mem_tails _ _ |>.mpr (List.suffix_append text rest), ?_⟩
  have hones := matchPieces_ones rest [] []
  rwa [List.append_nil, List.append_nil] at hones

/-! ### Lines -/

/-- The text in front of the first separator belongs to the first piece. -/
theorem splitOn_append_of_notMem {sep : PyChar} {start : PyStr} (h : sep ∉ start) (text : PyStr) :
    (start ++ text).splitOn sep = (text.splitOn sep).modifyHead (start ++ ·) := by
  induction start with
  | nil =>
    show text.splitOn sep = (text.splitOn sep).modifyHead id
    cases text.splitOn sep <;> rfl
  | cons c start ih =>
    have hc : ¬ (c == sep) = true := fun heq => h (eq_of_beq heq ▸ List.mem_cons_self)
    rw [List.cons_append, List.splitOn_cons_eq_if_modifyHead, if_neg hc,
      ih fun hmem => h (List.mem_cons_of_mem c hmem), List.modifyHead_modifyHead]
    rfl

end Lapas
