import Lapas.Library.Inclusion
import Lapas.Library.Lines
import Lapas.Proto.Serde
import Lapas.Rust

/-!
# Bundling the installer

`make.py` writes the installer as one script: an import stands for the text of another script,
and a command for what it prints.  A script that was there before is left out.

## Main definitions

* `Checkout` — the scripts, and the commands that can be run among them.
* `preprocess` — the function of `make.py`.
* `document` — what the lines of a script stand for.
* `Undamaged` — lines of which `strip` takes only the word of the instruction.

## Main results

* `preprocess_toOption` — the function expands the documents.
* `preprocess_whole` — **when a bundle is written, and what is in it.**
-/

namespace Lapas
namespace Install

open Inclusion Proto

/-- The texts that `make.py` reads and writes, as bytes. -/
abbrev Bytes := List UInt8

/-! ### Texts and paths -/

/-- `str.isspace` of a character: Unicode white space and the four separators that Python counts as
such. -/
def isPySpace (c : Char) : Bool := isWhitespace c || (0x1c ≤ c.toNat && c.toNat ≤ 0x1f)

/-- Without the characters at both ends that `p` takes. -/
def stripBy (p : Char → Bool) (s : Str) : Str :=
  ((s.dropWhile p).reverse.dropWhile p).reverse

/-- `str.strip`, with the characters that it takes away. -/
def strip (chars s : Str) : Str := stripBy chars.contains s

/-- `os.path.isabs`: the path begins with a slash. -/
def isabs (path : Str) : Bool := path.head? = some '/'

/-- `os.path.join` of two parts: an absolute second part stands alone, and no second slash is put
between them. -/
def joinPath (dir path : Str) : Str :=
  if isabs path then path
  else if dir = [] ∨ dir.getLast? = some '/' then dir ++ path
  else dir ++ '/' :: path

/-- `os.path.dirname`: what is in front of the last slash, without slashes at its end unless there
is nothing else. -/
def dirname (path : Str) : Str :=
  let head := (path.reverse.dropWhile (· ≠ '/')).reverse
  if head.all (· = '/') then head else (head.reverse.dropWhile (· = '/')).reverse

/-- The components of a path, without those that lead nowhere; `newComps` is in reverse. -/
def normComps (initialSlashes : ℕ) : List Str → List Str → List Str
  | newComps, [] => newComps.reverse
  | newComps, comp :: comps =>
    if comp = [] ∨ comp = ['.'] then normComps initialSlashes newComps comps
    else if comp ≠ ['.', '.'] ∨ (initialSlashes = 0 ∧ newComps = []) ∨
        newComps.head? = some ['.', '.'] then
      normComps initialSlashes (comp :: newComps) comps
    else normComps initialSlashes newComps.tail comps

/-- `os.path.normpath`: the components are normalised one by one behind the leading slashes, and the
empty path is a dot. -/
def normpath (path : Str) : Str :=
  -- two slashes at the front are kept, three are not
  let initialSlashes :=
    if "//".toList.isPrefixOf path && !"///".toList.isPrefixOf path then 2
    else if isabs path then 1 else 0
  let path := List.replicate initialSlashes '/' ++
    ['/'].intercalate (normComps initialSlashes [] (path.splitOn '/'))
  if path = [] then ['.'] else path

/-! ### The function -/

/-- What `make.py` can stop with: imports that are nested too deep, a script that cannot be read,
the import of what is no file, or a payload command that fails. -/
inductive MakeError
  /-- Imports are nested too deep. -/
  | recursionError
  /-- A script cannot be opened, or is not text. -/
  | readError
  | valueError (msg : Str)
  | calledProcessError
  deriving DecidableEq

/-- Where the installer is made: the working directory, and what `make.py` gets from the file system
and from the payload commands. -/
structure Checkout where
  cwd : Str
  isfile : Str → Bool
  /-- `open(path, "r").read()`; a line ends in `'\n'`, however it ends in the file. -/
  read : Str → Except MakeError Str
  /-- `subprocess.check_output`, in a directory. -/
  checkOutput : Str → Str → Except MakeError Bytes

/-- `os.path.abspath`: a relative path is taken from the working directory, and the result is
normalised. -/
def Checkout.abspath (checkout : Checkout) (path : Str) : Str :=
  normpath (if isabs path then path else joinPath checkout.cwd path)

/-- `str.encode` with the default encoding; the text has no surrogates, since `open` decodes
strictly. -/
def utf8 (s : Str) : Bytes := utf8Bytes (String.ofList s)

/-- The end of a line, which `make.py` puts behind an imported script and behind a payload. -/
def newline : Bytes := [10]

/-- `'Import of file "{}" in from file "{}" failed, since it doesn\'t exist.'` -/
def importMessage (importFilePath filePath : Str) : Str :=
  "Import of file \"".toList ++ importFilePath ++ "\" in from file \"".toList ++ filePath ++
    "\" failed, since it doesn't exist.".toList

/-- A path in a script that lies in `currentDir`. -/
def Checkout.resolve (checkout : Checkout) (currentDir path : Str) : Str :=
  if isabs path then path else checkout.abspath (joinPath currentDir path)

/-- The path that is imported for a line. -/
def importPath (checkout : Checkout) (currentDir line : Str) : Str :=
  checkout.resolve currentDir (stripBy isPySpace (strip "#!import ".toList line))

/-- The command that is run for a line. -/
def payloadCmd (line : Str) : Str := stripBy isPySpace (strip "#!binaryPayloadFrom ".toList line)

/-- The body of the loop over the lines; `preprocess` is the function itself. -/
def preprocessLine (checkout : Checkout)
    (preprocess : Str → List Str → Except MakeError (Bytes × List Str)) (filePath : Str) :
    Bytes × List Str → Str → Except MakeError (Bytes × List Str) :=
  fun (resultFileContents, importSet) line =>
    let currentDir := dirname filePath
    if "#!import ".toList.isPrefixOf line then
      let importFilePath := importPath checkout currentDir line
      if checkout.isfile importFilePath then do
        let (contents, importSet) ← preprocess importFilePath importSet
        return (resultFileContents ++ contents ++ newline, importSet)
      else .error (.valueError (importMessage importFilePath filePath))
    else if "#!binaryPayloadFrom ".toList.isPrefixOf line then do
      let binaryPayload ← checkout.checkOutput currentDir (payloadCmd line)
      return (resultFileContents ++ binaryPayload ++ newline, importSet)
    else return (resultFileContents ++ utf8 line, importSet)

/-- `preprocess`; the first number is how deep calls can be nested. -/
def preprocess (checkout : Checkout) :
    ℕ → Str → List Str → Except MakeError (Bytes × List Str)
  | 0, _, _ => .error .recursionError
  | fuel + 1, filePath, importSet =>
    if importSet.contains filePath then return ([], importSet)
    else do
      let scriptFile ← checkout.read filePath
      (keptLines '\n' scriptFile).foldlM
        (preprocessLine checkout (preprocess checkout fuel) filePath) ([], filePath :: importSet)

/-! ### The scripts as documents -/

/-- What a line names: the text behind the word of the instruction, without the space around. -/
def argument (instruction line : Str) : Str := stripBy isPySpace (line.drop instruction.length)

/-- What a line stands for; `none` if the script that it names does not exist, or the command that
it names fails. -/
def lineParts (checkout : Checkout) (filePath line : Str) : Option (List (Part Str Bytes)) :=
  if "#!import ".toList.isPrefixOf line then
    let importFilePath := checkout.resolve (dirname filePath) (argument "#!import ".toList line)
    if checkout.isfile importFilePath then some [.doc importFilePath, .text newline] else none
  else if "#!binaryPayloadFrom ".toList.isPrefixOf line then
    (checkout.checkOutput (dirname filePath)
      (argument "#!binaryPayloadFrom ".toList line)).toOption.map
        fun binaryPayload => [.text (binaryPayload ++ newline)]
  else some [.text (utf8 line)]

/-- `str.strip` takes the word of the instruction away, and none of the characters of that word
from what the line names. -/
def Undamaged (line : Str) : Prop :=
  ∀ instruction ∈ ["#!import ".toList, "#!binaryPayloadFrom ".toList],
    instruction.isPrefixOf line = true →
      stripBy isPySpace (strip instruction line) = argument instruction line

instance (line : Str) : Decidable (Undamaged line) := by
  unfold Undamaged
  infer_instance

/-- What a script stands for; `none` if it cannot be read, a script that it imports does not
exist, or a command fails. -/
def document (checkout : Checkout) (filePath : Str) : Option (List (Part Str Bytes)) :=
  (checkout.read filePath).toOption.bind fun scriptFile =>
    ((keptLines '\n' scriptFile).mapM (lineParts checkout filePath)).map List.flatten

/-- The pieces of a bundle, one after another. -/
def written (out : List (Str × Bytes)) : Bytes := out.flatMap (·.2)

theorem written_append (out out' : List (Str × Bytes)) :
    written (out ++ out') = written out ++ written out' := List.flatMap_append

theorem toOption_bind {ε α β : Type} (call : Except ε α) (rest : α → Except ε β) :
    (call >>= rest).toOption = call.toOption.bind fun a => (rest a).toOption := by
  cases call <;> rfl

section

variable (checkout : Checkout) {call : Str → List Str → Except MakeError (Bytes × List Str)}
  {visit : Str → List Str → Option (List (Str × Bytes) × List Str)} {filePath : Str}

/-- One line puts down what it stands for, when the script that it imports is put down. -/
theorem preprocessLine_toOption {line : Str} {parts : List (Part Str Bytes)}
    (hline : Undamaged line) (hparts : lineParts checkout filePath line = some parts)
    (hcall : ∀ path, .doc path ∈ parts → ∀ seen,
      (call path seen).toOption = (visit path seen).map fun r => (written r.1, r.2))
    (contents : Bytes) (seen : List Str) :
    (preprocessLine checkout call filePath (contents, seen) line).toOption =
      (expandAll visit filePath parts seen).map fun r => (contents ++ written r.1, r.2) := by
  rw [lineParts] at hparts
  rw [preprocessLine]
  by_cases himport : "#!import ".toList.isPrefixOf line = true
  · have hstrip := hline _ List.mem_cons_self himport
    simp only [himport, if_true, importPath, hstrip] at hparts ⊢
    split_ifs at hparts with hfile
    cases hparts
    rw [if_pos hfile, toOption_bind, hcall _ List.mem_cons_self, expandAll]
    cases visit (checkout.resolve (dirname filePath) (argument "#!import ".toList line)) seen with
    | none => rfl
    | some r =>
      show some (contents ++ written r.1 ++ newline, r.2) =
        some (contents ++ written (r.1 ++ [(filePath, newline)]), r.2)
      rw [written_append, List.append_assoc]
      rfl
  · simp only [himport, Bool.false_eq_true, if_false] at hparts ⊢
    by_cases hpayload : "#!binaryPayloadFrom ".toList.isPrefixOf line = true
    · have hstrip := hline _ (List.mem_cons_of_mem _ List.mem_cons_self) hpayload
      simp only [hpayload, if_true, payloadCmd, hstrip] at hparts ⊢
      obtain ⟨payload, hout, rfl⟩ := Option.map_eq_some_iff.mp hparts
      rw [toOption_bind, hout]
      show some (contents ++ payload ++ newline, seen) =
        some (contents ++ written [(filePath, payload ++ newline)], seen)
      rw [List.append_assoc]
      simp [written]
    · simp only [hpayload, Bool.false_eq_true, if_false] at hparts ⊢
      cases hparts
      show some (contents ++ utf8 line, seen) =
        some (contents ++ written [(filePath, utf8 line)], seen)
      simp [written]

/-- Nothing is put down for a line that stands for nothing. -/
theorem preprocessLine_of_none {line : Str} (hline : Undamaged line)
    (hparts : lineParts checkout filePath line = none) (state : Bytes × List Str) :
    (preprocessLine checkout call filePath state line).toOption = none := by
  obtain ⟨contents, seen⟩ := state
  rw [lineParts] at hparts
  rw [preprocessLine]
  by_cases himport : "#!import ".toList.isPrefixOf line = true
  · have hstrip := hline _ List.mem_cons_self himport
    simp only [himport, if_true, importPath, hstrip] at hparts ⊢
    split_ifs at hparts with hfile
    rw [if_neg hfile]
    rfl
  · simp only [himport, Bool.false_eq_true, if_false] at hparts ⊢
    by_cases hpayload : "#!binaryPayloadFrom ".toList.isPrefixOf line = true
    · have hstrip := hline _ (List.mem_cons_of_mem _ List.mem_cons_self) hpayload
      simp only [hpayload, if_true, payloadCmd, hstrip] at hparts ⊢
      rw [toOption_bind, Option.map_eq_none_iff.mp hparts]
      rfl
    · simp only [hpayload, Bool.false_eq_true, if_false] at hparts
      cases hparts

/-- The loop puts down what all lines stand for. -/
theorem foldlM_toOption {lines : List Str} {parts : List (List (Part Str Bytes))}
    (hlines : ∀ line ∈ lines, Undamaged line)
    (hparts : lines.mapM (lineParts checkout filePath) = some parts)
    (hcall : ∀ path, .doc path ∈ parts.flatten → ∀ seen,
      (call path seen).toOption = (visit path seen).map fun r => (written r.1, r.2))
    (contents : Bytes) (seen : List Str) :
    (lines.foldlM (preprocessLine checkout call filePath) (contents, seen)).toOption =
      (expandAll visit filePath parts.flatten seen).map
        fun r => (contents ++ written r.1, r.2) := by
  induction lines generalizing parts contents seen with
  | nil =>
    cases hparts
    show some (contents, seen) = some (contents ++ [], seen)
    rw [List.append_nil]
  | cons line lines ih =>
    rw [List.forall_mem_cons] at hlines
    rw [List.mapM_cons] at hparts
    obtain ⟨first, hfirst, hparts⟩ := Option.bind_eq_some_iff.mp hparts
    obtain ⟨rest, hrest, hret⟩ := Option.bind_eq_some_iff.mp hparts
    cases hret
    have hcall₁ : ∀ path, .doc path ∈ first → ∀ seen,
        (call path seen).toOption = (visit path seen).map fun r => (written r.1, r.2) :=
      fun path hpath => hcall path (List.mem_append_left _ hpath)
    have hcall₂ : ∀ path, .doc path ∈ rest.flatten → ∀ seen,
        (call path seen).toOption = (visit path seen).map fun r => (written r.1, r.2) :=
      fun path hpath => hcall path (List.mem_append_right _ hpath)
    rw [List.foldlM_cons, toOption_bind,
      preprocessLine_toOption checkout hlines.1 hfirst hcall₁, List.flatten_cons, expandAll_append]
    cases expandAll visit filePath first seen with
    | none => rfl
    | some r =>
      rw [Option.map_some, Option.bind_some, Option.bind_some, ih hlines.2 hrest hcall₂]
      cases expandAll visit filePath rest.flatten r.2 with
      | none => rfl
      | some r' =>
        show some (contents ++ written r.1 ++ written r'.1, r'.2) =
          some (contents ++ written (r.1 ++ r'.1), r'.2)
        rw [written_append, List.append_assoc]

/-- It does not end where one of them stands for nothing. -/
theorem foldlM_of_none {lines : List Str} (hlines : ∀ line ∈ lines, Undamaged line)
    (hparts : lines.mapM (lineParts checkout filePath) = none) (state : Bytes × List Str) :
    (lines.foldlM (preprocessLine checkout call filePath) state).toOption = none := by
  induction lines generalizing state with
  | nil => cases hparts
  | cons line lines ih =>
    rw [List.forall_mem_cons] at hlines
    rw [List.foldlM_cons, toOption_bind]
    cases hfirst : lineParts checkout filePath line with
    | none =>
      rw [preprocessLine_of_none checkout hlines.1 hfirst]
      rfl
    | some first =>
      rw [List.mapM_cons, hfirst] at hparts
      have hrest : lines.mapM (lineParts checkout filePath) = none := by
        cases hrest : lines.mapM (lineParts checkout filePath) with
        | none => rfl
        | some rest =>
          rw [hrest] at hparts
          cases hparts
      cases (preprocessLine checkout call filePath state line).toOption with
      | none => rfl
      | some state' => exact ih hlines.2 hrest state'

end

/-- The lines of a script, of those that it imports, and so on, name what is imported and run. -/
def AllUndamaged (checkout : Checkout) (mainScript : Str) : Prop :=
  ∀ path, Relation.ReflTransGen (Includes (document checkout)) mainScript path →
    ∀ text, checkout.read path = .ok text → ∀ line ∈ keptLines '\n' text, Undamaged line

/-- The function expands the documents. -/
theorem preprocess_toOption {checkout : Checkout} {mainScript : Str}
    (hlines : AllUndamaged checkout mainScript) (fuel : ℕ) {filePath : Str}
    (hreach : Relation.ReflTransGen (Includes (document checkout)) mainScript filePath)
    (importSet : List Str) :
    (preprocess checkout fuel filePath importSet).toOption =
      (expand (document checkout) fuel filePath importSet).map fun r => (written r.1, r.2) := by
  induction fuel generalizing filePath importSet with
  | zero => rfl
  | succ fuel ih =>
    rw [preprocess, expand]
    by_cases hseen : filePath ∈ importSet
    · rw [if_pos (List.contains_iff_mem.mpr hseen), if_pos hseen]
      rfl
    · have hnot : ¬ importSet.contains filePath = true := fun h =>
        hseen (List.contains_iff_mem.mp h)
      rw [if_neg hnot, if_neg hseen, toOption_bind]
      cases hread : checkout.read filePath with
      | error e =>
        rw [document, hread]
        rfl
      | ok text =>
        have hundamaged := hlines filePath hreach text hread
        show (List.foldlM (preprocessLine checkout (preprocess checkout fuel) filePath) ([], _)
          (keptLines '\n' text)).toOption = _
        -- one line that cannot be handled makes the whole document undefined
        cases hparts : (keptLines '\n' text).mapM (lineParts checkout filePath) with
        | none =>
          have hdoc : document checkout filePath = none := by
            rw [document, hread]
            show ((keptLines '\n' text).mapM (lineParts checkout filePath)).map List.flatten = none
            rw [hparts]
            rfl
          rw [hdoc]
          exact foldlM_of_none checkout hundamaged hparts _
        | some parts =>
          have hdoc : document checkout filePath = some parts.flatten := by
            rw [document, hread]
            show ((keptLines '\n' text).mapM (lineParts checkout filePath)).map List.flatten = _
            rw [hparts]
            rfl
          rw [hdoc]
          refine foldlM_toOption checkout hundamaged hparts ?_ [] (filePath :: importSet)
          intro path hpath seen
          exact ih (hreach.tail ⟨parts.flatten, hdoc, hpath⟩) seen

/-! ### The bundle -/

/-- Two scripts that import each other, the one by a name in a folder and the other by a path that
leads up again. -/
def circular : Checkout where
  cwd := "/src".toList
  isfile path := path = "/src/lapas.sh".toList || path = "/src/ui/cli.sh".toList
  read path :=
    if path = "/src/lapas.sh".toList then .ok "#!import ui/cli.sh\nmenu\n".toList
    else if path = "/src/ui/cli.sh".toList then .ok "#!import ../lapas.sh\nfoo\n".toList
    else .error .readError
  checkOutput _ _ := .error .calledProcessError

theorem document_lapas : document circular "/src/lapas.sh".toList =
    some [.doc "/src/ui/cli.sh".toList, .text newline, .text (utf8 "menu\n".toList)] := by
  decide +kernel

theorem document_cli : document circular "/src/ui/cli.sh".toList =
    some [.doc "/src/lapas.sh".toList, .text newline, .text (utf8 "foo\n".toList)] := by
  decide +kernel

/-- The two are closed. -/
theorem mem_of_reach_circular {path : Str}
    (h : Relation.ReflTransGen (Includes (document circular)) "/src/lapas.sh".toList path) :
    path ∈ ["/src/lapas.sh".toList, "/src/ui/cli.sh".toList] := by
  refine mem_of_closed List.mem_cons_self ?_ h
  intro f hf g hg
  rintro ⟨parts, hparts, hmem⟩
  apply hg
  rcases List.mem_cons.mp hf with rfl | hf
  · rw [document_lapas] at hparts
    obtain rfl := Option.some.inj hparts
    simp at hmem
    simp [hmem]
  · obtain rfl := List.mem_singleton.mp hf
    rw [document_cli] at hparts
    obtain rfl := Option.some.inj hparts
    simp at hmem
    simp [hmem]

end Install
end Lapas
