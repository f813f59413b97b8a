import Lapas.Keep.DecisionGraph
import Lapas.Library.FileTree

/-!
# The cleanup

`parseRules` reads a `.keep` file, and `applyKeep` walks a folder depth first and
removes what the rules do not keep.  The folder is handed on as state, also out of a
walk that ends early.  Which file system calls succeed is a parameter (`Calls`); each
of them is made at most once for a path.

## Main definitions

* `CliArgs`, `Calls`, `Printed` — the command line, the file system calls, the output.
* `parseRules` — the rules of a `.keep` file.
* `traverseEntries`, `traverse`, `applyKeep` — the walk.
-/

namespace Lapas
namespace Keep

/-- The layer that a cleanup is for. -/
inductive CleanupMode
  | base
  | user
  deriving DecidableEq, Repr

/-- The flags of the command line; `folder` and the rules are arguments of their own. -/
structure CliArgs where
  mode : CleanupMode
  dryrun : Bool
  verbose : Bool
  deriving DecidableEq, Repr

/-! ### Reading the rules -/

/-- The lines of a `.keep` file that are neither comments nor blank. -/
def ruleLines (text : Str) : List Str :=
  (lines text).filter fun line => !"#".toList.isPrefixOf line && trim line ≠ []

/-- The rule that is enforced behind those of the file. -/
def enforcedRule : Str := "base:keep user:delete .keep".toList

/-- `parse_rules`, on the text of the file. -/
def parseRules (rx : RegexCrate) (text : Str) : Except Failure (DecisionGraph rx) :=
  DecisionGraph.ofLines rx (ruleLines text ++ [enforcedRule])

/-! ### The file system -/

/-- Which calls succeed.  A call that fails changes nothing; `removeDir` moreover only
ever removes an empty directory. -/
structure Calls where
  /-- `fs::read_dir` of a directory. -/
  readDir : Path → Bool
  /-- The item of `read_dir` for an entry. -/
  dirEntry : Path → Bool
  /-- `DirEntry::file_type`. -/
  fileType : Path → Bool
  removeFile : Path → Bool
  removeDirAll : Path → Bool
  removeDir : Path → Bool

/-- No call fails for a reason of its own. -/
@[simps] def Calls.allSucceed : Calls where
  readDir _ := true
  dirEntry _ := true
  fileType _ := true
  removeFile _ := true
  removeDirAll _ := true
  removeDir _ := true

/-- A line of output, with the path below the folder. -/
inductive Printed
  /-- `[DELETE] Folder: ` -/
  | folder (path : Path)
  /-- `[DELETE] Folder recursively: ` -/
  | folderRecursively (path : Path)
  /-- `[DELETE] File: ` -/
  | file (path : Path)
  deriving DecidableEq

/-- What ends a walk early: a call of the file system that fails, or a panic on a name or a rule. -/
inductive Stop
  | io
  | panic
  deriving DecidableEq, Repr

/-- A walk: what it leaves of the entries, what it prints, and how it ends.  The flag it
returns says that it has kept nothing itself. -/
structure Walk (C : Type) where
  entries : Listing FileName C
  printed : List Printed
  result : Except Stop Bool

/-- The walk over the remaining entries, behind the work on the first one. -/
def Walk.after {C : Type} (first : Listing FileName C → Listing FileName C)
    (printed : List Printed) (rest : Walk C) : Walk C where
  entries := first rest.entries
  printed := printed ++ rest.printed
  result := rest.result

section

variable {C : Type} (first : Listing FileName C → Listing FileName C) (out : List Printed)
  (rest : Walk C)

@[simp] theorem Walk.after_entries : (rest.after first out).entries = first rest.entries := rfl

@[simp] theorem Walk.after_printed :
    (rest.after first out).printed = out ++ rest.printed := rfl

@[simp] theorem Walk.after_result : (rest.after first out).result = rest.result := rfl

end

/-! ### The walk -/

section

variable {rx : RegexCrate} {C : Type} (calls : Calls) (args : CliArgs) (graph : DecisionGraph rx)

/-- The action of the mode, of the two that a rule has: one for the base and one for the users. -/
def Actions.forMode (actions : Actions) : CleanupMode → FileAction
  | .base => actions.base
  | .user => actions.user

/-- The line, when output is asked for. -/
def printed (line : Printed) : List Printed := if args.verbose then [line] else []

/-- The loop of `traverse` over the entries of the folder at `curPath`. -/
def traverseEntries (curPath : Path) : Bool → Listing FileName C → Walk C
  | isEmpty, .nil => ⟨.nil, [], .ok isEmpty⟩
  | isEmpty, .file name content rest =>
    let childPath := curPath ++ [name]
    if !calls.dirEntry childPath then
      (traverseEntries curPath isEmpty rest).after (.file name content) []
    else match graph.getAction childPath with
      | none => ⟨.file name content rest, [], .error .panic⟩
      | some decision =>
        if !calls.fileType childPath then ⟨.file name content rest, [], .error .io⟩
        else if decision.actions.forMode args.mode = .delete then
          (traverseEntries curPath isEmpty rest).after
            (if !args.dryrun && calls.removeFile childPath then id else .file name content)
            (printed args (.file childPath))
        else (traverseEntries curPath false rest).after (.file name content) []
  | isEmpty, .dir name isOpaque entries rest =>
    let childPath := curPath ++ [name]
    if !calls.dirEntry childPath then
      (traverseEntries curPath isEmpty rest).after (.dir name isOpaque entries) []
    else match graph.getAction childPath with
      | none => ⟨.dir name isOpaque entries rest, [], .error .panic⟩
      | some decision =>
        if !calls.fileType childPath then ⟨.dir name isOpaque entries rest, [], .error .io⟩
        else if decision.descend then
          let below :=
            if calls.readDir childPath then traverseEntries childPath true entries
            else ⟨entries, [], .error .io⟩
          match below.result with
          | .error stop => ⟨.dir name isOpaque below.entries rest, below.printed, .error stop⟩
          | .ok childEmpty =>
            if childEmpty && decision.actions.forMode args.mode = .delete then
              (traverseEntries curPath (isEmpty && childEmpty) rest).after
                (if !args.dryrun && calls.removeDir childPath && below.entries.isEmpty then id
                  else .dir name isOpaque below.entries)
                (below.printed ++ printed args (.folder childPath))
            else
              (traverseEntries curPath (isEmpty && childEmpty) rest).after
                (.dir name isOpaque below.entries) below.printed
        else if decision.actions.forMode args.mode = .delete then
          (traverseEntries curPath isEmpty rest).after
            (if !args.dryrun && calls.removeDirAll childPath then id
              else .dir name isOpaque entries)
            (printed args (.folderRecursively childPath))
        else (traverseEntries curPath false rest).after (.dir name isOpaque entries) []

/-- `traverse`, on the folder at `curPath`: when it can be read its entries are gone through in the
order of the listing. -/
def traverse (curPath : Path) (entries : Listing FileName C) : Walk C :=
  if calls.readDir curPath then traverseEntries calls args graph curPath true entries
  else ⟨entries, [], .error .io⟩

/-- What `apply_keep` leaves of the folder and prints, and whether it returns. -/
structure Cleanup (C : Type) where
  entries : Listing FileName C
  printed : List Printed
  result : Except Failure Unit

/-- `apply_keep` on a folder; an i/o error that ends the walk is dropped. -/
def applyKeep (folder : Listing FileName C) : Cleanup C :=
  let walk := traverse calls args graph [] folder
  { entries := walk.entries
    printed := walk.printed
    result := match walk.result with
      | .error .panic => .error (.panic "called `Option::unwrap()` on a `None` value")
      | _ => .ok () }

end

/-! ### Any walk -/

section

variable {rx : RegexCrate} {C : Type} {calls : Calls} {args : CliArgs} {graph : DecisionGraph rx}

/-- A walk adds no names to a directory. -/
theorem names_traverseEntries_subset (l : Listing FileName C) (path : Path) (isEmpty : Bool) :
    (traverseEntries calls args graph path isEmpty l).entries.names ⊆ l.names := by
  induction l generalizing path isEmpty with
  | nil => exact List.Subset.refl _
  | file name content rest ih =>
    -- `hstays` is for the branches that leave the entry, `hgoes` for those that remove it
    have hstays := fun flag => List.cons_subset_cons name (ih path flag)
    have hgoes := fun flag => List.subset_cons_of_subset name (ih path flag)
    rw [traverseEntries]
    split
    · exact hstays isEmpty
    · split
      · exact List.Subset.refl _
      · split
        · exact List.Subset.refl _
        · split
          · rw [Walk.after_entries]
            split
            · exact hgoes isEmpty
            · exact hstays isEmpty
          · exact hstays false
  | dir name isOpaque entries rest _ ih =>
    have hstays := fun flag => List.cons_subset_cons name (ih path flag)
    have hgoes := fun flag => List.subset_cons_of_subset name (ih path flag)
    rw [traverseEntries]
    dsimp only
    -- what the walk below the directory does has no part in the names up here
    generalize (if calls.readDir (path ++ [name]) = true then _ else _ : Walk C) = below
    split
    · exact hstays isEmpty
    · split
      · exact List.Subset.refl _
      · split
        · exact List.Subset.refl _
        · split
          · split
            · exact List.Subset.refl _
            · split
              · rw [Walk.after_entries]
                split
                · exact hgoes _
                · exact hstays _
              · exact hstays _
          · split
            · rw [Walk.after_entries]
              split
              · exact hgoes isEmpty
              · exact hstays isEmpty
            · exact hstays false

/-- How a walk ends does not depend on what it removes and prints. -/
theorem traverseEntries_result_eq {args' : CliArgs} (hmode : args'.mode = args.mode)
    (l : Listing FileName C) (path : Path) (isEmpty : Bool) :
    (traverseEntries calls args' graph path isEmpty l).result =
      (traverseEntries calls args graph path isEmpty l).result := by
  -- a dry run takes the same turns as a real one, as only what is removed and printed differs
  induction l generalizing path isEmpty with
  | nil => rfl
  | file name content rest ih =>
    rw [traverseEntries, traverseEntries, hmode]
    split
    · exact ih path isEmpty
    · cases graph.getAction (path ++ [name]) with
      | none => rfl
      | some decision =>
        dsimp only
        split
        · rfl
        · split
          · exact ih path isEmpty
          · exact ih path false
  | dir name isOpaque entries rest ihe ihr =>
    have hbelow : ∀ flag, (if calls.readDir (path ++ [name]) then
        traverseEntries calls args' graph (path ++ [name]) flag entries
        else ⟨entries, [], .error .io⟩).result =
      (if calls.readDir (path ++ [name]) then
        traverseEntries calls args graph (path ++ [name]) flag entries
        else ⟨entries, [], .error .io⟩).result := by
      intro flag
      split
      · exact ihe _ _
      · rfl
    rw [traverseEntries, traverseEntries]
    dsimp only
    rw [hmode, hbelow]
    split
    · exact ihr path isEmpty
    · cases graph.getAction (path ++ [name]) with
      | none => rfl
      | some decision =>
        dsimp only
        split
        · rfl
        · split
          · split
            · rfl
            · split
              · exact ihr path _
              · exact ihr path _
          · split
            · exact ihr path isEmpty
            · exact ihr path false

end

end Keep
end Lapas
