import Lapas.Library.FileSystem

/-!
# Python's calls on files

The functions of `os`, `shutil` and of files that scripts use, on file systems with links.  A
call returns or raises, and leaves a file system in both cases.

## Main definitions

* `PyError`, `Py` — the calls.
* `osRemove`, `rmtree`, `makedirs`, `symlink`, `readFile`, `writeFile`, `osRename` — the
  functions of these names.
* `shutilMove` — a rename, with a copy as its second try.

## Main results

* `seq_of_ok`, `seq_of_error`, `exists_of_bind` — one call after another.
* `osRename_of_none`, `osRename_of_file`, `move_dir_error` — what a rename does.
* `shutilMove_of_not_dir`, `shutilMove_of_dir` — what a move is.
* `makedirs_existOk` — when directories can be created.
-/

namespace Lapas
namespace Python

variable {N C : Type}

/-! ### The calls -/

/-- The errors that the helpers and the file system raise. -/
inductive PyError
  | fileNotFoundError (msg : String)
  | isADirectoryError (msg : String)
  | notADirectoryError
  | fileExistsError
  | osError
  | shutilError
  /-- A template has no argument for one of its names. -/
  | keyError
  deriving DecidableEq, Repr

/-- A call returns or raises, and leaves a file system. -/
abbrev Py (N C : Type) := EStateM PyError (Nodes N C)

section

variable [DecidableEq N]

/-- `os.remove`: a file or a link is removed, the link itself and not what it leads to; a directory
raises. -/
def osRemove (path : List N) : Py N C Unit := fun fs =>
  match fs path with
  | none => .error (.fileNotFoundError "") fs
  | some .dir => .error (.isADirectoryError "") fs
  | some _ => .ok () (fs.removed path)

/-- `shutil.rmtree`: a directory is removed with all that is below it; a link raises, and so does a
file. -/
def rmtree (path : List N) : Py N C Unit := fun fs =>
  match fs path with
  | none => .error (.fileNotFoundError "") fs
  | some .dir => .ok () (fs.removed path)
  | some (.link _) => .error .osError fs
  | some (.file _) => .error .notADirectoryError fs

/-- Directories can be created up to the path. -/
def Creatable (fs : Nodes N C) (path : List N) : Bool :=
  path.inits.all fun p =>
    match fs p with
    | none | some .dir => true
    | _ => false

/-- `os.makedirs`: all directories on the way are made. With `exist_ok` a directory that is there
already is fine. -/
def makedirs (path : List N) (existOk : Bool) : Py N C Unit := fun fs =>
  if (fs path).isSome then
    if existOk && fs.isdir path then .ok () fs else .error .fileExistsError fs
  else if Creatable fs path then .ok () (fs.created path)
  else .error .notADirectoryError fs

/-- `os.symlink`: a new link in a directory that exists; the target is not looked at. -/
def symlink (target path : List N) : Py N C Unit := fun fs =>
  if (fs path).isSome then .error .fileExistsError fs
  else if fs.isdir path.dropLast then .ok () (fs.put path (.link target))
  else .error (.fileNotFoundError "") fs

/-- `open(path, "r").read()`, which follows links; what is no file raises. -/
def readFile (path : List N) : Py N C C := fun fs =>
  match fs.stat path with
  | some (.file content) => .ok content fs
  | some _ => .error (.isADirectoryError "") fs
  | none => .error (.fileNotFoundError "") fs

/-- `open(path, mode)` for writing, where `content` says what is in the file then. -/
def writeFile (path : List N) (content : Option C → C) : Py N C Unit := fun fs =>
  let real := fs.resolve path
  match fs real with
  | some (.file old) => .ok () (fs.put real (.file (content (some old))))
  | some .dir => .error (.isADirectoryError "") fs
  | some (.link _) => .error .osError fs
  | none =>
    if fs.isdir real.dropLast then .ok () (fs.put real (.file (content none)))
    else .error (.fileNotFoundError "") fs

/-- `os.rename`, where no directory is at the destination, or the source is there itself. -/
def osRename (src dst : List N) : Py N C Unit := fun fs =>
  match fs src, fs dst with
  | none, _ => .error (.fileNotFoundError "") fs
  | some node, node' =>
    if src = dst then .ok () fs
    else if src <+: dst then .error .osError fs
    else if fs.isdir dst.dropLast then
      match node, node' with
      | _, none => .ok () (fs.moved src dst)
      | .dir, some _ => .error .notADirectoryError fs
      | _, some .dir => .error (.isADirectoryError "") fs
      | _, some _ => .ok () (fs.moved src dst)
    else .error (.fileNotFoundError "") fs

/-- `os.path.basename`, as a path of at most one name; the root has no name. -/
def basename (path : List N) : List N := path.getLast?.toList

/-- What `shutil.move` does when the source cannot be renamed. -/
def copyAndRemove (src dst realDst : List N) : Py N C Unit := fun fs =>
  match fs src with
  | none => .error (.fileNotFoundError "") fs
  | some (.link target) => (do symlink target realDst; osRemove src) fs
  | some .dir =>
    if src <+: dst then .error .shutilError fs
    -- `copytree` creates the destination first
    else (do makedirs realDst false; modify fun fs : Nodes N C => fs.moved src realDst) fs
  | some (.file content) => (do writeFile realDst fun _ => content; osRemove src) fs

/-- `shutil.move`: a destination that is a directory is moved into, and where renaming fails the
source is copied and removed. -/
def shutilMove (src dst : List N) : Py N C Unit := fun fs =>
  let renameTo := fun realDst =>
    match osRename src realDst fs with
    | .ok _ fs' => .ok () fs'
    | .error _ _ => copyAndRemove src dst realDst fs
  if fs.isdir dst then
    if fs.resolve src = fs.resolve dst ∧ fs.islink src = false then osRename src dst fs
    else
      let realDst := fs.resolve dst ++ basename src
      if fs.exists? realDst then .error .shutilError fs else renameTo realDst
  else renameTo dst

end

/-- The file system that a call leaves. -/
def leaves {α : Type} : EStateM.Result PyError (Nodes N C) α → Nodes N C
  | .ok _ fs => fs
  | .error _ fs => fs

/-! ### Running calls -/

section

variable {α β : Type} {call : Py N C α} {rest : α → Py N C β} {fs fs' : Nodes N C}

theorem seq_of_ok {a : α} (h : call fs = .ok a fs') : (call >>= rest) fs = rest a fs' := by
  show EStateM.bind call rest fs = _
  rw [EStateM.bind, h]

theorem seq_of_error {e : PyError} (h : call fs = .error e fs') :
    (call >>= rest) fs = .error e fs' := by
  show EStateM.bind call rest fs = _
  rw [EStateM.bind, h]

theorem creatable_iff {path : List N} :
    Creatable fs path = true ↔ ∀ p, p <+: path → fs p = none ∨ fs p = some .dir := by
  rw [Creatable, List.all_eq_true]
  refine forall_congr' fun p => ?_
  rw [List.mem_inits]
  refine imp_congr_right fun _ => ?_
  cases hnode : fs p with
  | none => simp
  | some node => cases node <;> simp

/-- A call that returns has passed its first part. -/
theorem exists_of_bind {b : β} (h : (call >>= rest) fs = .ok b fs') :
    ∃ a fs₁, call fs = .ok a fs₁ ∧ rest a fs₁ = .ok b fs' := by
  change EStateM.bind call rest fs = _ at h
  rw [EStateM.bind] at h
  split at h
  · rename_i a fs₁ hcall
    exact ⟨a, fs₁, hcall, h⟩
  · cases h

variable [DecidableEq N] {src dst realDst : List N} {node : Node N C}

theorem symlink_of_some {target path : List N} (h : fs path ≠ none) :
    symlink target path fs = .error .fileExistsError fs :=
  if_pos (Option.isSome_iff_ne_none.mpr h)

theorem symlink_of_none {target path : List N} (h : fs path = none)
    (hdir : fs path.dropLast = some .dir) :
    symlink target path fs = .ok () (fs.put path (.link target)) := by
  rw [symlink, if_neg (by rw [h]; exact Bool.false_ne_true), if_pos (Nodes.isdir_of_dir hdir)]

theorem osRename_self (h : fs src ≠ none) : osRename src src fs = .ok () fs := by
  obtain ⟨node, hnode⟩ := Option.ne_none_iff_exists'.mp h
  rw [osRename, hnode]
  exact if_pos rfl

/-- A folder takes a free place. -/
theorem osRename_of_none (hsrc : fs src = some node) (hdst : fs dst = none)
    (hpre : ¬ src <+: dst) (hdir : fs dst.dropLast = some .dir) :
    osRename src dst fs = .ok () (fs.moved src dst) := by
  have hne : src ≠ dst := fun heq => hpre (heq ▸ List.prefix_rfl)
  simp only [osRename, hsrc, hdst, if_neg hne, if_neg hpre, Nodes.isdir_of_dir hdir,
    if_true]

/-- A file takes the place of whatever is no folder. -/
theorem osRename_of_file {data : C} (hsrc : fs src = some (.file data))
    (hdst : fs dst ≠ some .dir) (hpre : ¬ src <+: dst) (hdir : fs dst.dropLast = some .dir) :
    osRename src dst fs = .ok () (fs.moved src dst) := by
  have hne : src ≠ dst := fun heq => hpre (heq ▸ List.prefix_rfl)
  cases hnode : fs dst with
  | none => exact osRename_of_none hsrc hnode hpre hdir
  | some node =>
    cases node with
    | dir => exact absurd hnode hdst
    | file _ | link _ =>
      simp only [osRename, hsrc, hnode, if_neg hne, if_neg hpre, Nodes.isdir_of_dir hdir,
        if_true]

/-- A folder is neither put into itself nor in the place of something else. -/
theorem move_dir_error (hsrc : fs src = some .dir) (hne : src ≠ realDst)
    (h : src <+: dst ∧ dst <+: realDst ∨ ¬ src <+: dst ∧ fs realDst ≠ none) :
    (∃ e, osRename src realDst fs = .error e fs) ∧
      ∃ e, copyAndRemove src dst realDst fs = .error e fs := by
  rcases h with ⟨hpre, hreal⟩ | ⟨hpre, hsome⟩
  · constructor
    · refine ⟨.osError, ?_⟩
      simp only [osRename, hsrc, if_neg hne, if_pos (hpre.trans hreal)]
    · refine ⟨.shutilError, ?_⟩
      simp only [copyAndRemove, hsrc, if_pos hpre]
  · obtain ⟨node, hnode⟩ := Option.ne_none_iff_exists'.mp hsome
    constructor
    · simp only [osRename, hsrc, hnode, if_neg hne]
      split
      · exact ⟨_, rfl⟩
      · split
        · exact ⟨_, rfl⟩
        · exact ⟨_, rfl⟩
    · refine ⟨.fileExistsError, ?_⟩
      have hmakedirs : makedirs realDst false fs = .error .fileExistsError fs := by
        rw [makedirs, hnode]
        rfl
      simp only [copyAndRemove, hsrc, if_neg hpre]
      exact seq_of_error hmakedirs

/-! ### Moving to existing data -/

/-- `shutil.move` onto something that is no folder. -/
theorem shutilMove_of_not_dir (hdir : fs.isdir dst = false) :
    shutilMove src dst fs =
      match osRename src dst fs with
      | .ok _ fs' => .ok () fs'
      | .error _ _ => copyAndRemove src dst dst fs := by
  rw [shutilMove]
  exact if_neg (by rw [hdir]; exact Bool.false_ne_true)

/-- `shutil.move` of something else onto a folder. -/
theorem shutilMove_of_dir (hsrc : fs.islink src = false) (hdst : fs dst = some .dir)
    (hne : src ≠ dst) :
    shutilMove src dst fs =
      if fs.exists? (dst ++ basename src) then .error .shutilError fs
      else
        match osRename src (dst ++ basename src) fs with
        | .ok _ fs' => .ok () fs'
        | .error _ _ => copyAndRemove src dst (dst ++ basename src) fs := by
  have hlink : fs.islink dst = false := Nodes.islink_of_dir hdst
  rw [shutilMove, if_pos (Nodes.isdir_of_dir hdst), Nodes.resolve_of_not_link hsrc,
    Nodes.resolve_of_not_link hlink]
  exact if_neg fun hsame => hne hsame.1

/-! ### Directories -/

omit [DecidableEq N] in
/-- The directories above something need not be created. -/
theorem creatable_of_some (hfs : WellFormed fs) {path : List N} (hsome : fs path ≠ none)
    (hne : path ≠ []) : Creatable fs path.dropLast = true := by
  refine creatable_iff.mpr fun p hpre => Or.inr ?_
  have hpath : p ≠ path := fun heq => Nodes.not_prefix_dropLast hne (heq ▸ hpre)
  exact hfs.dir_above (hpre.trans (List.dropLast_prefix path)) hpath hsome

variable {path : List N}

/-- Neither is the path in the directory above it. -/
theorem removed_above (hne : path ≠ []) {p : List N} (hpre : p <+: path.dropLast) :
    fs.removed path p = fs p :=
  Nodes.removed_of_not_below fun h => Nodes.not_prefix_dropLast hne (h.trans hpre)

theorem created_removed (hfs : WellFormed fs) (hsome : fs path ≠ none) (hne : path ≠ []) :
    (fs.removed path).created path.dropLast = fs.removed path := by
  refine Nodes.created_eq_self fun p hpre => ?_
  have hpath : p ≠ path := fun heq => Nodes.not_prefix_dropLast hne (heq ▸ hpre)
  rw [removed_above hne hpre,
    hfs.dir_above (hpre.trans (List.dropLast_prefix path)) hpath hsome]
  exact fun heq => nomatch heq

theorem wellFormed_created (hfs : WellFormed fs) (hne : path ≠ [])
    (hcreatable : Creatable fs path.dropLast = true) :
    WellFormed ((fs.removed path).created path.dropLast) := by
  refine (hfs.removed hne).created fun p hpre => ?_
  rw [removed_above hne hpre]
  exact creatable_iff.mp hcreatable p hpre

/-- A file is written where there is none. -/
theorem writeFile_of_none (hnone : fs path = none) (hdir : fs path.dropLast = some .dir)
    (content : Option C → C) :
    writeFile path content fs = .ok () (fs.put path (.file (content none))) := by
  have hresolve : fs.resolve path = path := Nodes.resolve_of_not_link (Nodes.islink_of_none hnone)
  simp only [writeFile, hresolve, hnone, Nodes.isdir_of_dir hdir, if_true]

theorem makedirs_of_dir (hdir : fs path = some .dir) : makedirs path true fs = .ok () fs := by
  rw [makedirs, hdir, if_pos Option.isSome_some, Nodes.isdir_of_dir hdir]
  rfl

/-- `os.makedirs` succeeds where directories can be created. -/
theorem makedirs_existOk (hfs : WellFormed fs) (hlink : fs.islink path = false) :
    (Creatable fs path = true → makedirs path true fs = .ok () (fs.created path)) ∧
      (Creatable fs path = false → ∃ e, makedirs path true fs = .error e fs) := by
  cases hnode : fs path with
  | none =>
    constructor
    · intro hcreatable
      rw [makedirs, hnode, if_neg (fun h => nomatch h), if_pos hcreatable]
    · intro hcreatable
      refine ⟨.notADirectoryError, ?_⟩
      rw [makedirs, hnode, if_neg (fun h => nomatch h), hcreatable]
      rfl
  | some node =>
    have hsome : fs path ≠ none := Nodes.ne_none hnode
    by_cases hdir : fs path = some .dir
    · have habove : ∀ p, p <+: path → fs p = some .dir := by
        intro p hpre
        by_cases hp : p = path
        · rw [hp]
          exact hdir
        · exact hfs.dir_above hpre hp hsome
      have hcreated : fs.created path = fs := Nodes.created_eq_self fun p hpre => by
        rw [habove p hpre]
        exact fun heq => nomatch heq
      constructor
      · intro _
        rw [makedirs_of_dir hdir, hcreated]
      · intro hcreatable
        rw [creatable_iff.mpr fun p hpre => Or.inr (habove p hpre)] at hcreatable
        cases hcreatable
    · constructor
      · intro hcreatable
        exact ((creatable_iff.mp hcreatable path List.prefix_rfl).elim hsome hdir).elim
      · intro _
        refine ⟨.fileExistsError, ?_⟩
        rw [makedirs, hnode, if_pos Option.isSome_some, Nodes.isdir_of_not_dir hlink hdir]
        rfl

end

end Python
end Lapas
