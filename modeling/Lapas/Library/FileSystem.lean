import Mathlib.Data.List.Infix
import Mathlib.Data.Nat.Notation
import Mathlib.Logic.Function.Basic
import Mathlib.Tactic.Common

/-!
# File systems with links

A path is the list of its names from the root on, and a file system says what every path
stands for.  Directories on the way to a path are no links: a path that goes through links is
written with these resolved.

## Main definitions

* `Node`, `Nodes`, `FileSystem` — what a path stands for, and when this makes sense.
* `Nodes.Place` — a path that is written in this way.
* `Nodes.resolve`, `Nodes.exists?`, `Nodes.isdir`, `Nodes.islink` — looking at a path.
* `Nodes.removed`, `Nodes.moved`, `Nodes.created` — the file systems after some calls.

## Main results

* `WellFormed.dir_above` — what is above a path that stands for something is a directory.
* `WellFormed.removed`, `WellFormed.put`, `WellFormed.created` — these are file systems again.
-/

namespace Lapas

variable {N C : Type}

/-- What is at a path: a file with its content, a directory, or a link to another path. -/
inductive Node (N C : Type)
  | file (content : C)
  | dir
  | link (target : List N)
  deriving DecidableEq

/-- What every path of a file system stands for; most paths stand for nothing. -/
abbrev Nodes (N C : Type) := List N → Option (Node N C)

/-- The root is a directory, and so is what anything else is in. -/
structure WellFormed (fs : Nodes N C) : Prop where
  root : fs [] = some .dir
  /-- Everything is in a directory. -/
  parent : ∀ path name, fs (path ++ [name]) ≠ none → fs path = some .dir

/-- A file system is its nodes, together with the proof that they are well formed. -/
structure FileSystem (N C : Type) where
  nodes : Nodes N C
  wellFormed : WellFormed nodes

namespace Nodes

/-! ### Looking at paths -/

/-- `os.path.islink`, which does not follow the link. -/
def islink (fs : Nodes N C) (path : List N) : Bool :=
  match fs path with
  | some (.link _) => true
  | _ => false

/-- A path other than the root, with the links in its directories resolved. -/
structure Place (fs : Nodes N C) where
  path : List N
  ne_nil : path ≠ []
  resolved : ∀ p, p <+: path → p ≠ path → fs.islink p = false

/-- Where a path leads to; no more than `fuel` links are followed. -/
def resolveWith (fs : Nodes N C) : ℕ → List N → List N
  | 0, path => path
  | fuel + 1, path =>
    match fs path with
    | some (.link target) => fs.resolveWith fuel target
    | _ => path

/-- The kernel follows at most 40 links. -/
def resolve (fs : Nodes N C) (path : List N) : List N := fs.resolveWith 40 path

/-- What a path leads to when links are followed; a chain of links that does not end within the
bound leads nowhere. -/
def stat (fs : Nodes N C) (path : List N) : Option (Node N C) :=
  match fs (fs.resolve path) with
  | some (.link _) => none
  | node => node

/-- `os.path.exists`, which follows links and is false for one that leads nowhere. -/
def exists? (fs : Nodes N C) (path : List N) : Bool := (fs.stat path).isSome

/-- `os.path.isdir`, which follows links: the path leads to a directory. -/
def isdir (fs : Nodes N C) (path : List N) : Bool :=
  match fs.stat path with
  | some .dir => true
  | _ => false

/-- What is at a path, and below it. -/
def below (fs : Nodes N C) (path : List N) : Nodes N C := fun rest => fs (path ++ rest)

section

variable {fs : Nodes N C} {path : List N}

theorem ne_none {node : Node N C} (h : fs path = some node) : fs path ≠ none :=
  Option.ne_none_iff_exists'.mpr ⟨node, h⟩

theorem islink_of_link {target : List N} (h : fs path = some (.link target)) :
    fs.islink path = true := by rw [islink, h]

theorem resolveWith_of_not_link (h : fs.islink path = false) (fuel : ℕ) :
    fs.resolveWith fuel path = path := by
  cases fuel with
  | zero => rfl
  | succ fuel =>
    unfold resolveWith
    split
    · rename_i target hlink
      rw [islink, hlink] at h
      cases h
    · rfl

theorem resolve_of_not_link (h : fs.islink path = false) : fs.resolve path = path :=
  resolveWith_of_not_link h 40

theorem stat_of_not_link (h : fs.islink path = false) : fs.stat path = fs path := by
  rw [stat, resolve_of_not_link h]
  split
  · rename_i target hlink
    rw [islink, hlink] at h
    cases h
  · rfl

theorem isdir_of_dir (h : fs path = some .dir) : fs.isdir path = true := by
  have hlink : fs.islink path = false := by rw [islink, h]
  rw [isdir, stat_of_not_link hlink, h]

theorem isdir_of_not_dir (hlink : fs.islink path = false) (h : fs path ≠ some .dir) :
    fs.isdir path = false := by
  rw [isdir, stat_of_not_link hlink]
  split
  · rename_i hdir
    exact absurd hdir h
  · rfl

theorem exists?_of_not_link (h : fs.islink path = false) : fs.exists? path = (fs path).isSome := by
  rw [exists?, stat_of_not_link h]

theorem exists?_iff : fs.exists? path = true ↔
    fs (fs.resolve path) ≠ none ∧ fs.islink (fs.resolve path) = false := by
  rw [exists?, stat, islink]
  cases hnode : fs (fs.resolve path) with
  | none => simp
  | some node => cases node <;> simp

/-- A path that leads to something is not free. -/
theorem ne_none_of_exists? (h : fs.exists? path = true) : fs path ≠ none := by
  intro hnone
  rw [exists?_of_not_link (by rw [islink, hnone]), hnone] at h
  cases h

@[simp] theorem islink_of_none (h : fs path = none) : fs.islink path = false := by rw [islink, h]

@[simp] theorem islink_of_file {content : C} (h : fs path = some (.file content)) :
    fs.islink path = false := by rw [islink, h]

@[simp] theorem islink_of_dir (h : fs path = some .dir) : fs.islink path = false := by
  rw [islink, h]

/-- A link to something that is no link leads there. -/
theorem resolve_of_link {target : List N} (hlink : fs path = some (.link target))
    (htarget : fs.islink target = false) : fs.resolve path = target := by
  rw [resolve, resolveWith, hlink]
  exact resolveWith_of_not_link htarget 39

/-- Two file systems with the same links lead a path to the same place. -/
theorem resolve_congr {fs' : Nodes N C}
    (h : ∀ path target, fs path = some (.link target) ↔ fs' path = some (.link target)) :
    fs.resolve path = fs'.resolve path := by
  have hwith : ∀ fuel path, fs.resolveWith fuel path = fs'.resolveWith fuel path := by
    intro fuel
    induction fuel with
    | zero => intro path; rfl
    | succ fuel ih =>
      intro path
      unfold resolveWith
      cases hnode : fs path with
      | none =>
        cases hnode' : fs' path with
        | none => rfl
        | some node =>
          cases node with
          | link target => rw [← h, hnode] at hnode'; cases hnode'
          | file _ | dir => rfl
      | some node =>
        cases node with
        | link target =>
          rw [(h path target).mp hnode]
          exact ih target
        | file _ | dir =>
          cases hnode' : fs' path with
          | none => rfl
          | some node' =>
            cases node' with
            | link target => rw [← h, hnode] at hnode'; cases hnode'
            | file _ | dir => rfl
  exact hwith 40 path

end

/-! ### Calls -/

theorem not_prefix_dropLast {path : List N} (hne : path ≠ []) : ¬ path <+: path.dropLast := by
  intro hpre
  have hlength := hpre.length_le
  rw [List.length_dropLast] at hlength
  have hpos := List.length_pos_iff.mpr hne
  omega

theorem prefix_dropLast {p path : List N} (hpre : p <+: path) (hne : p ≠ path) :
    p <+: path.dropLast := by
  rcases eq_or_ne path [] with rfl | hpath
  · exact absurd (List.prefix_nil.mp hpre) hne
  · rw [← List.dropLast_append_getLast hpath] at hpre hne
    exact (List.prefix_concat_iff.mp hpre).resolve_left hne

theorem Place.parent {fs : Nodes N C} (place : fs.Place) :
    fs.islink place.path.dropLast = false :=
  place.resolved _ (List.dropLast_prefix _) fun heq =>
    not_prefix_dropLast place.ne_nil (by rw [heq])

section

variable [DecidableEq N] (fs : Nodes N C)

/-- Without a path and what is below it. -/
def removed (path : List N) : Nodes N C := fun p => if path <+: p then none else fs p

/-- The file system with a node at a path, whatever was there before; all other paths are as they
were. -/
def put (path : List N) (node : Node N C) : Nodes N C := Function.update fs path (some node)

/-- With what is at one path at another one. -/
def moved (src dst : List N) : Nodes N C := fun p =>
  if dst <+: p then fs (src ++ p.drop dst.length) else if src <+: p then none else fs p

/-- With directories at a path and above it. -/
def created (path : List N) : Nodes N C := fun p =>
  if p <+: path ∧ (fs p).isNone then some .dir else fs p

end

section

variable [DecidableEq N] {fs : Nodes N C} {path src dst : List N}

@[simp] theorem removed_append (rest : List N) : fs.removed path (path ++ rest) = none :=
  if_pos (List.prefix_append _ _)

@[simp] theorem removed_self : fs.removed path path = none := if_pos List.prefix_rfl

theorem removed_of_not_below {p : List N} (h : ¬ path <+: p) : fs.removed path p = fs p := if_neg h

@[simp] theorem put_self (node : Node N C) : fs.put path node path = some node :=
  Function.update_self ..

theorem put_of_ne {p : List N} (h : p ≠ path) (node : Node N C) : fs.put path node p = fs p :=
  Function.update_of_ne h ..

@[simp] theorem put_put (node node' : Node N C) :
    (fs.put path node).put path node' = fs.put path node' := Function.update_idem ..

@[simp] theorem moved_append (rest : List N) :
    fs.moved src dst (dst ++ rest) = fs (src ++ rest) := by
  rw [moved, if_pos (List.prefix_append _ _), List.drop_left]

@[simp] theorem moved_self : fs.moved src dst dst = fs src := by
  have hroot : fs.moved src dst (dst ++ []) = fs (src ++ []) := moved_append []
  rwa [List.append_nil, List.append_nil] at hroot

theorem moved_of_not_below {p : List N} (hsrc : ¬ src <+: p) (hdst : ¬ dst <+: p) :
    fs.moved src dst p = fs p := by rw [moved, if_neg hdst, if_neg hsrc]

theorem moved_of_below {p : List N} (hsrc : src <+: p) (hdst : ¬ dst <+: p) :
    fs.moved src dst p = none := by rw [moved, if_neg hdst, if_pos hsrc]

theorem created_of_above {p : List N} (h : p <+: path) :
    fs.created path p = some ((fs p).getD .dir) := by
  rw [created]
  cases hnode : fs p with
  | none => exact if_pos ⟨h, rfl⟩
  | some node => exact if_neg fun hnone => nomatch hnone.2

theorem created_of_not_above {p : List N} (h : ¬ p <+: path) : fs.created path p = fs p :=
  if_neg fun hcreated => h hcreated.1

/-- A directory on the way may as well be made before. -/
theorem created_put {p : List N} (hpre : p <+: path) (hnone : fs p = none) :
    (fs.put p .dir).created path = fs.created path := by
  funext q
  by_cases hq : q = p
  · rw [hq, created_of_above hpre, created_of_above hpre, put_self, hnone]
    rfl
  · rw [created, created, put_of_ne hq]

/-- Where the directories are there, none is created. -/
theorem created_eq_self (h : ∀ p, p <+: path → fs p ≠ none) : fs.created path = fs := by
  funext p
  refine if_neg fun hcreated => h p hcreated.1 ?_
  exact Option.isNone_iff_eq_none.mp hcreated.2

theorem created_of_some {p : List N} {node : Node N C} (h : fs p = some node) :
    fs.created path p = some node := by
  rw [created, h]
  exact if_neg fun hnone => nomatch hnone.2

end

end Nodes

/-! ### File systems -/

namespace WellFormed

variable {fs : Nodes N C} {path : List N}

/-- What is above something is a directory. -/
theorem dir_above (h : WellFormed fs) {path' : List N} (hpre : path <+: path')
    (hne : path ≠ path') (hsome : fs path' ≠ none) : fs path = some .dir := by
  obtain ⟨rest, rfl⟩ := hpre
  induction rest using List.reverseRecOn with
  | nil => exact absurd (List.append_nil path).symm hne
  | append_singleton rest name ih =>
    rw [← List.append_assoc] at hsome
    have hdir := h.parent _ _ hsome
    by_cases hrest : rest = []
    · rw [hrest, List.append_nil] at hdir
      exact hdir
    · refine ih (fun heq => hrest ?_) (Nodes.ne_none hdir)
      exact (List.append_right_eq_self.mp heq.symm)

/-- Below what is no directory, there is nothing. -/
theorem none_below (h : WellFormed fs) {path' : List N} (hpre : path <+: path')
    (hne : path ≠ path') (hdir : fs path ≠ some .dir) : fs path' = none := by
  by_contra hsome
  exact hdir (h.dir_above hpre hne hsome)

/-- The directory of a path. -/
theorem dir_dropLast (h : WellFormed fs) (hne : path ≠ []) (hsome : fs path ≠ none) :
    fs path.dropLast = some .dir := by
  refine h.parent path.dropLast (path.getLast hne) ?_
  rw [List.dropLast_append_getLast hne]
  exact hsome

variable [DecidableEq N]

theorem removed (h : WellFormed fs) (hne : path ≠ []) : WellFormed (fs.removed path) := by
  refine ⟨?_, fun p name hsome => ?_⟩
  · rw [Nodes.removed_of_not_below fun hpre => hne (List.prefix_nil.mp hpre)]
    exact h.root
  · have hnot : ¬ path <+: p ++ [name] := by
      intro hpre
      exact hsome (if_pos hpre)
    rw [Nodes.removed_of_not_below hnot] at hsome
    rw [Nodes.removed_of_not_below fun hpre => hnot (hpre.trans (List.prefix_append _ _))]
    exact h.parent p name hsome

/-- What is not there cannot be removed. -/
theorem removed_eq_self (h : WellFormed fs) (hnone : fs path = none) : fs.removed path = fs := by
  funext p
  by_cases hpre : path <+: p
  · refine (if_pos hpre).trans ?_
    by_cases hp : path = p
    · rw [← hp, hnone]
    · exact (h.none_below hpre hp (by rw [hnone]; exact fun heq => by cases heq)).symm
  · exact Nodes.removed_of_not_below hpre

/-- A node can be put in a directory, when there is nothing below it. -/
theorem put (h : WellFormed fs) (hne : path ≠ []) (hparent : fs path.dropLast = some .dir)
    {node : Node N C} (hbelow : node ≠ .dir → ∀ name, fs (path ++ [name]) = none) :
    WellFormed (fs.put path node) := by
  refine ⟨?_, fun p name hsome => ?_⟩
  · rw [Nodes.put_of_ne (Ne.symm hne)]
    exact h.root
  · by_cases hp : p = path
    · subst hp
      have hlonger : p ++ [name] ≠ p := fun heq => nomatch List.append_right_eq_self.mp heq
      rw [Nodes.put_of_ne hlonger] at hsome
      by_cases hdir : node = .dir
      · rw [Nodes.put_self, hdir]
      · exact absurd (hbelow hdir name) hsome
    · rw [Nodes.put_of_ne hp]
      by_cases hpath : p ++ [name] = path
      · rw [← hpath, List.dropLast_concat] at hparent
        exact hparent
      · rw [Nodes.put_of_ne hpath] at hsome
        exact h.parent p name hsome

/-- Directories can be created, where nothing else is in their place. -/
theorem created (h : WellFormed fs) (hfree : ∀ p, p <+: path → fs p = none ∨ fs p = some .dir) :
    WellFormed (fs.created path) := by
  refine ⟨Nodes.created_of_some h.root, fun p name hsome => ?_⟩
  by_cases hpre : p <+: path
  · rw [Nodes.created_of_above hpre]
    rcases hfree p hpre with hnone | hdir
    · rw [hnone]
      rfl
    · rw [hdir]
      rfl
  · have hnot : ¬ p ++ [name] <+: path := fun hlonger =>
      hpre ((List.prefix_append _ _).trans hlonger)
    rw [Nodes.created_of_not_above hnot] at hsome
    rw [Nodes.created_of_not_above hpre]
    exact h.parent p name hsome

end WellFormed

/-- A path to something has no links in its directories. -/
def FileSystem.place (fs : FileSystem N C) (path : List N) (hne : path ≠ [])
    (hsome : fs.nodes path ≠ none) : fs.nodes.Place where
  path := path
  ne_nil := hne
  resolved _ hpre hp := Nodes.islink_of_dir (fs.wellFormed.dir_above hpre hp hsome)

end Lapas
