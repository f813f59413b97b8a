import Lapas.Library.FileSystem

/-!
# Mount tables

A tree of files, and what has been mounted over it.  A file of the tree may be the image of a
file system.

## Main definitions

* `Content` — what is in a file.
* `MountPoint`, `Location`, `locate` — where a path leads, given the mounts.
* `Nodes.look`, `Nodes.modify` — reading and changing what is at a location.

## Main results

* `locate_of_forall` — a path that no mount is above leads into the tree.
* `locate_image`, `locate_bind`, `locate_overlay` — a path at or below the last mount.
-/

namespace Lapas

variable {N : Type}

/-- What is in a file: data, of which nothing more is known, or a file system that can be
mounted. -/
inductive Content (N : Type)
  | data
  /-- The image of a file system. -/
  | ext4 (volume : List N → Option (Node N (Content N)))

/-- What is mounted: the file system in an image, a directory that is shown once more, or two
directories of which one hides the other. -/
inductive Source (N : Type)
  | image (file : List N)
  | bind (dir : List N)
  | overlay (lower upper : List N)
  deriving DecidableEq

/-- A row of the table: what is mounted, and the directory whose files it hides. -/
structure MountPoint (N : Type) where
  target : List N
  source : Source N
  deriving DecidableEq

/-- A path in one of the file systems: in the tree that was booted, in an image, or in the
directories of an overlay. -/
inductive Location (N : Type)
  | tree (path : List N)
  | image (file path : List N)
  /-- In the upper directory of an overlay, or else in the lower one. -/
  | merged (upper lower : Location N)
  deriving DecidableEq

/-- Where a path leads.  The last mount is the first of the list, and a path goes through the
last one whose target is above it. -/
def locate [DecidableEq N] : List (MountPoint N) → List N → Location N
  | [], path => .tree path
  | m :: older, path =>
    if m.target <+: path then
      let rest := path.drop m.target.length
      match m.source with
      | .image file => .image file rest
      | .bind dir => locate older (dir ++ rest)
      | .overlay lower upper =>
        .merged (locate older (upper ++ rest)) (locate older (lower ++ rest))
    else locate older path

namespace Nodes

/-- What is at a location; an overlay shows the upper node where there is one and else the lower
one. -/
def look (tree : Nodes N (Content N)) : Location N → Option (Node N (Content N))
  | .tree path => tree path
  | .image file path =>
    match tree file with
    | some (.file (.ext4 volume)) => volume path
    | _ => none
  | .merged upper lower => (tree.look upper).or (tree.look lower)

/-- A change at a location, of the file system that it is in. -/
def modify [DecidableEq N] (tree : Nodes N (Content N))
    (change : Nodes N (Content N) → List N → Nodes N (Content N)) : Location N → Nodes N (Content N)
  | .tree path => change tree path
  | .image file path =>
    match tree file with
    | some (.file (.ext4 volume)) => tree.put file (.file (.ext4 (change volume path)))
    | _ => tree
  | .merged upper _ => tree.modify change upper

end Nodes

/-! ### Where a path leads -/

section

variable [DecidableEq N] {m : MountPoint N} {mounts : List (MountPoint N)} {path rest : List N}

theorem locate_cons_of_not_above (h : ¬ m.target <+: path) :
    locate (m :: mounts) path = locate mounts path := if_neg h

/-- What no mount is above is in the tree. -/
theorem locate_of_forall (h : ∀ m ∈ mounts, ¬ m.target <+: path) :
    locate mounts path = .tree path := by
  induction mounts with
  | nil => rfl
  | cons m mounts ih =>
    rw [locate_cons_of_not_above (h m List.mem_cons_self)]
    exact ih fun m hm => h m (List.mem_cons_of_mem _ hm)

theorem locate_append_of_forall {newer : List (MountPoint N)}
    (h : ∀ m ∈ newer, ¬ m.target <+: path) :
    locate (newer ++ mounts) path = locate mounts path := by
  induction newer with
  | nil => rfl
  | cons m newer ih =>
    rw [List.cons_append, locate_cons_of_not_above (h m List.mem_cons_self)]
    exact ih fun m hm => h m (List.mem_cons_of_mem _ hm)

theorem locate_image {file : List N} (h : m.source = .image file) (rest : List N) :
    locate (m :: mounts) (m.target ++ rest) = .image file rest := by
  rw [locate, if_pos (List.prefix_append _ _), List.drop_left, h]

theorem locate_bind {dir : List N} (h : m.source = .bind dir) (rest : List N) :
    locate (m :: mounts) (m.target ++ rest) = locate mounts (dir ++ rest) := by
  rw [locate, if_pos (List.prefix_append _ _), List.drop_left, h]

theorem locate_overlay {lower upper : List N} (h : m.source = .overlay lower upper) :
    locate (m :: mounts) m.target = .merged (locate mounts upper) (locate mounts lower) := by
  rw [locate, if_pos List.prefix_rfl, List.drop_length, h]
  simp only [List.append_nil]

end

/-! ### Reading and changing -/

namespace Nodes

variable {tree volume : Nodes N (Content N)} {file : List N}

theorem look_image (h : tree file = some (.file (.ext4 volume))) (path : List N) :
    tree.look (.image file path) = volume path := by
  rw [look, h]

theorem modify_image [DecidableEq N]
    {change : Nodes N (Content N) → List N → Nodes N (Content N)}
    (h : tree file = some (.file (.ext4 volume))) (path : List N) :
    tree.modify change (.image file path) = tree.put file (.file (.ext4 (change volume path))) := by
  rw [modify, h]

end Nodes

end Lapas
