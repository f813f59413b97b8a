import Lapas.Library.FileTree

/-!
# Trees from which something has been removed

A tree is *thinned* when some of what pruning removes is gone from it, and nothing else.  In
whatever order this happens, and however often it is taken up again, pruning leads to the same
tree.

* `Listing.Thinned` — some of what is not kept is gone.
* `Thinned.prune_eq` — pruning the rest is pruning the whole.
-/

namespace Lapas
namespace Listing

variable {N C : Type}

/-- Of the first tree, files that are not kept are gone, and directories that are not kept and of
which pruning would leave nothing. -/
inductive Thinned (keep : List N → Bool) : List N → Listing N C → Listing N C → Prop
  | nil {path : List N} : Thinned keep path nil nil
  | file {path : List N} {n : N} {c : C} {rest rest' : Listing N C}
    (hrest : Thinned keep path rest rest') : Thinned keep path (file n c rest) (file n c rest')
  | fileGone {path : List N} {n : N} {c : C} {rest rest' : Listing N C}
    (hkeep : keep (path ++ [n]) = false) (hrest : Thinned keep path rest rest') :
    Thinned keep path (file n c rest) rest'
  | dir {path : List N} {n : N} {o : Bool} {entries entries' rest rest' : Listing N C}
    (hentries : Thinned keep (path ++ [n]) entries entries')
    (hrest : Thinned keep path rest rest') :
    Thinned keep path (dir n o entries rest) (dir n o entries' rest')
  | dirGone {path : List N} {n : N} {o : Bool} {entries rest rest' : Listing N C}
    (hkeep : keep (path ++ [n]) = false) (hentries : entries.prune keep (path ++ [n]) = nil)
    (hrest : Thinned keep path rest rest') : Thinned keep path (dir n o entries rest) rest'

namespace Thinned

variable {keep : List N → Bool} {path : List N} {l l' : Listing N C}

protected theorem refl (keep : List N → Bool) (path : List N) (l : Listing N C) :
    Thinned keep path l l := by
  induction l generalizing path with
  | nil => exact .nil
  | file n c rest ih => exact .file (ih path)
  | dir n o entries rest ihe ihr => exact .dir (ihe _) (ihr path)

/-- **Pruning the rest is pruning the whole.** -/
theorem prune_eq (h : Thinned keep path l l') : l'.prune keep path = l.prune keep path := by
  induction h with
  | nil => rfl
  | file _ ih => rw [prune_file, prune_file, ih]
  | fileGone hkeep _ ih =>
    rw [prune_file, hkeep, ih]
    rfl
  | dir _ _ ihe ihr => rw [prune_dir, prune_dir, ihe, ihr]
  | dirGone hkeep hentries _ ih =>
    rw [prune_dir, hkeep, hentries, ih]
    rfl

theorem names_subset (h : Thinned keep path l l') : l'.names ⊆ l.names := by
  induction h with
  | nil => exact List.Subset.refl _
  | @file _ n _ _ _ _ ih => exact List.cons_subset_cons n ih
  | @fileGone _ n _ _ _ _ _ ih => exact List.subset_cons_of_subset n ih
  | @dir _ n _ _ _ _ _ _ _ _ ih => exact List.cons_subset_cons n ih
  | @dirGone _ n _ _ _ _ _ _ _ ih => exact List.subset_cons_of_subset n ih

theorem distinct (h : Thinned keep path l l') (hl : l.Distinct) : l'.Distinct := by
  induction h with
  | nil => exact hl
  | file hrest ih => exact ⟨fun hn => hl.1 (hrest.names_subset hn), ih hl.2⟩
  | fileGone _ _ ih => exact ih hl.2
  | dir _ hrest ihe ihr =>
    exact ⟨fun hn => hl.1 (hrest.names_subset hn), ihe hl.2.1, ihr hl.2.2⟩
  | dirGone _ _ _ ih => exact ih hl.2.2

end Thinned

end Listing
end Lapas
