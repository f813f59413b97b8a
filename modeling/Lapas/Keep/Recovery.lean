import Lapas.Keep.Failures
import Lapas.Library.Thinning

/-!
# Cleaning up again

A cleanup may be stopped at any point, and calls of it may fail; the next one then finds a folder
from which something is gone already.  Whatever has happened to it before, a cleanup in which no
call fails leaves what it would have left of the folder at first.

## Main definitions

* `Attempts` — cleanups with any failures, and what is removed by calls that fail midway.

## Main results

* `traverseEntries_thinned` — a walk removes only what pruning removes.
* `Ends.thinned` — a walk over what is left comes to its end when one over the whole does.
* `applyKeep_recovers` — **the next cleanup makes good for all that have failed.**
-/

namespace Lapas
namespace Keep

section

variable {rx : RegexCrate} {C : Type} {calls : Calls} {args : CliArgs} {graph : DecisionGraph rx}
  {lines : List Str}

/-- What may happen to a folder: cleanups in a mode, with or without `--dryrun`, and calls of
`remove_dir_all` that fail when they have removed a part of the directory. -/
inductive Attempts (graph : DecisionGraph rx) (mode : CleanupMode) (folder : Listing FileName C) :
    Listing FileName C → Prop
  | none : Attempts graph mode folder folder
  | cleanup {left : Listing FileName C} (calls : Calls) (args : CliArgs)
    (hmode : args.mode = mode) (h : Attempts graph mode folder left) :
    Attempts graph mode folder (applyKeep calls args graph left).entries
  | part {left left' : Listing FileName C} (h : Attempts graph mode folder left)
    (hpart : Listing.Thinned (keepOf graph mode) [] left left') : Attempts graph mode folder left'

/-! ### One walk -/

/-- **A walk thins**: whichever calls fail, only what pruning removes is gone behind it. -/
theorem traverseEntries_thinned (hgraph : DecisionGraph.ofLines rx lines = .ok graph)
    (l : Listing FileName C) :
    ∀ {path : Path} {isEmpty : Bool}, Visited graph path →
      l.Thinned (keepOf graph args.mode) path
        (traverseEntries calls args graph path isEmpty l).entries := by
  induction l with
  | nil => exact fun _ => .nil
  | file name content rest ih =>
    intro path isEmpty hvisited
    rw [traverseEntries]
    split
    · exact .file (ih hvisited)
    · cases hget : graph.getAction (path ++ [name]) with
      | none => exact .refl _ _ _
      | some decision =>
        have hkeep := (hvisited.child hget).keepOf_eq hget args.mode
        dsimp only
        split
        · exact .refl _ _ _
        · split
          · next hdel =>
            rw [Walk.after_entries]
            split
            · exact .fileGone (by rw [hkeep, hdel]; rfl) (ih hvisited)
            · exact .file (ih hvisited)
          · exact .file (ih hvisited)
  | dir name isOpaque entries rest ihe ihr =>
    intro path isEmpty hvisited
    rw [traverseEntries]
    dsimp only
    split
    · exact .dir (.refl _ _ _) (ihr hvisited)
    · cases hget : graph.getAction (path ++ [name]) with
      | none => exact .refl _ _ _
      | some decision =>
        have hchild := hvisited.child hget
        have hkeep := hchild.keepOf_eq hget args.mode
        dsimp only
        split
        · exact .refl _ _ _
        · split
          -- the walk goes into the directory
          · have hbelow : entries.Thinned (keepOf graph args.mode) (path ++ [name])
                (if calls.readDir (path ++ [name]) = true then
                  traverseEntries calls args graph (path ++ [name]) true entries
                else ⟨entries, [], .error .io⟩ : Walk C).entries := by
              split
              · exact ihe hchild
              · exact .refl _ _ _
            generalize (if calls.readDir (path ++ [name]) = true then _ else _ : Walk C) = below
              at hbelow ⊢
            split
            · exact .dir hbelow (.refl _ _ _)
            · split
              · next hasked =>
                rw [Bool.and_eq_true, decide_eq_true_eq] at hasked
                rw [Walk.after_entries]
                split
                · next hgone =>
                  rw [Bool.and_eq_true, Listing.isEmpty_iff] at hgone
                  refine .dirGone (by rw [hkeep, hasked.2]; rfl) ?_ (ihr hvisited)
                  rw [← hbelow.prune_eq, hgone.2]
                  rfl
                · exact .dir hbelow (ihr hvisited)
              · exact .dir hbelow (ihr hvisited)
          · next hdesc =>
            split
            · next hdel =>
              rw [Walk.after_entries]
              split
              · refine .dirGone (by rw [hkeep, hdel]; rfl) ?_ (ihr hvisited)
                refine Listing.prune_eq_nil fun more _ => ?_
                rw [hchild.keepOf_below hgraph (by simp) hget (Bool.eq_false_iff.mpr hdesc), hdel]
                rfl
              · exact .dir (.refl _ _ _) (ihr hvisited)
            · exact .dir (.refl _ _ _) (ihr hvisited)

/-- So does a cleanup. -/
theorem applyKeep_thinned (hgraph : DecisionGraph.ofLines rx lines = .ok graph)
    (folder : Listing FileName C) :
    folder.Thinned (keepOf graph args.mode) [] (applyKeep calls args graph folder).entries := by
  rw [applyKeep, traverse]
  split
  · exact traverseEntries_thinned hgraph folder (Visited.nil graph)
  · exact .refl _ _ _

/-- Where a walk over the whole comes to its end, one over what is left does. -/
theorem Ends.thinned {keep : Path → Bool} {path : Path} {l l' : Listing FileName C}
    (h : l.Thinned keep path l') (hl : l.Distinct) (hends : Ends graph path l) :
    Ends graph path l' := by
  induction h with
  | nil => exact hends
  | file hrest ih =>
    rw [ends_file hl.1] at hends
    exact (ends_file fun hn => hl.1 (hrest.names_subset hn)).mpr ⟨hends.1, ih hl.2 hends.2⟩
  | fileGone _ _ ih =>
    rw [ends_file hl.1] at hends
    exact ih hl.2 hends.2
  | dir _ hrest ihe ihr =>
    rw [ends_dir hl.1] at hends
    obtain ⟨⟨decision, hget, hbelow⟩, hrests⟩ := hends
    refine (ends_dir fun hn => hl.1 (hrest.names_subset hn)).mpr
      ⟨⟨decision, hget, fun hdesc => ?_⟩, ihr hl.2.2 hrests⟩
    exact ihe hl.2.1 (hbelow hdesc)
  | dirGone _ _ _ ih =>
    rw [ends_dir hl.1] at hends
    exact ih hl.2.2 hends.2

/-! ### Any number of them -/

/-- What is left behind some attempts is still pruned to the same folder, and a walk over it still
comes to its end. -/
theorem Attempts.kept (hgraph : DecisionGraph.ofLines rx lines = .ok graph) {mode : CleanupMode}
    {folder : Folder C} {left : Listing FileName C}
    (h : Attempts graph mode folder.entries left) (hends : Ends graph [] folder.entries) :
    left.prune (keepOf graph mode) [] = folder.entries.prune (keepOf graph mode) [] ∧
      left.Distinct ∧ Ends graph [] left := by
  have hstep : ∀ {left left' : Listing FileName C}, left.Thinned (keepOf graph mode) [] left' →
      left.prune (keepOf graph mode) [] = folder.entries.prune (keepOf graph mode) [] ∧
        left.Distinct ∧ Ends graph [] left →
      left'.prune (keepOf graph mode) [] = folder.entries.prune (keepOf graph mode) [] ∧
        left'.Distinct ∧ Ends graph [] left' :=
    fun hthin ⟨hprune, hdistinct, hends⟩ =>
      ⟨hthin.prune_eq.trans hprune, hthin.distinct hdistinct, hends.thinned hthin hdistinct⟩
  induction h with
  | none => exact ⟨rfl, folder.distinct, hends⟩
  | cleanup calls args hmode _ ih =>
    subst hmode
    exact hstep (applyKeep_thinned hgraph _) ih
  | part _ hpart ih => exact hstep hpart ih

/-- **Recovery.**  When a cleanup of a folder would not panic, then behind any attempts, with any
failures and any of their parts done, a cleanup in which no call fails does not panic either, and
leaves what it would have left of the folder at first. -/
theorem applyKeep_recovers (hgraph : DecisionGraph.ofLines rx lines = .ok graph)
    (hdry : args.dryrun = false) {folder : Folder C} {left : Listing FileName C}
    (hattempts : Attempts graph args.mode folder.entries left)
    (hresult : (applyKeep .allSucceed args graph folder.entries).result = .ok ()) :
    (applyKeep .allSucceed args graph left).result = .ok () ∧
      (applyKeep .allSucceed args graph left).entries =
        (applyKeep .allSucceed args graph folder.entries).entries := by
  have hends := (applyKeep_ok_iff_ends folder).mp hresult
  obtain ⟨hprune, hdistinct, hleft⟩ := hattempts.kept hgraph hends
  have hok : (applyKeep .allSucceed args graph left).result = .ok () :=
    (applyKeep_ok_iff_ends ⟨left, hdistinct⟩).mpr hleft
  refine ⟨hok, ?_⟩
  rw [applyKeep_eq_prune hgraph hdry hok, applyKeep_eq_prune hgraph hdry hresult, hprune]

end

/-- The cleanup that stops at `a`, and then one that does not. -/
theorem applyKeep_recovers_y : ∃ graph : DecisionGraph pieceCrate,
    DecisionGraph.ofLines pieceCrate intoA = .ok graph ∧
    let a : FileName := .utf8 ⟨"a".toList, by decide, by decide⟩
    let y : FileName := .utf8 ⟨"y".toList, by decide, by decide⟩
    let folder : Listing FileName ℕ := .dir a false .nil (.file y 1 .nil)
    let args : CliArgs := ⟨.base, false, false⟩
    (applyKeep .allSucceed args graph
        (applyKeep (unreadable [a]) args graph folder).entries).entries =
      (applyKeep .allSucceed args graph folder).entries := by
  let a : FileName := .utf8 ⟨"a".toList, by decide, by decide⟩
  let y : FileName := .utf8 ⟨"y".toList, by decide, by decide⟩
  let folder : Folder ℕ := ⟨.dir a false .nil (.file y 1 .nil), by decide⟩
  let args : CliArgs := ⟨.base, false, false⟩
  have hrun : ∃ graph : DecisionGraph pieceCrate,
      DecisionGraph.ofLines pieceCrate intoA = .ok graph ∧
      (applyKeep .allSucceed args graph folder.entries).result = .ok () :=
    exists_ok_of_decide (by decide +kernel)
  obtain ⟨graph, hgraph, hresult⟩ := hrun
  exact ⟨graph, hgraph,
    (applyKeep_recovers hgraph rfl (.cleanup (unreadable [a]) args rfl .none) hresult).2⟩

end Keep
end Lapas
