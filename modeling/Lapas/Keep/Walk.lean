import Lapas.Keep.Bounds
import Lapas.Keep.Cleanup
import Lapas.Keep.DoubleStar

/-!
# Whether a walk comes to its end

When every file system call succeeds, a walk is ended early only by an entry that has no
decision, and with `**` at the end of the patterns only these are the names that are not
UTF-8.  What lies in directories that the walk does not go into cannot end it.

## Main definitions

* `Descends` — the walk goes into the directory at a path.
* `Ends` — every entry that the walk comes to has a decision.
* `intoA` — rules with which a name in `a` counts and a name in `b` does not.

## Main results

* `traverseEntries_ok_iff` — such a walk comes to its end, and no other does.
* `applyKeep_ok_iff` — **a cleanup does not panic exactly when no directory that it goes into
  lists a name that is not UTF-8.**
-/

namespace Lapas
namespace Keep

section

variable {rx : RegexCrate} {C : Type}

/-- The walk at `path` goes into every directory on the way to `more`, and into that one. -/
def Descends (graph : DecisionGraph rx) (path more : Path) : Prop :=
  ∀ init, init ≠ [] → init <+: more →
    ∃ decision, graph.getAction (path ++ init) = some decision ∧ decision.descend = true

/-- Every entry that the walk at `path` comes to has a decision. -/
def Ends (graph : DecisionGraph rx) (path : Path) (l : Listing FileName C) : Prop :=
  ∀ more name, (l.get? (more ++ [name])).isSome → Descends graph path more →
    (graph.getAction (path ++ more ++ [name])).isSome

variable {graph : DecisionGraph rx} {path : Path}

theorem descends_nil : Descends graph path [] :=
  fun _ hne hpre => absurd (List.prefix_nil.mp hpre) hne

theorem descends_cons {name : FileName} {more : Path} :
    Descends graph path (name :: more) ↔
      (∃ decision, graph.getAction (path ++ [name]) = some decision ∧ decision.descend = true) ∧
        Descends graph (path ++ [name]) more := by
  constructor
  · intro h
    refine ⟨h [name] (List.cons_ne_nil _ _) (List.prefix_append [name] more), ?_⟩
    intro init _ hpre
    rw [List.append_assoc]
    exact h (name :: init) (List.cons_ne_nil _ _) (List.cons_prefix_cons.mpr ⟨rfl, hpre⟩)
  · rintro ⟨hname, hmore⟩ init hne hpre
    obtain ⟨first, init, rfl⟩ := List.exists_cons_of_ne_nil hne
    obtain ⟨rfl, hrest⟩ := List.cons_prefix_cons.mp hpre
    by_cases hinit : init = []
    · rwa [hinit]
    · have hbelow := hmore init hinit hrest
      rwa [List.append_assoc] at hbelow

/-! ### Entry by entry -/

theorem ends_nil : Ends graph path (.nil : Listing FileName C) := by
  intro more name hsome
  simp at hsome

theorem ends_file {name : FileName} {content : C} {rest : Listing FileName C}
    (hname : name ∉ rest.names) :
    Ends graph path (.file name content rest) ↔
      (graph.getAction (path ++ [name])).isSome ∧ Ends graph path rest := by
  constructor
  · intro h
    constructor
    · have hfirst := h [] name (by simp [Listing.get?_file]) descends_nil
      rwa [List.append_nil] at hfirst
    · intro more last hsome hdescends
      obtain ⟨p, ps, heq, hne⟩ := Listing.ne_of_get?_isSome hname hsome
      refine h more last ?_ hdescends
      rw [heq] at hsome ⊢
      rwa [Listing.get?_file, if_neg hne]
  · rintro ⟨hfirst, hrest⟩ more last hsome hdescends
    obtain ⟨p, ps, heq⟩ := List.exists_cons_of_ne_nil (List.append_ne_nil_of_right_ne_nil more
      (List.cons_ne_nil last []))
    rw [heq, Listing.get?_file] at hsome
    split at hsome
    · next hp =>
      split at hsome
      · next hps =>
        subst hp hps
        obtain ⟨rfl, hlast⟩ := List.append_eq_singleton_iff.mp heq |>.resolve_right
          (fun h => absurd h.2 (List.cons_ne_nil _ _))
        cases hlast
        rwa [List.append_nil]
      · cases hsome
    · rw [← heq] at hsome
      exact hrest more last hsome hdescends

theorem ends_dir {name : FileName} {isOpaque : Bool} {entries rest : Listing FileName C}
    (hname : name ∉ rest.names) :
    Ends graph path (.dir name isOpaque entries rest) ↔
      (∃ decision, graph.getAction (path ++ [name]) = some decision ∧
        (decision.descend = true → Ends graph (path ++ [name]) entries)) ∧
      Ends graph path rest := by
  constructor
  · intro h
    constructor
    · have hfirst := h [] name (by simp [Listing.get?_dir]) descends_nil
      rw [List.append_nil] at hfirst
      obtain ⟨decision, hdecision⟩ := Option.isSome_iff_exists.mp hfirst
      refine ⟨decision, hdecision, fun hdesc more last hsome hdescends => ?_⟩
      have hbelow := h (name :: more) last (by
        rwa [List.cons_append, Listing.get?_dir, if_pos rfl, if_neg (by simp)])
        (descends_cons.mpr ⟨⟨decision, hdecision, hdesc⟩, hdescends⟩)
      rwa [List.append_assoc path [name] more]
    · intro more last hsome hdescends
      obtain ⟨p, ps, heq, hne⟩ := Listing.ne_of_get?_isSome hname hsome
      refine h more last ?_ hdescends
      rw [heq] at hsome ⊢
      rwa [Listing.get?_dir, if_neg hne]
  · rintro ⟨⟨decision, hdecision, hbelow⟩, hrest⟩ more last hsome hdescends
    cases more with
    | nil =>
      rw [List.append_nil]
      rw [List.nil_append, Listing.get?_dir] at hsome
      split at hsome
      · next heq =>
        subst heq
        exact Option.isSome_of_eq_some hdecision
      · have hlast := hrest [] last hsome descends_nil
        rwa [List.append_nil] at hlast
    | cons p ps =>
      rw [List.cons_append, Listing.get?_dir] at hsome
      split at hsome
      · next heq =>
        subst heq
        obtain ⟨⟨decision', hdecision', hdesc⟩, hdescends⟩ := descends_cons.mp hdescends
        cases hdecision.symm.trans hdecision'
        rw [if_neg (by simp)] at hsome
        have hlast := hbelow hdesc ps last hsome hdescends
        rwa [List.append_assoc path [name] ps] at hlast
      · exact hrest (p :: ps) last hsome hdescends

end

/-! ### The walk -/

section

variable {rx : RegexCrate} {C : Type} (graph : DecisionGraph rx) (args : CliArgs)

/-- When every call succeeds, a walk comes to its end, or panics at an entry without a
decision. -/
theorem traverseEntries_ends (l : Listing FileName C) (hl : l.Distinct) :
    ∀ (path : Path) (isEmpty : Bool),
      (Ends graph path l ∧
        ∃ flag, (traverseEntries .allSucceed args graph path isEmpty l).result = .ok flag) ∨
      (¬ Ends graph path l ∧
        (traverseEntries .allSucceed args graph path isEmpty l).result = .error .panic) := by
  induction l with
  | nil => exact fun path isEmpty => Or.inl ⟨ends_nil, isEmpty, rfl⟩
  | file name content rest ih =>
    intro path isEmpty
    rw [ends_file hl.1, traverseEntries]
    simp only [Calls.allSucceed_dirEntry, Calls.allSucceed_fileType, Bool.not_true,
      Bool.false_eq_true, ↓reduceIte]
    cases graph.getAction (path ++ [name]) with
    | none => exact Or.inr ⟨by simp, rfl⟩
    | some decision =>
      simp only [Option.isSome_some, true_and]
      split
      · exact ih hl.2 path isEmpty
      · exact ih hl.2 path false
  | dir name isOpaque entries rest ihe ihr =>
    intro path isEmpty
    rw [ends_dir hl.1, traverseEntries]
    simp only [Calls.allSucceed_dirEntry, Calls.allSucceed_fileType, Calls.allSucceed_readDir,
      Bool.not_true, Bool.false_eq_true, ↓reduceIte]
    cases graph.getAction (path ++ [name]) with
    | none => exact Or.inr ⟨by simp, rfl⟩
    | some decision =>
      simp only [Option.some.injEq, exists_eq_left']
      cases decision.descend with
      | true =>
        simp only [↓reduceIte, true_imp_iff]
        -- below, the walk ends or panics; in the first case it goes on with the rest
        rcases ihe hl.2.1 (path ++ [name]) true with ⟨hends, childEmpty, hflag⟩ | ⟨hends, hpanic⟩
        · rw [hflag]
          simp only [hends, true_and]
          split
          · exact ihr hl.2.2 path _
          · exact ihr hl.2.2 path _
        · rw [hpanic]
          exact Or.inr ⟨fun h => hends h.1, rfl⟩
      | false =>
        simp only [Bool.false_eq_true, ↓reduceIte, false_imp_iff, true_and]
        split
        · exact ihr hl.2.2 path isEmpty
        · exact ihr hl.2.2 path false

variable {graph args}

theorem traverseEntries_ok_iff {l : Listing FileName C} (hl : l.Distinct) (path : Path)
    (isEmpty : Bool) :
    (∃ flag, (traverseEntries .allSucceed args graph path isEmpty l).result = .ok flag) ↔
      Ends graph path l := by
  rcases traverseEntries_ends graph args l hl path isEmpty with ⟨hends, hflag⟩ | ⟨hends, hpanic⟩
  · exact ⟨fun _ => hends, fun _ => hflag⟩
  · refine ⟨?_, fun h => absurd h hends⟩
    rintro ⟨flag, hflag⟩
    cases hpanic.symm.trans hflag

/-- A cleanup panics when its walk does. -/
theorem applyKeep_ok_iff_ends (folder : Folder C) :
    (applyKeep .allSucceed args graph folder.entries).result = .ok () ↔
      Ends graph [] folder.entries := by
  rw [applyKeep, traverse_allSucceed]
  rcases traverseEntries_ends graph args folder.entries folder.distinct [] true with
    ⟨hends, flag, hflag⟩ | ⟨hends, hpanic⟩
  · simp [hflag, hends]
  · simp [hpanic, hends]

/-- **When a cleanup does not panic**: no directory that it goes into lists a name that is not
UTF-8. -/
theorem applyKeep_ok_iff {lines : List Str} (hgraph : DecisionGraph.ofLines rx lines = .ok graph)
    (hstar : ∀ rule ∈ linesRules lines, DoubleStarLast rule.pattern) (folder : Folder C) :
    (applyKeep .allSucceed args graph folder.entries).result = .ok () ↔
      ∀ (segs : List Segment) (bytes : List UInt8),
        (folder.entries.get? (segs.map .utf8 ++ [.raw bytes])).isSome →
          ¬ Descends graph [] (segs.map .utf8) := by
  rw [applyKeep_ok_iff_ends]
  constructor
  · intro h segs bytes hsome hdescends
    obtain ⟨decision, hdecision⟩ := Option.isSome_iff_exists.mp (h _ _ hsome hdescends)
    obtain ⟨segs', heq⟩ := exists_utf8_of_getAction hdecision
    rw [List.nil_append] at heq
    have hmem : FileName.raw bytes ∈ segs'.map FileName.utf8 := by
      rw [← heq]
      exact List.mem_append_right _ (List.mem_singleton_self _)
    obtain ⟨seg, -, hseg⟩ := List.mem_map.mp hmem
    cases hseg
  · intro h more name hsome hdescends
    -- what the walk goes into is text
    obtain ⟨segs, rfl⟩ : ∃ segs : List Segment, more = segs.map .utf8 := by
      by_cases hmore : more = []
      · exact ⟨[], hmore⟩
      · obtain ⟨decision, hdecision, -⟩ := hdescends more hmore List.prefix_rfl
        exact exists_utf8_of_getAction hdecision
    cases name with
    | raw bytes => exact absurd hdescends (h segs bytes hsome)
    | utf8 seg =>
      have hpath : ([] : Path) ++ segs.map .utf8 ++ [.utf8 seg] =
          (segs ++ [seg]).map FileName.utf8 := by
        rw [List.nil_append, List.map_append, List.map_singleton]
      rw [hpath]
      exact getAction_isSome_of_plain hgraph hstar (by simp)

end

/-! ### A name that is not UTF-8 -/

/-- Rules for which the walk goes into `a` and into no other directory. -/
def intoA : List Str := [firstLine, "base:keep user:delete a/x".toList]

/-- The name is in `b`. -/
theorem applyKeep_ok_iff_b : ∃ graph : DecisionGraph pieceCrate,
    DecisionGraph.ofLines pieceCrate intoA = .ok graph ∧
    let b : FileName := .utf8 ⟨"b".toList, by decide, by decide⟩
    let folder : Listing FileName ℕ := .dir b false (.file (.raw [255]) 1 .nil) .nil
    ∀ (segs : List Segment) (bytes : List UInt8),
      (folder.get? (segs.map .utf8 ++ [.raw bytes])).isSome →
        ¬ Descends graph [] (segs.map .utf8) := by
  let b : FileName := .utf8 ⟨"b".toList, by decide, by decide⟩
  let folder : Folder ℕ := ⟨.dir b false (.file (.raw [255]) 1 .nil) .nil, by decide⟩
  have hrun : ∃ graph : DecisionGraph pieceCrate,
      DecisionGraph.ofLines pieceCrate intoA = .ok graph ∧
      (applyKeep .allSucceed ⟨.user, false, false⟩ graph folder.entries).result = .ok () :=
    exists_ok_of_decide (by decide +kernel)
  obtain ⟨graph, hgraph, hok⟩ := hrun
  exact ⟨graph, hgraph, (applyKeep_ok_iff hgraph (by decide +kernel) folder).mp hok⟩

/-- The name is in `a`, behind a file that has been deleted and in front of one that has not. -/
theorem not_applyKeep_ok_a : ∃ graph : DecisionGraph pieceCrate,
    DecisionGraph.ofLines pieceCrate intoA = .ok graph ∧
    let a : FileName := .utf8 ⟨"a".toList, by decide, by decide⟩
    let y : FileName := .utf8 ⟨"y".toList, by decide, by decide⟩
    let z : FileName := .utf8 ⟨"z".toList, by decide, by decide⟩
    let folder : Listing FileName ℕ :=
      .dir a false (.file y 1 (.file (.raw [255]) 2 (.file z 3 .nil))) .nil
    let cleanup := applyKeep .allSucceed ⟨.base, false, false⟩ graph folder
    cleanup.result ≠ .ok () ∧
      cleanup.entries = .dir a false (.file (.raw [255]) 2 (.file z 3 .nil)) .nil :=
  exists_ok_of_decide (by decide +kernel)

end Keep
end Lapas
