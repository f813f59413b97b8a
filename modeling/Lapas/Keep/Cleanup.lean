import Lapas.Keep.Engine
import Lapas.Keep.Pruning
import Mathlib.Data.List.TakeWhile

/-!
# What the cleanup leaves

A walk in which every call succeeds and nothing panics prunes the folder by the decisions
on the paths themselves, although it never looks at most of them: where it does not
descend, `getAction_below` says that the paths below have the decision it has seen.

## Main definitions

* `Folder` — a directory tree in which no directory lists a name twice.
* `SaysKeep` — the decision on a path keeps it, in a mode.
* `keepOf` — the predicate by which the walk prunes.

## Main results

* `traverseEntries_eq_prune` — the walk prunes, and reports `true` only when it has kept
  nothing itself.
* `applyKeep_eq_prune` — so does the cleanup.
* `applyKeep_keeps_exactly` — what exists afterwards, path by path.
-/

namespace Lapas
namespace Keep

/-- A folder: no directory of it lists a name twice. -/
structure Folder (C : Type) where
  entries : Listing FileName C
  distinct : entries.Distinct

/-- Whether the name is UTF-8, which `to_str().unwrap()` asks for. -/
def FileName.isText : FileName → Bool
  | .utf8 _ => true
  | .raw _ => false

/-- All names in the folder are UTF-8. -/
def Folder.IsText {C : Type} (folder : Folder C) : Prop :=
  folder.entries.allNames FileName.isText = true

section

variable {rx : RegexCrate} {C : Type}

/-- The decision on the path keeps it. -/
def SaysKeep (graph : DecisionGraph rx) (mode : CleanupMode) (path : Path) : Prop :=
  ∃ decision, graph.getAction path = some decision ∧ decision.actions.forMode mode = .keep

/-- Whether the decision on the path keeps it.  A path that is not text is never
evaluated in a walk that does not panic; it shares the fate of the part in front. -/
def keepOf (graph : DecisionGraph rx) (mode : CleanupMode) (path : Path) : Bool :=
  match graph.getAction (path.takeWhile FileName.isText) with
  | some decision => decide (decision.actions.forMode mode = .keep)
  | none => false

theorem keepOf_of_getAction {graph : DecisionGraph rx} {mode : CleanupMode} {path : Path}
    {decision : ActionResult}
    (h : graph.getAction (path.takeWhile FileName.isText) = some decision) :
    keepOf graph mode path = decide (decision.actions.forMode mode = .keep) := by
  rw [keepOf, h]

theorem takeWhile_isText_append (segs : List Segment) (more : Path) :
    (segs.map FileName.utf8 ++ more).takeWhile FileName.isText =
      segs.map FileName.utf8 ++ more.takeWhile FileName.isText :=
  List.takeWhile_append_of_pos fun name hname => by
    obtain ⟨seg, -, rfl⟩ := List.mem_map.mp hname
    rfl

/-- The text in front of a path is a list of segments. -/
theorem exists_takeWhile_isText (path : Path) :
    ∃ segs : List Segment, path.takeWhile FileName.isText = segs.map .utf8 := by
  induction path with
  | nil => exact ⟨[], rfl⟩
  | cons name path ih =>
    obtain ⟨segs, hsegs⟩ := ih
    cases name with
    | raw bytes => exact ⟨[], rfl⟩
    | utf8 seg => exact ⟨seg :: segs, by rw [List.takeWhile_cons_of_pos rfl, hsegs]; rfl⟩

/-- A path with a decision is text. -/
theorem exists_utf8_of_getAction {graph : DecisionGraph rx} {path : Path} {decision : ActionResult}
    (h : graph.getAction path = some decision) : ∃ segs : List Segment, path = segs.map .utf8 := by
  by_contra hraw
  rw [DecisionGraph.getAction, Path.toStr_eq_none fun segs heq => hraw ⟨segs, heq⟩] at h
  cases h

theorem keepOf_utf8 {graph : DecisionGraph rx} {mode : CleanupMode} {segs : List Segment} :
    keepOf graph mode (segs.map .utf8) = true ↔ SaysKeep graph mode (segs.map .utf8) := by
  have htext := takeWhile_isText_append segs []
  rw [List.append_nil, List.takeWhile_nil, List.append_nil] at htext
  unfold keepOf SaysKeep
  rw [htext]
  cases graph.getAction (segs.map .utf8) <;> simp

theorem keepOf_of_saysKeep {graph : DecisionGraph rx} {mode : CleanupMode} {path : Path}
    (h : SaysKeep graph mode path) : keepOf graph mode path = true := by
  obtain ⟨decision, hget, -⟩ := id h
  obtain ⟨segs, rfl⟩ := exists_utf8_of_getAction hget
  exact keepOf_utf8.mpr h

/-! ### Visited paths -/

/-- A path the walk has come to: the decision on each part of it has been evaluated. -/
def Visited (graph : DecisionGraph rx) (path : Path) : Prop :=
  ∃ segs : List Segment, path = segs.map .utf8 ∧
    ∀ init, init ≠ [] → init <+: segs → (graph.getAction (init.map .utf8)).isSome

theorem Visited.nil (graph : DecisionGraph rx) : Visited graph [] := by
  refine ⟨[], rfl, fun init hinit hpre => ?_⟩
  exact absurd (List.prefix_nil.mp hpre) hinit

/-- An entry of a visited folder is visited when its evaluation does not panic. -/
theorem Visited.child {graph : DecisionGraph rx} {path : Path} (h : Visited graph path)
    {name : FileName} {decision : ActionResult}
    (hget : graph.getAction (path ++ [name]) = some decision) : Visited graph (path ++ [name]) := by
  obtain ⟨segs, rfl, hsafe⟩ := h
  obtain ⟨segs', hsegs'⟩ := exists_utf8_of_getAction hget
  refine ⟨segs', hsegs', fun init hinit hpre => ?_⟩
  obtain ⟨front, last, rfl, hfront, hlast⟩ := List.append_eq_map_iff.mp hsegs'
  obtain rfl : front = segs :=
    (List.map_injective_iff.mpr fun _ _ heq => FileName.utf8.inj heq) hfront
  obtain ⟨seg, rfl, -⟩ := List.map_eq_singleton_iff.mp hlast
  rcases List.prefix_concat_iff.mp hpre with rfl | hpre
  · rw [← hsegs', hget]
    rfl
  · exact hsafe init hinit hpre

/-- The predicate on a visited path. -/
theorem Visited.keepOf_eq {graph : DecisionGraph rx} {path : Path} (h : Visited graph path)
    {decision : ActionResult} (hget : graph.getAction path = some decision) (mode : CleanupMode) :
    keepOf graph mode path = decide (decision.actions.forMode mode = .keep) := by
  obtain ⟨segs, rfl, -⟩ := h
  have htext := takeWhile_isText_append segs []
  rw [List.append_nil, List.takeWhile_nil, List.append_nil] at htext
  exact keepOf_of_getAction (by rw [htext, hget])

/-- The predicate below a visited path that is not descended into. -/
theorem Visited.keepOf_below {lines : List Str} {graph : DecisionGraph rx}
    (hgraph : DecisionGraph.ofLines rx lines = .ok graph) {path : Path} (h : Visited graph path)
    (hpath : path ≠ []) {decision : ActionResult} (hget : graph.getAction path = some decision)
    (hdesc : decision.descend = false) (mode : CleanupMode) (more : Path) :
    keepOf graph mode (path ++ more) = decide (decision.actions.forMode mode = .keep) := by
  obtain ⟨segs, rfl, hsafe⟩ := h
  obtain ⟨segs', hsegs'⟩ := exists_takeWhile_isText more
  apply keepOf_of_getAction
  rw [takeWhile_isText_append, hsegs', ← List.map_append]
  exact getAction_below hgraph (by simpa using hpath) hsafe hget hdesc segs'

/-! ### The walk -/

theorem FileAction.ne_keep {action : FileAction} : action ≠ .keep ↔ action = .delete := by
  cases action <;> simp

variable {lines : List Str} {graph : DecisionGraph rx} {args : CliArgs}

/-- The walk ends regularly, leaves these entries, and returns `false` only when it was
told so or has left something. -/
structure Leaves (walk : Walk C) (l : Listing FileName C) (isEmpty : Bool) : Prop where
  entries_eq : walk.entries = l
  flag : ∃ flag, walk.result = .ok flag ∧ (flag = false → isEmpty = false ∨ l ≠ .nil)

/-- An entry that goes. -/
theorem Leaves.gone {walk : Walk C} {l : Listing FileName C} {isEmpty : Bool}
    (h : Leaves walk l isEmpty) (out : List Printed) : Leaves (walk.after id out) l isEmpty :=
  ⟨h.entries_eq, h.flag⟩

/-- An entry that stays. -/
theorem Leaves.kept {walk : Walk C} {l : Listing FileName C} {flag : Bool}
    (h : Leaves walk l flag) {first : Listing FileName C → Listing FileName C}
    (hfirst : first l ≠ .nil) (out : List Printed) (isEmpty : Bool) :
    Leaves (walk.after first out) (first l) isEmpty := by
  obtain ⟨hentries, flag, hflag, -⟩ := h
  exact ⟨congrArg first hentries, flag, hflag, fun _ => Or.inr hfirst⟩

/-- **The walk prunes**, entry by entry. -/
theorem traverseEntries_eq_prune (hgraph : DecisionGraph.ofLines rx lines = .ok graph)
    (hdry : args.dryrun = false) (l : Listing FileName C) :
    ∀ {curPath : Path} {isEmpty : Bool}, Visited graph curPath →
      (traverseEntries .allSucceed args graph curPath isEmpty l).result ≠ .error .panic →
      Leaves (traverseEntries .allSucceed args graph curPath isEmpty l)
        (l.prune (keepOf graph args.mode) curPath) isEmpty := by
  induction l with
  | nil =>
    intro curPath isEmpty _ _
    exact ⟨rfl, isEmpty, rfl, Or.inl⟩
  | file name content rest ih =>
    intro curPath isEmpty hvisited hresult
    rw [traverseEntries] at hresult ⊢
    simp only [Calls.allSucceed_dirEntry, Calls.allSucceed_fileType, Calls.allSucceed_removeFile,
      Bool.not_true, Bool.false_eq_true, ↓reduceIte, hdry, Bool.not_false,
      Bool.and_true] at hresult ⊢
    cases hget : graph.getAction (curPath ++ [name]) with
    | none => rw [hget] at hresult; exact absurd rfl hresult
    | some decision =>
      have hkeep := (hvisited.child hget).keepOf_eq hget args.mode
      rw [hget] at hresult
      rw [Listing.prune_file, hkeep]
      by_cases hdel : decision.actions.forMode args.mode = .delete
      · simp only [hdel, ↓reduceIte, reduceCtorEq, decide_false, Bool.false_eq_true] at hresult ⊢
        exact (ih hvisited hresult).gone _
      · rw [← FileAction.ne_keep, not_not] at hdel
        simp only [hdel, ↓reduceIte, reduceCtorEq, decide_true] at hresult ⊢
        exact (ih hvisited hresult).kept (by simp) _ _
  | dir name isOpaque entries rest ihe ihr =>
    intro curPath isEmpty hvisited hresult
    rw [traverseEntries] at hresult ⊢
    simp only [Calls.allSucceed_dirEntry, Calls.allSucceed_fileType, Calls.allSucceed_readDir,
      Calls.allSucceed_removeDir, Calls.allSucceed_removeDirAll, Bool.not_true,
      Bool.false_eq_true, ↓reduceIte, hdry, Bool.not_false, Bool.and_true,
      Bool.true_and] at hresult ⊢
    cases hget : graph.getAction (curPath ++ [name]) with
    | none => rw [hget] at hresult; exact absurd rfl hresult
    | some decision =>
      have hchild := hvisited.child hget
      have hkeep := hchild.keepOf_eq hget args.mode
      rw [hget] at hresult
      rw [Listing.prune_dir, hkeep]
      cases hdesc : decision.descend with
      | true =>
        simp only [hdesc, ↓reduceIte] at hresult ⊢
        have hbelow : (traverseEntries .allSucceed args graph (curPath ++ [name]) true
            entries).result ≠ .error .panic := by
          intro heq
          rw [heq] at hresult
          exact hresult rfl
        obtain ⟨hentries, childEmpty, hflag, hchildEmpty⟩ := ihe hchild hbelow
        rw [hflag] at hresult ⊢
        simp only [hentries] at hresult ⊢
        generalize entries.prune (keepOf graph args.mode) (curPath ++ [name]) = below at *
        by_cases hremoved : childEmpty && decide (decision.actions.forMode args.mode = .delete)
        · rw [if_pos hremoved] at hresult ⊢
          rw [Bool.and_eq_true, decide_eq_true_eq] at hremoved
          have hrest := ihr hvisited hresult
          rw [hremoved.1, Bool.and_true] at hrest ⊢
          simp only [hremoved.2, reduceCtorEq, decide_false, Bool.false_or]
          -- `remove_dir` fails on what is not empty
          cases below.isEmpty with
          | true => exact hrest.gone _
          | false => exact hrest.kept (by simp) _ _
        · rw [if_neg hremoved] at hresult ⊢
          have hstays : (decide (decision.actions.forMode args.mode = .keep) ||
              !below.isEmpty) = true := by
            cases childEmpty with
            | true =>
              rw [Bool.true_and, decide_eq_true_eq, ← FileAction.ne_keep, not_not] at hremoved
              rw [hremoved, decide_eq_true rfl, Bool.true_or]
            | false =>
              have hne : below ≠ .nil := (hchildEmpty rfl).resolve_left (by simp)
              rw [Bool.eq_false_iff.mpr fun h => hne (Listing.isEmpty_iff.mp h), Bool.not_false,
                Bool.or_true]
          rw [if_pos hstays]
          exact (ihr hvisited hresult).kept (by simp) _ _
      | false =>
        have hall := hchild.keepOf_below hgraph (by simp) hget hdesc args.mode
        simp only [hdesc, Bool.false_eq_true, ↓reduceIte] at hresult ⊢
        by_cases hdel : decision.actions.forMode args.mode = .delete
        · have hnil : entries.prune (keepOf graph args.mode) (curPath ++ [name]) = .nil :=
            Listing.prune_eq_nil fun more _ => by rw [hall, hdel]; rfl
          simp only [hdel, ↓reduceIte, hnil] at hresult ⊢
          exact (ihr hvisited hresult).gone _
        · rw [← FileAction.ne_keep, not_not] at hdel
          have hself : entries.prune (keepOf graph args.mode) (curPath ++ [name]) = entries :=
            Listing.prune_eq_self fun more _ => by rw [hall, hdel]; rfl
          simp only [hdel, ↓reduceIte, reduceCtorEq, decide_true, hself, Bool.true_or]
            at hresult ⊢
          exact (ihr hvisited hresult).kept (by simp) _ _

/-! ### The cleanup -/

theorem traverse_allSucceed (path : Path) (l : Listing FileName C) :
    traverse .allSucceed args graph path l =
      traverseEntries .allSucceed args graph path true l := by
  rw [traverse, Calls.allSucceed_readDir, if_pos rfl]

/-- **The cleanup prunes** the folder by the decisions. -/
theorem applyKeep_eq_prune (hgraph : DecisionGraph.ofLines rx lines = .ok graph)
    (hdry : args.dryrun = false) {l : Listing FileName C}
    (hresult : (applyKeep .allSucceed args graph l).result = .ok ()) :
    (applyKeep .allSucceed args graph l).entries = l.prune (keepOf graph args.mode) [] := by
  have hpanic : (traverseEntries .allSucceed args graph [] true l).result ≠ .error .panic := by
    intro heq
    rw [applyKeep, traverse_allSucceed, heq] at hresult
    cases hresult
  rw [applyKeep, traverse_allSucceed]
  exact (traverseEntries_eq_prune hgraph hdry l (Visited.nil graph) hpanic).entries_eq

/-- The decision by which the cleanup prunes, at what a text folder has. -/
theorem Folder.IsText.keepOf_iff {folder : Folder C} (htext : folder.IsText) {path : Path}
    (h : (folder.entries.get? path).isSome) {mode : CleanupMode} :
    keepOf graph mode path = true ↔ SaysKeep graph mode path := by
  have hwhole : path.takeWhile FileName.isText = path :=
    List.takeWhile_eq_self_iff.mpr (Listing.of_get?_isSome htext h)
  obtain ⟨segs, hsegs⟩ := exists_takeWhile_isText path
  rw [← hwhole, hsegs]
  exact keepOf_utf8

/-- A directory is left exactly when it is kept or something is left below it. -/
theorem get?_prune_dir {keep : Path → Bool} {l : Listing FileName C} (hl : l.Distinct)
    {path : Path} {isOpaque : Bool} {entries : Listing FileName C}
    (h : l.get? path = some (.dir isOpaque entries)) :
    ((∃ left, (l.prune keep []).get? path = some (.dir isOpaque left)) ↔
        keep path = true ∨ ∃ more, more ≠ [] ∧ ((l.prune keep []).get? (path ++ more)).isSome) ∧
      (((l.prune keep []).get? path).isSome ↔
        ∃ left, (l.prune keep []).get? path = some (.dir isOpaque left)) := by
  have hget : (l.prune keep []).get? path = _ := Listing.get?_prune hl [] path
  rw [h, Option.bind_some, List.nil_append, Entry.prune] at hget
  -- a directory stays when it is kept or when something is left in it
  by_cases hstays : (keep path || !(entries.prune keep path).isEmpty) = true
  · rw [if_pos hstays] at hget
    have hleft : ∃ left, (l.prune keep []).get? path = some (.dir isOpaque left) := ⟨_, hget⟩
    refine ⟨⟨fun _ => ?_, fun _ => hleft⟩, fun _ => hleft, fun _ => by rw [hget]; rfl⟩
    rw [Bool.or_eq_true] at hstays
    refine hstays.imp_right fun hne => ?_
    have hnil : entries.prune keep path ≠ .nil := by
      intro hnil
      rw [hnil] at hne
      cases hne
    obtain ⟨more, hmore⟩ := Listing.ne_nil_iff.mp hnil
    have hmorene : more ≠ [] := by
      rintro rfl
      simp at hmore
    exact ⟨more, hmorene, by rwa [Listing.get?_append hget hmorene]⟩
  · rw [if_neg hstays] at hget
    have hnone : ¬ ∃ left, (l.prune keep []).get? path = some (.dir isOpaque left) := by
      rintro ⟨left, hleft⟩
      rw [hget] at hleft
      cases hleft
    refine ⟨⟨fun hleft => absurd hleft hnone, ?_⟩, by rw [hget]; simp⟩
    rintro (hkeep | ⟨more, hmore, hsome⟩)
    · rw [hkeep, Bool.true_or] at hstays
      exact absurd rfl hstays
    · have hpath : path ≠ [] := by
        rintro rfl
        simp at h
      rw [Listing.get?_append_eq_none (fun o e he => by rw [hget] at he; cases he) hpath more
        hmore] at hsome
      cases hsome

/-- **What the cleanup leaves.**  In a run that does not panic a file survives, as it was,
exactly when the decision on its own path keeps it, and a directory exactly when its own
decision keeps it or something below it has survived; nothing else appears, and whatever
its own decision keeps is still there. -/
theorem applyKeep_keeps_exactly (hgraph : DecisionGraph.ofLines rx lines = .ok graph)
    (hdry : args.dryrun = false) {folder : Folder C} (htext : folder.IsText)
    (hresult : (applyKeep .allSucceed args graph folder.entries).result = .ok ()) :
    let after := (applyKeep .allSucceed args graph folder.entries).entries
    (∀ path content, folder.entries.get? path = some (.file content) →
      (after.get? path = some (.file content) ↔ SaysKeep graph args.mode path) ∧
        ((after.get? path).isSome ↔ SaysKeep graph args.mode path)) ∧
    (∀ path isOpaque entries, folder.entries.get? path = some (.dir isOpaque entries) →
      ((∃ left, after.get? path = some (.dir isOpaque left)) ↔
        SaysKeep graph args.mode path ∨ ∃ more, more ≠ [] ∧ (after.get? (path ++ more)).isSome) ∧
        ((after.get? path).isSome ↔ ∃ left, after.get? path = some (.dir isOpaque left))) ∧
    (∀ path, folder.entries.get? path = none → after.get? path = none) ∧
    ∀ path, (folder.entries.get? path).isSome → SaysKeep graph args.mode path →
      (after.get? path).isSome := by
  intro after
  have hafter : after = folder.entries.prune (keepOf graph args.mode) [] :=
    applyKeep_eq_prune hgraph hdry hresult
  have hget : ∀ path, after.get? path =
      (folder.entries.get? path).bind (Entry.prune (keepOf graph args.mode) path) := by
    intro path
    rw [hafter, Listing.get?_prune folder.distinct, List.nil_append]
  have hkeep : ∀ path, (folder.entries.get? path).isSome →
      (keepOf graph args.mode path = true ↔ SaysKeep graph args.mode path) :=
    fun _ hsome => htext.keepOf_iff hsome
  refine ⟨fun path content hfile => ?_, fun path isOpaque entries hdir => ?_,
    fun path hnone => ?_, fun path hsome hsays => ?_⟩
  · rw [hget, hfile, Option.bind_some, Entry.prune,
      ← hkeep path (by rw [hfile]; rfl)]
    cases keepOf graph args.mode path <;> simp
  · rw [← hkeep path (by rw [hdir]; rfl), hafter]
    exact get?_prune_dir folder.distinct hdir
  · rw [hget, hnone, Option.bind_none]
  · rw [hafter]
    exact Listing.get?_prune_isSome_of_keep folder.distinct hsome ((hkeep path hsome).mpr hsays)

end

/-- The user mode on a folder with the directory `a` of the files `b` and `c`, where the
rules keep only `c`. -/
theorem applyKeep_keeps_exactly_a : ∃ graph : DecisionGraph pieceCrate,
    DecisionGraph.ofLines pieceCrate
      ["base:delete user:keep **".toList, "base:keep user:delete a/b".toList] = .ok graph ∧
    let b : FileName := .utf8 ⟨"b".toList, by decide, by decide⟩
    let c : FileName := .utf8 ⟨"c".toList, by decide, by decide⟩
    let a : FileName := .utf8 ⟨"a".toList, by decide, by decide⟩
    let folder : Listing FileName ℕ := .dir a false (.file b 1 (.file c 2 .nil)) .nil
    let after := (applyKeep .allSucceed ⟨.user, false, false⟩ graph folder).entries
    (after.get? [a, b] = none ↔ ¬ SaysKeep graph .user [a, b]) ∧
      (after.get? [a, c] = some (.file 2) ↔ SaysKeep graph .user [a, c]) := by
  obtain ⟨graph, hgraph⟩ : ∃ graph, DecisionGraph.ofLines pieceCrate
      ["base:delete user:keep **".toList, "base:keep user:delete a/b".toList] = .ok graph :=
    ⟨_, rfl⟩
  refine ⟨graph, hgraph, ?_⟩
  intro b c a folder after
  have hresult : (applyKeep .allSucceed ⟨.user, false, false⟩ graph folder).result = .ok () := by
    cases hgraph
    decide +kernel
  have h := @applyKeep_keeps_exactly _ _ _ _ ⟨.user, false, false⟩ hgraph rfl ⟨folder, by decide⟩
    rfl hresult
  have hb : folder.get? [a, b] = some (.file 1) := by decide
  have hc : folder.get? [a, c] = some (.file 2) := by decide
  refine ⟨?_, (h.1 _ _ hc).1⟩
  rw [← Option.not_isSome_iff_eq_none]
  exact not_congr (h.1 _ _ hb).2

end Keep
end Lapas
