import Lapas.Keep.Walk
import Mathlib.Data.Set.Basic

/-!
# What a dry run announces

A dry run prints what a real run would remove, and leaves the folder as it is.  Whether a
directory that the walk goes into can be removed behind it, it has to foresee, by the flag
that the walk returns.  That flag counts what is kept, but for the directories that the walk
goes into: such a directory is kept, and `remove_dir` then fails on the one around it.

## Main definitions

* `Printed.Names`, `Named` — the paths that a line stands for, and those of an output.
* `ComesBack` — the walk goes into a directory and comes to the end of its entries.
* `Overlooked` — what is kept in a directory are directories that the walk goes into.

## Main results

* `traverseEntries_flag` — what the flag counts.
* `foreseen_iff` — where what is named is what is gone, entry by entry.
* `dryRun_iff` — **a dry run names what a real run removes exactly when no directory to be
  deleted is overlooked.**
-/

namespace Lapas
namespace Keep

/-! ### The output -/

/-- The line stands for the path; that of a folder that is removed recursively also for
everything below it. -/
def Printed.Names (path : Path) : Printed → Prop
  | .file p => path = p
  | .folder p => path = p
  | .folderRecursively p => p <+: path

/-- The path in the line that a dry run prints, whichever of the three kinds of lines it is. -/
def Printed.path : Printed → Path
  | .file p => p
  | .folder p => p
  | .folderRecursively p => p

theorem Printed.Names.above {line : Printed} {path : Path} (h : line.Names path) :
    line.path <+: path := by
  cases line with
  | file p => obtain rfl : path = p := h; exact List.prefix_rfl
  | folder p => obtain rfl : path = p := h; exact List.prefix_rfl
  | folderRecursively p => exact h

/-- A line of the output stands for the path. -/
def Named (out : List Printed) (path : Path) : Prop := ∃ line ∈ out, line.Names path

@[simp] theorem not_named_nil (path : Path) : ¬ Named [] path := by
  rintro ⟨line, hline, -⟩
  cases hline

theorem named_append {out out' : List Printed} {path : Path} :
    Named (out ++ out') path ↔ Named out path ∨ Named out' path := by
  simp only [Named, List.mem_append, or_and_right, exists_or]

theorem named_singleton {line : Printed} {path : Path} : Named [line] path ↔ line.Names path := by
  simp [Named]

section

variable {rx : RegexCrate} {C : Type} {calls : Calls} {args : CliArgs} {graph : DecisionGraph rx}

/-- A line names its own path, and at most what is below it. -/
theorem of_named_printed {line : Printed} {path : Path} (h : Named (printed args line) path) :
    line.path <+: path := by
  rw [printed] at h
  split at h
  · exact (named_singleton.mp h).above
  · exact absurd h (not_named_nil _)

/-- A walk names nothing but what it lists. -/
theorem of_named_traverseEntries (l : Listing FileName C) {path path' : Path} {isEmpty : Bool}
    (h : Named (traverseEntries calls args graph path isEmpty l).printed path') :
    ∃ name ∈ l.names, path ++ [name] <+: path' := by
  induction l generalizing path path' isEmpty with
  | nil => exact absurd h (not_named_nil _)
  | file name content rest ih =>
    -- what is printed is about this entry or about one of the rest
    have hrest : ∀ {flag}, Named (traverseEntries calls args graph path flag rest).printed path' →
        ∃ n ∈ (Listing.file name content rest).names, path ++ [n] <+: path' :=
      fun hnamed => (ih hnamed).imp fun n hn => ⟨List.mem_cons_of_mem name hn.1, hn.2⟩
    rw [traverseEntries] at h
    split at h
    · exact hrest h
    · split at h
      · exact absurd h (not_named_nil _)
      · split at h
        · exact absurd h (not_named_nil _)
        · split at h
          · rcases named_append.mp h with h | h
            · exact ⟨name, List.mem_cons_self, of_named_printed h⟩
            · exact hrest h
          · exact hrest h
  | dir name isOpaque entries rest ihe ihr =>
    have hrest : ∀ {flag}, Named (traverseEntries calls args graph path flag rest).printed path' →
        ∃ n ∈ (Listing.dir name isOpaque entries rest).names, path ++ [n] <+: path' :=
      fun hnamed => (ihr hnamed).imp fun n hn => ⟨List.mem_cons_of_mem name hn.1, hn.2⟩
    -- or about something below a directory
    have hbelow : Named (if calls.readDir (path ++ [name]) then
        traverseEntries calls args graph (path ++ [name]) true entries
        else ⟨entries, [], .error .io⟩).printed path' →
        ∃ n ∈ (Listing.dir name isOpaque entries rest).names, path ++ [n] <+: path' := by
      intro hnamed
      split at hnamed
      · obtain ⟨n, -, hn⟩ := ihe hnamed
        exact ⟨name, List.mem_cons_self, (List.prefix_append _ _).trans hn⟩
      · exact absurd hnamed (not_named_nil _)
    rw [traverseEntries] at h
    dsimp only at h
    split at h
    · exact hrest h
    · split at h
      · exact absurd h (not_named_nil _)
      · split at h
        · exact absurd h (not_named_nil _)
        · split at h
          · split at h
            · exact hbelow h
            · split at h
              · rcases named_append.mp h with h | h
                · rcases named_append.mp h with h | h
                  · exact hbelow h
                  · exact ⟨name, List.mem_cons_self, of_named_printed h⟩
                · exact hrest h
              · rcases named_append.mp h with h | h
                · exact hbelow h
                · exact hrest h
          · split at h
            · rcases named_append.mp h with h | h
              · exact ⟨name, List.mem_cons_self, of_named_printed h⟩
              · exact hrest h
            · exact hrest h

end

/-! ### What is named and what is gone -/

section

variable {C : Type}

/-- Of the paths in a listing at `path`, the output names the ones that `after` lacks. -/
def Agrees (path : Path) (l : Listing FileName C) (out : List Printed)
    (after : Listing FileName C) : Prop :=
  ∀ more, (l.get? more).isSome → (Named out (path ++ more) ↔ (after.get? more).isSome = false)

/-- What an output does not name of a listing that stays as it is. -/
theorem agrees_self {path : Path} {l : Listing FileName C} {out : List Printed}
    (hout : ∀ more, more ≠ [] → ¬ Named out (path ++ more)) : Agrees path l out l := by
  intro more hsome
  have hmore : more ≠ [] := by
    rintro rfl
    simp at hsome
  simp [hout more hmore, hsome]

/-- A name is not named with what is at other names. -/
theorem not_named_of_notMem {path : Path} {name : FileName} {names : List FileName}
    (hname : name ∉ names) {out : List Printed}
    (hout : ∀ p, Named out p → ∃ n ∈ names, path ++ [n] <+: p) (more : Path) :
    ¬ Named out (path ++ name :: more) := by
  intro h
  obtain ⟨n, hn, hpre⟩ := hout _ h
  rw [List.prefix_append_right_inj, List.cons_prefix_cons] at hpre
  exact hname (hpre.1 ▸ hn)

/-- The paths at a name and those at the other names, apart. -/
theorem agrees_cons {path : Path} {l rest after : Listing FileName C} {name : FileName}
    {out own : List Printed} (after' : Listing FileName C) (hname : name ∉ rest.names)
    (hown : ∀ p, Named own p → path ++ [name] <+: p)
    (hout : ∀ p, Named out p → ∃ n ∈ rest.names, path ++ [n] <+: p)
    (hl : ∀ p ps, name ≠ p → l.get? (p :: ps) = rest.get? (p :: ps))
    (hl' : ∀ p ps, name ≠ p → after.get? (p :: ps) = after'.get? (p :: ps)) :
    Agrees path l (own ++ out) after ↔
      (∀ more, (l.get? (name :: more)).isSome →
        (Named own (path ++ name :: more) ↔ (after.get? (name :: more)).isSome = false)) ∧
      Agrees path rest out after' := by
  constructor
  · intro h
    constructor
    · intro more hsome
      rw [← h _ hsome, named_append, or_iff_left (not_named_of_notMem hname hout more)]
    · intro more hsome
      obtain ⟨p, ps, rfl, hne⟩ := Listing.ne_of_get?_isSome hname hsome
      have hnot : ¬ Named own (path ++ p :: ps) := by
        intro hnamed
        have hpre := hown _ hnamed
        rw [List.prefix_append_right_inj, List.cons_prefix_cons] at hpre
        exact hne hpre.1
      rw [← hl' p ps hne, ← h _ (by rwa [hl p ps hne]), named_append, or_iff_right hnot]
  · rintro ⟨hfirst, hrest⟩ more hsome
    cases more with
    | nil => simp at hsome
    | cons p ps =>
      by_cases hp : name = p
      · subst hp
        rw [← hfirst ps hsome, named_append, or_iff_left (not_named_of_notMem hname hout ps)]
      · have hnot : ¬ Named own (path ++ p :: ps) := by
          intro hnamed
          have hpre := hown _ hnamed
          rw [List.prefix_append_right_inj, List.cons_prefix_cons] at hpre
          exact hp hpre.1
        rw [hl p ps hp] at hsome
        rw [hl' p ps hp, ← hrest _ hsome, named_append, or_iff_right hnot]

/-- A file that goes or stays. -/
theorem agrees_file {path : Path} {name : FileName} {content : C} {rest after : Listing FileName C}
    {out own : List Printed} (hname : name ∉ rest.names) (hafter : after.names ⊆ rest.names)
    (hown : ∀ p, Named own p → path ++ [name] <+: p)
    (hout : ∀ p, Named out p → ∃ n ∈ rest.names, path ++ [n] <+: p) (gone : Bool) :
    Agrees path (.file name content rest) (own ++ out)
        ((if gone then id else .file name content) after) ↔
      (Named own (path ++ [name]) ↔ gone = true) ∧ Agrees path rest out after := by
  rw [agrees_cons after hname hown hout]
  · refine and_congr_left fun _ => ⟨fun h => ?_, fun h more hsome => ?_⟩
    · rw [h [] (by simp [Listing.get?_file])]
      cases gone with
      | true => simp [Listing.get?_of_notMem fun hn => hname (hafter hn)]
      | false => simp [Listing.get?_file]
    · rw [Listing.get?_file, if_pos rfl] at hsome
      split at hsome
      · next hmore =>
        subst hmore
        rw [h]
        cases gone with
        | true => simp [Listing.get?_of_notMem fun hn => hname (hafter hn)]
        | false => simp [Listing.get?_file]
      · cases hsome
  · exact fun p ps hp => by rw [Listing.get?_file, if_neg hp]
  · intro p ps hp
    cases gone with
    | true => rfl
    | false => exact (Listing.get?_file name content after p ps).trans (if_neg hp)

/-- A directory that goes or stays, with what is left below it. -/
theorem agrees_dir {path : Path} {name : FileName} (isOpaque : Bool)
    (entries left : Listing FileName C) {rest after : Listing FileName C} {out : List Printed}
    (own : List Printed) (gone : Bool) (hname : name ∉ rest.names)
    (hafter : after.names ⊆ rest.names)
    (hown : ∀ p, Named own p → path ++ [name] <+: p)
    (hout : ∀ p, Named out p → ∃ n ∈ rest.names, path ++ [n] <+: p)
    (hgone : gone = true → left = .nil) :
    Agrees path (.dir name isOpaque entries rest) (own ++ out)
        ((if gone then id else .dir name isOpaque left) after) ↔
      (Named own (path ++ [name]) ↔ gone = true) ∧ Agrees (path ++ [name]) entries own left ∧
        Agrees path rest out after := by
  have hself : (((if gone then id else .dir name isOpaque left) after).get? [name]).isSome = false ↔
      gone = true := by
    cases gone with
    | true => simp [Listing.get?_of_notMem fun hn => hname (hafter hn)]
    | false => simp [Listing.get?_dir]
  have hbelow : ∀ more, more ≠ [] →
      ((if gone then id else .dir name isOpaque left) after).get? (name :: more) =
        left.get? more := by
    intro more hmore
    cases gone with
    | true =>
      rw [hgone rfl, Listing.get?_nil]
      exact Listing.get?_of_notMem (fun hn => hname (hafter hn)) more
    | false =>
      exact (Listing.get?_dir name isOpaque left after name more).trans
        ((if_pos rfl).trans (if_neg hmore))
  -- the paths at and below the directory are `more`, all others belong to the rest
  rw [agrees_cons after hname hown hout, ← and_assoc]
  · refine and_congr_left fun _ => ⟨fun h => ⟨?_, fun more hsome => ?_⟩, ?_⟩
    · rw [h [] (by simp [Listing.get?_dir]), hself]
    · have hmore : more ≠ [] := by
        rintro rfl
        simp at hsome
      rw [List.append_assoc, List.singleton_append,
        h more (by rwa [Listing.get?_dir, if_pos rfl, if_neg hmore]), hbelow more hmore]
    · rintro ⟨hnamed, hentries⟩ more hsome
      by_cases hmore : more = []
      · rw [hmore, hnamed, hself]
      · rw [Listing.get?_dir, if_pos rfl, if_neg hmore] at hsome
        rw [hbelow more hmore, ← hentries more hsome, List.append_assoc, List.singleton_append]
  · exact fun p ps hp => by rw [Listing.get?_dir, if_neg hp]
  · intro p ps hp
    cases gone with
    | true => rfl
    | false => exact (Listing.get?_dir name isOpaque left after p ps).trans (if_neg hp)

/-- A directory that stays, and that the output does not name. -/
theorem agrees_dir_unnamed {path : Path} {name : FileName} {isOpaque : Bool}
    {entries left rest after : Listing FileName C} {out own : List Printed}
    (hname : name ∉ rest.names) (hafter : after.names ⊆ rest.names)
    (hown : ∀ p, Named own p → path ++ [name] <+: p)
    (hout : ∀ p, Named out p → ∃ n ∈ rest.names, path ++ [n] <+: p)
    (hself : ¬ Named own (path ++ [name])) :
    Agrees path (.dir name isOpaque entries rest) (own ++ out) (.dir name isOpaque left after) ↔
      Agrees (path ++ [name]) entries own left ∧ Agrees path rest out after :=
  (agrees_dir isOpaque entries left own false hname hafter hown hout
    (absurd · Bool.false_ne_true)).trans
    (and_iff_right (iff_of_false hself Bool.false_ne_true))

/-- A directory that the output names. -/
theorem agrees_dir_named {path : Path} {name : FileName} {isOpaque gone : Bool}
    {entries left rest after : Listing FileName C} {out own : List Printed}
    (hname : name ∉ rest.names) (hafter : after.names ⊆ rest.names)
    (hown : ∀ p, Named own p → path ++ [name] <+: p)
    (hout : ∀ p, Named out p → ∃ n ∈ rest.names, path ++ [n] <+: p)
    (hgone : gone = true → left = .nil) (hself : Named own (path ++ [name])) :
    Agrees path (.dir name isOpaque entries rest) (own ++ out)
        ((if gone then id else .dir name isOpaque left) after) ↔
      gone = true ∧ Agrees (path ++ [name]) entries own left ∧ Agrees path rest out after :=
  (agrees_dir isOpaque entries left own gone hname hafter hown hout hgone).trans
    (and_congr_left' (iff_true_left hself))

end

/-! ### The flag -/

section

variable {rx : RegexCrate} {C : Type} {lines : List Str} {graph : DecisionGraph rx}
  {args : CliArgs}

/-- Whatever is kept in the directory at `path` are directories that the walk goes into. -/
def DirsOnly (graph : DecisionGraph rx) (mode : CleanupMode) (path : Path)
    (l : Listing FileName C) : Prop :=
  ∀ more e, l.get? more = some e → SaysKeep graph mode (path ++ more) →
    (∃ isOpaque entries, e = .dir isOpaque entries) ∧
      ∃ decision, graph.getAction (path ++ more) = some decision ∧ decision.descend = true

theorem dirsOnly_file {mode : CleanupMode} {path : Path} {name : FileName} {content : C}
    {rest : Listing FileName C} (hname : name ∉ rest.names) :
    DirsOnly graph mode path (.file name content rest) ↔
      ¬ SaysKeep graph mode (path ++ [name]) ∧ DirsOnly graph mode path rest := by
  rw [DirsOnly, Listing.forall_get?_file hname]
  refine and_congr_left fun _ => ⟨fun h hkeep => ?_, fun h hkeep => absurd hkeep h⟩
  obtain ⟨⟨isOpaque, entries, heq⟩, -⟩ := h hkeep
  cases heq

theorem dirsOnly_dir {mode : CleanupMode} {path : Path} {name : FileName} {isOpaque : Bool}
    {entries rest : Listing FileName C} (hname : name ∉ rest.names) :
    DirsOnly graph mode path (.dir name isOpaque entries rest) ↔
      (SaysKeep graph mode (path ++ [name]) →
        ∃ decision, graph.getAction (path ++ [name]) = some decision ∧ decision.descend = true) ∧
      DirsOnly graph mode (path ++ [name]) entries ∧ DirsOnly graph mode path rest := by
  rw [DirsOnly, Listing.forall_get?_dir hname]
  refine and_congr ⟨fun h hkeep => (h hkeep).2, fun h hkeep => ⟨⟨_, _, rfl⟩, h hkeep⟩⟩
    (and_congr_left fun _ => ?_)
  simp only [DirsOnly, List.append_assoc, List.singleton_append]

theorem saysKeep_iff {mode : CleanupMode} {path : Path} {decision : ActionResult}
    (hget : graph.getAction path = some decision) :
    SaysKeep graph mode path ↔ decision.actions.forMode mode = .keep := by
  simp [SaysKeep, hget]

/-- Nothing is kept below a directory that is deleted and not gone into. -/
theorem Visited.not_saysKeep_below (hgraph : DecisionGraph.ofLines rx lines = .ok graph)
    {path : Path} (h : Visited graph path) (hpath : path ≠ []) {decision : ActionResult}
    (hget : graph.getAction path = some decision) (hdesc : decision.descend = false)
    {mode : CleanupMode} (hdel : decision.actions.forMode mode = .delete) (more : Path) :
    ¬ SaysKeep graph mode (path ++ more) := by
  intro hkeep
  have hkeepOf := keepOf_of_saysKeep hkeep
  rw [h.keepOf_below hgraph hpath hget hdesc, hdel] at hkeepOf
  cases hkeepOf

/-- **What the flag counts**: a walk that has been told `true` returns `true` exactly when
whatever is kept are directories that it has gone into. -/
theorem traverseEntries_flag (hgraph : DecisionGraph.ofLines rx lines = .ok graph)
    (l : Listing FileName C) (hl : l.Distinct) :
    ∀ {path : Path} {isEmpty flag : Bool}, Visited graph path →
      (traverseEntries .allSucceed args graph path isEmpty l).result = .ok flag →
      (flag = true ↔ isEmpty = true ∧ DirsOnly graph args.mode path l) := by
  induction l with
  -- the flag says that all that has been seen is to go: files by their rules, and directories that
  -- are left empty
  | nil =>
    intro path isEmpty flag _ hresult
    cases hresult
    simp [DirsOnly]
  | file name content rest ih =>
    intro path isEmpty flag hvisited hresult
    rw [traverseEntries] at hresult
    simp only [Calls.allSucceed_dirEntry, Calls.allSucceed_fileType, Bool.not_true,
      Bool.false_eq_true, ↓reduceIte] at hresult
    cases hget : graph.getAction (path ++ [name]) with
    | none => rw [hget] at hresult; cases hresult
    | some decision =>
      rw [hget] at hresult
      rw [dirsOnly_file hl.1, saysKeep_iff hget]
      -- a file that is kept clears the flag for good
      by_cases hdel : decision.actions.forMode args.mode = .delete
      · simp only [hdel, ↓reduceIte, reduceCtorEq, not_false_eq_true, true_and] at hresult ⊢
        exact ih hl.2 hvisited hresult
      · rw [← FileAction.ne_keep, not_not] at hdel
        simp only [hdel, reduceCtorEq, ↓reduceIte, not_true_eq_false, false_and, and_false,
          iff_false] at hresult ⊢
        exact fun hflag => absurd ((ih hl.2 hvisited hresult).mp hflag).1 Bool.false_ne_true
  | dir name isOpaque entries rest ihe ihr =>
    intro path isEmpty flag hvisited hresult
    rw [traverseEntries] at hresult
    simp only [Calls.allSucceed_dirEntry, Calls.allSucceed_fileType, Calls.allSucceed_readDir,
      Bool.not_true, Bool.false_eq_true, ↓reduceIte] at hresult
    cases hget : graph.getAction (path ++ [name]) with
    | none => rw [hget] at hresult; cases hresult
    | some decision =>
      have hchild := hvisited.child hget
      rw [hget] at hresult
      rw [dirsOnly_dir hl.1, saysKeep_iff hget]
      cases hdesc : decision.descend with
      | true =>
        simp only [hdesc, ↓reduceIte] at hresult
        cases hbelow : (traverseEntries .allSucceed args graph (path ++ [name]) true
          entries).result with
        | error stop => rw [hbelow] at hresult; cases hresult
        | ok childEmpty =>
          -- both branches of the source go on with the same flag
          have hflag : flag = true ↔ (isEmpty && childEmpty) = true ∧
              DirsOnly graph args.mode path rest := by
            rw [hbelow] at hresult
            dsimp only at hresult
            split at hresult
            · exact ihr hl.2.2 hvisited hresult
            · exact ihr hl.2.2 hvisited hresult
          rw [hflag, Bool.and_eq_true, ihe hl.2.1 hchild hbelow]
          simp [hget, hdesc, and_assoc]
      | false =>
        simp only [hdesc, Bool.false_eq_true, ↓reduceIte] at hresult
        by_cases hdel : decision.actions.forMode args.mode = .delete
        · -- nothing is kept below a directory that is removed as a whole
          have hnone : DirsOnly graph args.mode (path ++ [name]) entries := fun more e _ hkeep =>
            absurd hkeep (hchild.not_saysKeep_below hgraph (by simp) hget hdesc hdel more)
          simp only [hdel, ↓reduceIte, reduceCtorEq, false_imp_iff, true_and] at hresult ⊢
          rw [and_iff_right hnone]
          exact ihr hl.2.2 hvisited hresult
        · rw [← FileAction.ne_keep, not_not] at hdel
          simp only [hdel, reduceCtorEq, ↓reduceIte, true_imp_iff] at hresult ⊢
          constructor
          · exact fun hflag => absurd ((ihr hl.2.2 hvisited hresult).mp hflag).1 Bool.false_ne_true
          · rintro ⟨-, ⟨decision', hdecision', hdesc'⟩, -⟩
            cases hget.symm.trans hdecision'
            rw [hdesc] at hdesc'
            cases hdesc'

/-! ### What is left -/

theorem keepOf_iff_takeWhile {mode : CleanupMode} {path : Path} :
    keepOf graph mode path = true ↔ SaysKeep graph mode (path.takeWhile FileName.isText) := by
  rw [keepOf, SaysKeep]
  cases graph.getAction (path.takeWhile FileName.isText) <;> simp

/-- A walk that comes to its end leaves something exactly when something is kept. -/
theorem traverseEntries_ne_nil_iff (hgraph : DecisionGraph.ofLines rx lines = .ok graph)
    (hdry : args.dryrun = false) {l : Listing FileName C} (hl : l.Distinct) {path : Path}
    {isEmpty flag : Bool} (hvisited : Visited graph path)
    (hresult : (traverseEntries .allSucceed args graph path isEmpty l).result = .ok flag) :
    (traverseEntries .allSucceed args graph path isEmpty l).entries ≠ .nil ↔
      ∃ more, (l.get? more).isSome ∧ SaysKeep graph args.mode (path ++ more) := by
  have hends : Ends graph path l := (traverseEntries_ok_iff hl path isEmpty).mp ⟨flag, hresult⟩
  have hleaves := @traverseEntries_eq_prune rx C lines graph _ hgraph hdry l _ isEmpty hvisited
    (by simp [hresult])
  rw [hleaves.entries_eq, Listing.prune_ne_nil_iff hl]
  constructor
  · rintro ⟨more, hsome, hkeep⟩
    obtain ⟨segs, rfl, -⟩ := hvisited
    rw [keepOf_iff_takeWhile, takeWhile_isText_append] at hkeep
    have hsplit : more.takeWhile FileName.isText ++ more.dropWhile FileName.isText = more :=
      List.takeWhile_append_dropWhile
    -- the text in front of a path is kept with it
    refine ⟨more.takeWhile FileName.isText, ?_, hkeep⟩
    rw [← hsplit] at hsome
    refine Listing.get?_isSome_of_append (fun hnil => ?_) hsome
    rw [hsplit] at hsome
    cases more with
    | nil => simp at hsome
    | cons name ps =>
      have hfirst := hends [] name
        (Listing.get?_isSome_of_append (List.cons_ne_nil name []) hsome) descends_nil
      obtain ⟨decision, hget⟩ := Option.isSome_iff_exists.mp hfirst
      obtain ⟨segs', heq⟩ := exists_utf8_of_getAction hget
      have hmem : name ∈ segs'.map FileName.utf8 := heq ▸ by simp
      obtain ⟨seg, -, rfl⟩ := List.mem_map.mp hmem
      cases hnil
  · rintro ⟨more, hsome, hkeep⟩
    exact ⟨more, hsome, keepOf_of_saysKeep hkeep⟩

/-! ### What a dry run foresees -/

/-- The walk over a listing at `path` goes into the directory `dir` with these entries, and
comes to their end. -/
inductive ComesBack (graph : DecisionGraph rx) :
    Path → Listing FileName C → Path → Listing FileName C → Prop
  | here {path : Path} {name : FileName} {isOpaque : Bool} {entries rest : Listing FileName C}
      {decision : ActionResult} (hget : graph.getAction (path ++ [name]) = some decision)
      (hdesc : decision.descend = true) (hends : Ends graph (path ++ [name]) entries) :
      ComesBack graph path (.dir name isOpaque entries rest) (path ++ [name]) entries
  | inside {path dir : Path} {name : FileName} {isOpaque : Bool}
      {entries rest below : Listing FileName C} {decision : ActionResult}
      (hget : graph.getAction (path ++ [name]) = some decision)
      (hdesc : decision.descend = true) (h : ComesBack graph (path ++ [name]) entries dir below) :
      ComesBack graph path (.dir name isOpaque entries rest) dir below
  | behindFile {path dir : Path} {name : FileName} {content : C} {rest below : Listing FileName C}
      (hsome : (graph.getAction (path ++ [name])).isSome)
      (h : ComesBack graph path rest dir below) :
      ComesBack graph path (.file name content rest) dir below
  | behindDir {path dir : Path} {name : FileName} {isOpaque : Bool}
      {entries rest below : Listing FileName C} {decision : ActionResult}
      (hget : graph.getAction (path ++ [name]) = some decision)
      (hends : decision.descend = true → Ends graph (path ++ [name]) entries)
      (h : ComesBack graph path rest dir below) :
      ComesBack graph path (.dir name isOpaque entries rest) dir below

/-- Something is kept in the directory at `path`, but nothing that the flag counts. -/
def Overlooked (graph : DecisionGraph rx) (mode : CleanupMode) (path : Path)
    (l : Listing FileName C) : Prop :=
  (∃ more, (l.get? more).isSome ∧ SaysKeep graph mode (path ++ more)) ∧ DirsOnly graph mode path l

/-- No directory to be deleted that the walk comes back from is overlooked. -/
def Foreseen (graph : DecisionGraph rx) (mode : CleanupMode) (path : Path)
    (l : Listing FileName C) : Prop :=
  ∀ dir below, ComesBack graph path l dir below → ∀ decision, graph.getAction dir = some decision →
    decision.actions.forMode mode = .delete → ¬ Overlooked graph mode dir below

variable {mode : CleanupMode} {path : Path}

theorem foreseen_nil : Foreseen graph mode path (.nil : Listing FileName C) := by
  intro dir below h
  cases h

theorem foreseen_file {name : FileName} {content : C} {rest : Listing FileName C}
    (hsome : (graph.getAction (path ++ [name])).isSome) :
    Foreseen graph mode path (.file name content rest) ↔ Foreseen graph mode path rest := by
  constructor
  · exact fun h dir below hback => h dir below (.behindFile hsome hback)
  · intro h dir below hback
    cases hback with
    | behindFile _ hback => exact h dir below hback

theorem foreseen_dir {name : FileName} {isOpaque : Bool} {entries rest : Listing FileName C}
    {decision : ActionResult} (hget : graph.getAction (path ++ [name]) = some decision) :
    Foreseen graph mode path (.dir name isOpaque entries rest) ↔
      (decision.descend = true → Foreseen graph mode (path ++ [name]) entries ∧
        (Ends graph (path ++ [name]) entries → decision.actions.forMode mode = .delete →
          ¬ Overlooked graph mode (path ++ [name]) entries)) ∧
      ((decision.descend = true → Ends graph (path ++ [name]) entries) →
        Foreseen graph mode path rest) := by
  constructor
  · intro h
    refine ⟨fun hdesc => ⟨fun dir below hback => ?_, fun hends => ?_⟩,
      fun hends dir below hback => ?_⟩
    · exact h dir below (.inside hget hdesc hback)
    · exact h _ _ (.here hget hdesc hends) decision hget
    · exact h dir below (.behindDir hget hends hback)
  · rintro ⟨hbelow, hrest⟩ dir below hback
    cases hback with
    | here hget' hdesc hends =>
      cases hget.symm.trans hget'
      intro decision' hdecision'
      cases hget.symm.trans hdecision'
      exact (hbelow hdesc).2 hends
    | inside hget' hdesc hback =>
      cases hget.symm.trans hget'
      exact (hbelow hdesc).1 dir below hback
    | behindDir hget' hends hback =>
      cases hget.symm.trans hget'
      exact hrest hends dir below hback

theorem foreseen_file_of_none {name : FileName} {content : C} {rest : Listing FileName C}
    (hnone : graph.getAction (path ++ [name]) = none) :
    Foreseen graph mode path (.file name content rest) := by
  intro dir below hback
  cases hback with
  | behindFile hsome _ => rw [hnone] at hsome; cases hsome

theorem foreseen_dir_of_none {name : FileName} {isOpaque : Bool} {entries rest : Listing FileName C}
    (hnone : graph.getAction (path ++ [name]) = none) :
    Foreseen graph mode path (.dir name isOpaque entries rest) := by
  intro dir below hback
  cases hback with
  | here hget => rw [hnone] at hget; cases hget
  | inside hget => rw [hnone] at hget; cases hget
  | behindDir hget => rw [hnone] at hget; cases hget

/-- The output of the walk over a directory does not name the directory itself. -/
theorem not_named_self {calls : Calls} (l : Listing FileName C) (isEmpty : Bool) :
    ¬ Named (traverseEntries calls args graph path isEmpty l).printed path := by
  intro h
  obtain ⟨name, -, hpre⟩ := of_named_traverseEntries l h
  have hlen := hpre.length_le
  rw [List.length_append, List.length_singleton] at hlen
  omega

/-- The line of the directory at `path` says nothing about what is below it. -/
theorem agrees_folder {l after : Listing FileName C} {out : List Printed} :
    Agrees path l (out ++ printed args (.folder path)) after ↔ Agrees path l out after := by
  refine forall_congr' fun more => imp_congr_right fun hsome => ?_
  have hmore : more ≠ [] := by
    rintro rfl
    simp at hsome
  have hnot : ¬ Named (printed args (.folder path)) (path ++ more) := by
    rw [printed]
    split
    · rw [named_singleton]
      exact fun heq => hmore (List.append_right_eq_self.mp heq)
    · exact not_named_nil _
  rw [named_append, or_iff_left hnot]

/-- The verbose dry run and a real run. -/
abbrev dryArgs (mode : CleanupMode) : CliArgs := ⟨mode, true, true⟩

/-- The arguments of a run that is no dry run. -/
abbrev realArgs (mode : CleanupMode) (verbose : Bool) : CliArgs := ⟨mode, false, verbose⟩

section

variable {name : FileName} {isOpaque : Bool} {entries left rest after : Listing FileName C}
  {out below : List Printed} (hname : name ∉ rest.names) (hafter : after.names ⊆ rest.names)
  (hout : ∀ p, Named out p → ∃ n ∈ rest.names, path ++ [n] <+: p)

include hname hafter hout

/-- A directory that is to be deleted behind what is below it. -/
theorem agrees_dir_folder (hbelow : ∀ p, Named below p → path ++ [name] <+: p) :
    Agrees path (.dir name isOpaque entries rest)
        (below ++ printed (dryArgs mode) (.folder (path ++ [name])) ++ out)
        ((if left.isEmpty then id else .dir name isOpaque left) after) ↔
      left.isEmpty = true ∧ Agrees (path ++ [name]) entries below left ∧
        Agrees path rest out after := by
  have hself : Named (below ++ printed (dryArgs mode) (.folder (path ++ [name])))
      (path ++ [name]) := named_append.mpr (Or.inr (named_singleton.mpr rfl))
  have hown : ∀ p, Named (below ++ printed (dryArgs mode) (.folder (path ++ [name]))) p →
      path ++ [name] <+: p := fun p h => (named_append.mp h).elim (hbelow p) of_named_printed
  rw [agrees_dir_named hname hafter hown hout Listing.isEmpty_iff.mp hself, agrees_folder]

/-- A directory that is to be deleted with all that is below it. -/
theorem agrees_dir_folderRecursively :
    Agrees path (.dir name isOpaque entries rest)
        (printed (dryArgs mode) (.folderRecursively (path ++ [name])) ++ out) after ↔
      Agrees path rest out after := by
  have hall : ∀ more, Named (printed (dryArgs mode) (.folderRecursively (path ++ [name])))
      (path ++ [name] ++ more) := fun more => named_singleton.mpr (List.prefix_append _ _)
  have hself := hall []
  rw [List.append_nil] at hself
  have hentries : Agrees (path ++ [name]) entries
      (printed (dryArgs mode) (.folderRecursively (path ++ [name]))) .nil :=
    fun more _ => iff_of_true (hall more) (by simp)
  have hagrees := @agrees_dir_named C path name isOpaque true entries .nil rest after out _
    hname hafter (fun p => of_named_printed) hout (fun _ => rfl) hself
  rw [and_iff_right rfl, and_iff_right hentries] at hagrees
  exact hagrees

/-- A directory that is left with all that is below it. -/
theorem agrees_dir_same :
    Agrees path (.dir name isOpaque entries rest) out (.dir name isOpaque entries after) ↔
      Agrees path rest out after :=
  (agrees_dir_unnamed hname hafter (fun p h => absurd h (not_named_nil p)) hout
    (not_named_nil _)).trans (and_iff_right (agrees_self fun _ _ => not_named_nil _))

end

/-- A directory that the walk comes back from is overlooked when it reports that nothing is
left, and something is. -/
theorem overlooked_iff (hgraph : DecisionGraph.ofLines rx lines = .ok graph) {verbose : Bool}
    {l : Listing FileName C} (hl : l.Distinct) (hvisited : Visited graph path) {flag : Bool}
    (hresult : (traverseEntries .allSucceed (realArgs mode verbose) graph path true l).result =
      .ok flag) :
    Overlooked graph mode path l ↔ flag = true ∧
      ¬ (traverseEntries .allSucceed (realArgs mode verbose) graph path true
        l).entries.isEmpty := by
  rw [traverseEntries_flag hgraph l hl hvisited hresult, Listing.isEmpty_iff, ← ne_eq,
    traverseEntries_ne_nil_iff hgraph rfl hl hvisited hresult, Overlooked, and_comm]
  simp only [true_and]

/-- **Where a dry run is faithful**, entry by entry. -/
theorem foreseen_iff (hgraph : DecisionGraph.ofLines rx lines = .ok graph) (verbose : Bool)
    (l : Listing FileName C) (hl : l.Distinct) :
    ∀ {path : Path} (isEmpty : Bool), Visited graph path →
      (Agrees path l
          (traverseEntries .allSucceed (dryArgs mode) graph path isEmpty l).printed
          (traverseEntries .allSucceed (realArgs mode verbose) graph path isEmpty l).entries ↔
        Foreseen graph mode path l) := by
  induction l with
  -- the induction is on the listing; both walks take the same turns, and what they print or leave
  -- for the rest and for the entries of a directory is told apart by its name
  | nil =>
    intro path isEmpty _
    refine iff_of_true (fun more hsome => ?_) foreseen_nil
    simp at hsome
  | file name content rest ih =>
    intro path isEmpty hvisited
    have hsub : ∀ flag, (traverseEntries .allSucceed (realArgs mode verbose) graph path flag
        rest).entries.names ⊆ rest.names := names_traverseEntries_subset rest path
    have hout : ∀ flag p, Named (traverseEntries .allSucceed (dryArgs mode) graph path flag
        rest).printed p → ∃ n ∈ rest.names, path ++ [n] <+: p :=
      fun _ _ => of_named_traverseEntries rest
    rw [traverseEntries, traverseEntries]
    simp only [Calls.allSucceed_dirEntry, Calls.allSucceed_fileType, Calls.allSucceed_removeFile,
      Bool.not_true, Bool.false_eq_true, ↓reduceIte]
    -- a panic ends both walks here
    cases hget : graph.getAction (path ++ [name]) with
    | none =>
      exact iff_of_true (agrees_self fun _ _ => not_named_nil _) (foreseen_file_of_none hget)
    | some decision =>
      rw [foreseen_file (by rw [hget]; rfl)]
      -- the rest is walked with the same flag after a deletion, and with `false` otherwise
      by_cases hdel : decision.actions.forMode mode = .delete
      · have hown : Named (printed (dryArgs mode) (.file (path ++ [name]))) (path ++ [name]) :=
          named_singleton.mpr rfl
        simp only [dryArgs, realArgs, hdel, ↓reduceIte] at hsub hout hown ⊢
        rw [← ih hl.2 isEmpty hvisited]
        refine (agrees_file hl.1 (hsub isEmpty) (fun p => of_named_printed) (hout isEmpty)
          true).trans ?_
        exact and_iff_right (iff_of_true hown rfl)
      · simp only [dryArgs, realArgs, hdel, ↓reduceIte] at hsub hout ⊢
        rw [← ih hl.2 false hvisited]
        refine (agrees_file hl.1 (hsub false) (fun p h => absurd h (not_named_nil p)) (hout false)
          false).trans ?_
        exact and_iff_right (iff_of_false (not_named_nil _) Bool.false_ne_true)
  | dir name isOpaque entries rest ihe ihr =>
    intro path isEmpty hvisited
    have hsub : ∀ flag, (traverseEntries .allSucceed (realArgs mode verbose) graph path flag
        rest).entries.names ⊆ rest.names := names_traverseEntries_subset rest path
    have hout : ∀ flag p, Named (traverseEntries .allSucceed (dryArgs mode) graph path flag
        rest).printed p → ∃ n ∈ rest.names, path ++ [n] <+: p :=
      fun _ _ => of_named_traverseEntries rest
    have hbelow : ∀ p, Named (traverseEntries .allSucceed (dryArgs mode) graph (path ++ [name])
        true entries).printed p → path ++ [name] <+: p := by
      intro p hnamed
      obtain ⟨n, -, hpre⟩ := of_named_traverseEntries entries hnamed
      exact (List.prefix_append _ _).trans hpre
    have hself : ¬ Named (traverseEntries .allSucceed (dryArgs mode) graph (path ++ [name]) true
        entries).printed (path ++ [name]) := not_named_self entries true
    -- the dry run does not remove anything, and still ends the same way below
    have hsame : (traverseEntries .allSucceed (dryArgs mode) graph (path ++ [name]) true
        entries).result = (traverseEntries .allSucceed (realArgs mode verbose) graph
          (path ++ [name]) true entries).result :=
      have hmode : (dryArgs mode).mode = (realArgs mode verbose).mode := rfl
      traverseEntries_result_eq hmode entries (path ++ [name]) true
    rw [traverseEntries, traverseEntries]
    simp only [Calls.allSucceed_dirEntry, Calls.allSucceed_fileType, Calls.allSucceed_readDir,
      Calls.allSucceed_removeDir, Calls.allSucceed_removeDirAll, Bool.not_true,
      Bool.false_eq_true, ↓reduceIte, hsame]
    cases hget : graph.getAction (path ++ [name]) with
    | none => exact iff_of_true (agrees_self fun _ _ => not_named_nil _) (foreseen_dir_of_none hget)
    | some decision =>
      have hchild := hvisited.child hget
      have ihe' := ihe hl.2.1 true hchild
      have hends : (∃ flag, (traverseEntries .allSucceed (realArgs mode verbose) graph
          (path ++ [name]) true entries).result = .ok flag) ↔ Ends graph (path ++ [name]) entries :=
        traverseEntries_ok_iff hl.2.1 (path ++ [name]) true
      rw [foreseen_dir hget]
      cases hdesc : decision.descend with
      | true =>
        -- a directory that the real run removes has to be named, or to have been overlooked
        have hover := fun flag =>
          @overlooked_iff rx C lines graph mode _ hgraph verbose entries hl.2.1 hchild flag
        generalize traverseEntries .allSucceed (dryArgs mode) graph (path ++ [name]) true
          entries = dry at *
        generalize traverseEntries .allSucceed (realArgs mode verbose) graph (path ++ [name]) true
          entries = real at *
        cases hresult : real.result with
        | error stop =>
          have hstops : ¬ Ends graph (path ++ [name]) entries := fun h => by
            obtain ⟨flag, hflag⟩ := hends.mpr h
            cases hresult.symm.trans hflag
          simp only [hdesc, ↓reduceIte, true_imp_iff, hstops, false_imp_iff, and_true, ← ihe']
          have hagrees := @agrees_dir_unnamed C path name isOpaque entries real.entries rest rest
            [] dry.printed hl.1 (List.Subset.refl _) hbelow
            (fun p h => absurd h (not_named_nil p)) hself
          rw [List.append_nil, and_iff_left (agrees_self fun _ _ => not_named_nil _)] at hagrees
          exact hagrees
        | ok childEmpty =>
          have hcomes := hends.mp ⟨childEmpty, hresult⟩
          simp only [hdesc, true_imp_iff, hcomes, ↓reduceIte, ← ihe',
            ← ihr hl.2.2 (isEmpty && childEmpty) hvisited, hover childEmpty hresult]
          -- the directory goes when it is left empty and is to be deleted
          by_cases hremoved :
              (childEmpty && decide (decision.actions.forMode mode = .delete)) = true
          · rw [if_pos hremoved, if_pos hremoved]
            rw [Bool.and_eq_true, decide_eq_true_eq] at hremoved
            obtain ⟨rfl, hdel⟩ := hremoved
            refine (agrees_dir_folder hl.1 (hsub _) (hout _) hbelow).trans ?_
            simp only [hdel, true_imp_iff, true_and, not_not]
            rw [← and_assoc, and_comm (a := real.entries.isEmpty = true)]
          · rw [if_neg hremoved, if_neg hremoved]
            refine (agrees_dir_unnamed hl.1 (hsub _) hbelow (hout _) hself).trans
              (and_congr_left fun _ => (and_iff_left fun hdel hleft => ?_).symm)
            rw [hdel, hleft.1] at hremoved
            exact hremoved rfl
      | false =>
        by_cases hdel : decision.actions.forMode mode = .delete
        · simp only [hdesc, hdel, Bool.false_eq_true, ↓reduceIte, false_imp_iff, true_and,
            true_imp_iff, Bool.not_false, Bool.and_true]
          exact (agrees_dir_folderRecursively hl.1 (hsub _) (hout _)).trans
            (ihr hl.2.2 isEmpty hvisited)
        · simp only [hdesc, hdel, Bool.false_eq_true, ↓reduceIte, false_imp_iff, true_and,
            true_imp_iff]
          exact (agrees_dir_same hl.1 (hsub _) (hout _)).trans (ihr hl.2.2 false hvisited)

/-- The paths of the folder that the output stands for. -/
def namedPaths (folder : Listing FileName C) (out : List Printed) : Set Path :=
  {path | (folder.get? path).isSome ∧ Named out path}

/-- The paths of the folder that are gone. -/
def removedPaths (folder after : Listing FileName C) : Set Path :=
  {path | (folder.get? path).isSome ∧ after.get? path = none}

/-- **When a dry run is faithful**: no directory to be deleted that the walk comes back from is
overlooked. -/
theorem dryRun_iff (hgraph : DecisionGraph.ofLines rx lines = .ok graph) (mode : CleanupMode)
    (verbose : Bool) (folder : Folder C) :
    namedPaths folder.entries (applyKeep .allSucceed (dryArgs mode) graph folder.entries).printed =
        removedPaths folder.entries
          (applyKeep .allSucceed (realArgs mode verbose) graph folder.entries).entries ↔
      Foreseen graph mode [] folder.entries := by
  rw [← foreseen_iff hgraph verbose folder.entries folder.distinct true (Visited.nil graph),
    applyKeep, applyKeep, traverse_allSucceed, traverse_allSucceed, Set.ext_iff]
  refine forall_congr' fun path => ?_
  rw [namedPaths, removedPaths, Set.mem_ofPred_eq, Set.mem_ofPred_eq, and_congr_right_iff,
    List.nil_append, Option.isSome_eq_false_iff, Option.isNone_iff_eq_none]

end

/-! ### A kept directory -/

/-- Rules that delete `p` and keep `p/k`, and go into both. -/
def keepsDirectory : List Str :=
  ["base:delete user:keep **", "base:keep user:delete p/k",
    "base:keep user:delete p/k/x"].map String.toList

/-- With a file `p/k/x` that is kept, `p` and `p/k` are left and not named; `q` is removed and
named. -/
theorem dryRun_iff_p : ∃ graph : DecisionGraph pieceCrate,
    DecisionGraph.ofLines pieceCrate keepsDirectory = .ok graph ∧
    let p : FileName := .utf8 ⟨"p".toList, by decide, by decide⟩
    let k : FileName := .utf8 ⟨"k".toList, by decide, by decide⟩
    let x : FileName := .utf8 ⟨"x".toList, by decide, by decide⟩
    let q : FileName := .utf8 ⟨"q".toList, by decide, by decide⟩
    let folder : Listing FileName ℕ :=
      .file q 0 (.dir p false (.dir k false (.file x 1 .nil) .nil) .nil)
    let after := (applyKeep .allSucceed (realArgs .base true) graph folder).entries
    namedPaths folder (applyKeep .allSucceed (dryArgs .base) graph folder).printed =
      removedPaths folder after ∧
    after.get? [p, k, x] = some (.file 1) ∧ [q] ∈ removedPaths folder after := by
  let p : FileName := .utf8 ⟨"p".toList, by decide, by decide⟩
  let k : FileName := .utf8 ⟨"k".toList, by decide, by decide⟩
  let x : FileName := .utf8 ⟨"x".toList, by decide, by decide⟩
  let q : FileName := .utf8 ⟨"q".toList, by decide, by decide⟩
  let folder : Folder ℕ :=
    ⟨.file q 0 (.dir p false (.dir k false (.file x 1 .nil) .nil) .nil), by decide⟩
  have hrun : ∃ graph : DecisionGraph pieceCrate,
      DecisionGraph.ofLines pieceCrate keepsDirectory = .ok graph ∧
      (((graph.getAction [p, k]).map fun d => d.actions.forMode .base) = some .keep ∧
        ((graph.getAction [p, k, x]).map fun d => d.actions.forMode .base) = some .keep) ∧
      (applyKeep .allSucceed (realArgs .base true) graph folder.entries).entries.get? [p, k, x] =
          some (.file 1) ∧
        (applyKeep .allSucceed (realArgs .base true) graph folder.entries).entries.get? [q] =
          none :=
    exists_ok_of_decide (by decide +kernel)
  obtain ⟨graph, hgraph, ⟨hk, hx⟩, hleft, hremoved⟩ := hrun
  refine ⟨graph, hgraph, (dryRun_iff hgraph .base true folder).mpr ?_, hleft,
    rfl, hremoved⟩
  intro dir below hback decision hget hdelete hover
  have hkeeps : SaysKeep graph .base [p, k, x] := by
    obtain ⟨d, hd, hkeep⟩ := Option.map_eq_some_iff.mp hx
    exact ⟨d, hd, hkeep⟩
  cases hback with
  | behindFile _ hback =>
    cases hback with
    | here =>
      -- the file is counted
      obtain ⟨⟨_, _, heq⟩, -⟩ := hover.2 [k, x] (.file 1) rfl hkeeps
      cases heq
    | inside _ _ hback =>
      cases hback with
      | here =>
        -- `p/k` itself is kept
        obtain ⟨d, hd, hkeep⟩ := Option.map_eq_some_iff.mp hk
        cases hd.symm.trans hget
        cases hkeep.symm.trans hdelete
      | inside _ _ hback =>
        cases hback with
        | behindFile _ hback => cases hback
      | behindDir _ _ hback => cases hback
    | behindDir _ _ hback => cases hback

/-- With `k` in it, `p` is named and left. -/
theorem not_dryRun_pk : ∃ graph : DecisionGraph pieceCrate,
    DecisionGraph.ofLines pieceCrate keepsDirectory = .ok graph ∧
    let p : FileName := .utf8 ⟨"p".toList, by decide, by decide⟩
    let k : FileName := .utf8 ⟨"k".toList, by decide, by decide⟩
    let folder : Listing FileName ℕ := .dir p false (.dir k false .nil .nil) .nil
    namedPaths folder (applyKeep .allSucceed (dryArgs .base) graph folder).printed ≠
      removedPaths folder (applyKeep .allSucceed (realArgs .base true) graph folder).entries := by
  let p : FileName := .utf8 ⟨"p".toList, by decide, by decide⟩
  let k : FileName := .utf8 ⟨"k".toList, by decide, by decide⟩
  let folder : Listing FileName ℕ := .dir p false (.dir k false .nil .nil) .nil
  have hrun : ∃ graph : DecisionGraph pieceCrate,
      DecisionGraph.ofLines pieceCrate keepsDirectory = .ok graph ∧
      Printed.folder [p] ∈ (applyKeep .allSucceed (dryArgs .base) graph folder).printed ∧
      (applyKeep .allSucceed (realArgs .base true) graph folder).entries.get? [p] ≠ none :=
    exists_ok_of_decide (by decide +kernel)
  obtain ⟨graph, hgraph, hprinted, hleft⟩ := hrun
  refine ⟨graph, hgraph, fun heq => hleft ?_⟩
  have hnamed : [p] ∈ namedPaths folder
      (applyKeep .allSucceed (dryArgs .base) graph folder).printed :=
    ⟨by decide, _, hprinted, rfl⟩
  rw [heq] at hnamed
  exact hnamed.2

end Keep
end Lapas
