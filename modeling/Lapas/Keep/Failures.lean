import Lapas.Keep.Walk

/-!
# A cleanup in which calls fail

`traverse` ends at the first error of `read_dir` and `file_type`, passes over items that
`read_dir` cannot give, and drops the errors of the calls that remove; `apply_keep` drops
the error of `traverse` as well.  So a cleanup returns normally whichever calls fail.  What
the rules delete is then gone exactly when the failures are harmless.

## Main definitions

* `SaysDelete`, `Clean` — the decision on a path deletes it; nothing of the kind is there,
  but for directories that are not empty.
* `Stops`, `Remains` — failing calls end the walk; something stays where they do not.
* `Harmless` — what the failing calls leave is clean.

## Main results

* `traverseEntries_outcome` — what a walk in which calls fail does, entry by entry.
* `applyKeep_clean_iff` — **a cleanup that returns normally leaves a clean folder exactly when
  the failures were harmless.**
-/

namespace Lapas
namespace Keep

section

variable {rx : RegexCrate} {C : Type}

/-! ### What is to be deleted -/

/-- The decision on the path deletes it. -/
def SaysDelete (graph : DecisionGraph rx) (mode : CleanupMode) (path : Path) : Prop :=
  ∃ decision, graph.getAction path = some decision ∧ decision.actions.forMode mode = .delete

/-- The walk goes into a directory at the path. -/
def GoesInto (graph : DecisionGraph rx) (path : Path) : Prop :=
  ∃ decision, graph.getAction path = some decision ∧ decision.descend = true

/-- Whatever in the directory at `path` is to be deleted is a directory that is not empty. -/
def Clean (graph : DecisionGraph rx) (mode : CleanupMode) (path : Path)
    (l : Listing FileName C) : Prop :=
  ∀ more e, l.get? more = some e → SaysDelete graph mode (path ++ more) →
    ∃ isOpaque entries, e = .dir isOpaque entries ∧ entries ≠ .nil

variable {graph : DecisionGraph rx} {mode : CleanupMode} {path : Path}

theorem saysDelete_iff {decision : ActionResult} (hget : graph.getAction path = some decision) :
    SaysDelete graph mode path ↔ decision.actions.forMode mode = .delete := by
  simp [SaysDelete, hget]

theorem goesInto_iff {decision : ActionResult} (hget : graph.getAction path = some decision) :
    GoesInto graph path ↔ decision.descend = true := by
  simp [GoesInto, hget]

theorem clean_nil : Clean graph mode path (.nil : Listing FileName C) := by
  intro more e he
  simp at he

theorem clean_file {name : FileName} {content : C} {rest : Listing FileName C}
    (hname : name ∉ rest.names) :
    Clean graph mode path (.file name content rest) ↔
      ¬ SaysDelete graph mode (path ++ [name]) ∧ Clean graph mode path rest := by
  rw [Clean, Listing.forall_get?_file hname]
  refine and_congr_left fun _ => ⟨fun h hdel => ?_, fun h hdel => absurd hdel h⟩
  obtain ⟨isOpaque, entries, heq, -⟩ := h hdel
  cases heq

theorem clean_dir {name : FileName} {isOpaque : Bool} {entries rest : Listing FileName C}
    (hname : name ∉ rest.names) :
    Clean graph mode path (.dir name isOpaque entries rest) ↔
      (SaysDelete graph mode (path ++ [name]) → entries ≠ .nil) ∧
        Clean graph mode (path ++ [name]) entries ∧ Clean graph mode path rest := by
  rw [Clean, Listing.forall_get?_dir hname]
  refine and_congr ⟨fun h hdel => ?_, fun h hdel => ⟨isOpaque, entries, rfl, h hdel⟩⟩
    (and_congr_left fun _ => ?_)
  · obtain ⟨_, _, heq, hne⟩ := h hdel
    cases heq
    exact hne
  · simp only [Clean, List.append_assoc, List.singleton_append]

/-- Below a directory that is kept and not gone into, nothing is to be deleted. -/
theorem Visited.clean_below {lines : List Str}
    (hgraph : DecisionGraph.ofLines rx lines = .ok graph) (h : Visited graph path)
    (hpath : path ≠ []) {decision : ActionResult} (hget : graph.getAction path = some decision)
    (hdesc : decision.descend = false) (hkeep : decision.actions.forMode mode = .keep)
    (entries : Listing FileName C) : Clean graph mode path entries := by
  intro more e _ hdel
  obtain ⟨below, hbelow, hdelete⟩ := hdel
  obtain ⟨segs, hsegs⟩ := exists_utf8_of_getAction hbelow
  have hkeepOf := h.keepOf_below hgraph hpath hget hdesc mode more
  rw [hkeep, decide_eq_true rfl, hsegs, keepOf_utf8, ← hsegs] at hkeepOf
  obtain ⟨decision', hget', hkeep'⟩ := hkeepOf
  cases hbelow.symm.trans hget'
  rw [hdelete] at hkeep'
  cases hkeep'

end

/-! ### What failing calls do -/

section

variable {rx : RegexCrate} {C : Type} (calls : Calls) (graph : DecisionGraph rx)
  (mode : CleanupMode)

/-- A failing `file_type` or `read_dir` ends the walk over a listing at a path. -/
def Stops : Path → Listing FileName C → Prop
  | _, .nil => False
  | path, .file name _ rest =>
    calls.dirEntry (path ++ [name]) = true ∧ calls.fileType (path ++ [name]) = false ∨
      Stops path rest
  | path, .dir name _ entries rest =>
    calls.dirEntry (path ++ [name]) = true ∧
        (calls.fileType (path ++ [name]) = false ∨
          GoesInto graph (path ++ [name]) ∧
            (calls.readDir (path ++ [name]) = false ∨ Stops (path ++ [name]) entries)) ∨
      Stops path rest

/-- A walk that is not ended leaves something: what it does not come to, what is kept, and
what cannot be removed. -/
def Remains : Path → Listing FileName C → Prop
  | _, .nil => False
  | path, .file name _ rest =>
    calls.dirEntry (path ++ [name]) = false ∨ ¬ SaysDelete graph mode (path ++ [name]) ∨
      calls.removeFile (path ++ [name]) = false ∨ Remains path rest
  | path, .dir name _ entries rest =>
    calls.dirEntry (path ++ [name]) = false ∨ ¬ SaysDelete graph mode (path ++ [name]) ∨
      GoesInto graph (path ++ [name]) ∧
        (Remains (path ++ [name]) entries ∨ calls.removeDir (path ++ [name]) = false) ∨
      ¬ GoesInto graph (path ++ [name]) ∧ calls.removeDirAll (path ++ [name]) = false ∨
      Remains path rest

/-- What failing calls leave is clean: an item that is passed over, everything that an ended
walk does not come to, and what cannot be removed. -/
def Harmless : Path → Listing FileName C → Prop
  | _, .nil => True
  | path, .file name content rest =>
    if calls.dirEntry (path ++ [name]) = false then
      ¬ SaysDelete graph mode (path ++ [name]) ∧ Harmless path rest
    else if calls.fileType (path ++ [name]) = false then
      Clean graph mode path (.file name content rest)
    else
      (SaysDelete graph mode (path ++ [name]) → calls.removeFile (path ++ [name]) = true) ∧
        Harmless path rest
  | path, .dir name isOpaque entries rest =>
    if calls.dirEntry (path ++ [name]) = false then
      (SaysDelete graph mode (path ++ [name]) → entries ≠ .nil) ∧
        Clean graph mode (path ++ [name]) entries ∧ Harmless path rest
    else if calls.fileType (path ++ [name]) = false then
      Clean graph mode path (.dir name isOpaque entries rest)
    else
      (GoesInto graph (path ++ [name]) →
        if calls.readDir (path ++ [name]) = false then
          Clean graph mode path (.dir name isOpaque entries rest)
        else
          Harmless (path ++ [name]) entries ∧
            (Stops calls graph (path ++ [name]) entries → Clean graph mode path rest) ∧
            (¬ Stops calls graph (path ++ [name]) entries →
              (SaysDelete graph mode (path ++ [name]) →
                Remains calls graph mode (path ++ [name]) entries ∨
                  calls.removeDir (path ++ [name]) = true) ∧
              Harmless path rest)) ∧
      (¬ GoesInto graph (path ++ [name]) →
        (SaysDelete graph mode (path ++ [name]) →
          calls.removeDirAll (path ++ [name]) = true ∨
            entries ≠ .nil ∧ Clean graph mode (path ++ [name]) entries) ∧
        Harmless path rest)

/-- How a walk over a listing ends and what it leaves. -/
structure Outcome (path : Path) (l : Listing FileName C) (isEmpty : Bool) (walk : Walk C) :
    Prop where
  io : walk.result = .error .io ↔ Stops calls graph path l
  clean : Clean graph mode path walk.entries ↔ Harmless calls graph mode path l
  ne_nil : walk.entries ≠ .nil ↔ Stops calls graph path l ∨ Remains calls graph mode path l
  flag : walk.result = .ok false → isEmpty = false ∨ walk.entries ≠ .nil

end

section

variable {rx : RegexCrate} {C : Type} {calls : Calls} {args : CliArgs} {graph : DecisionGraph rx}
  {lines : List Str}

/-! ### Directories that the walk goes into -/

section

variable {mode : CleanupMode} {path : Path} {name : FileName} {isOpaque isEmpty : Bool}
  {entries rest : Listing FileName C} {below walk : Walk C}
  (hentry : calls.dirEntry (path ++ [name]) = true)
  (htype : calls.fileType (path ++ [name]) = true)
  (hread : calls.readDir (path ++ [name]) = true) (hinto : GoesInto graph (path ++ [name]))
  (hbelow : Outcome calls graph mode (path ++ [name]) entries true below)

include hentry htype hread hinto hbelow

/-- The walk ends in the directory. -/
theorem Outcome.dir_ended (hname : name ∉ rest.names) (hended : below.result = .error .io)
    (out : List Printed) :
    Outcome calls graph mode path (.dir name isOpaque entries rest) isEmpty
      ⟨.dir name isOpaque below.entries rest, out, .error .io⟩ := by
  have hstops := hbelow.io.mp hended
  have hleft := hbelow.ne_nil.mpr (Or.inl hstops)
  refine ⟨?_, ?_, ?_, ?_⟩
  · simp [Stops, hentry, hinto, hstops]
  · simp [Harmless, hentry, htype, hread, hinto, clean_dir hname, hstops, hleft, hbelow.clean]
  · simp [Stops, hentry, hinto, hstops]
  · simp

/-- The walk comes back and asks for the directory to be removed. -/
theorem Outcome.dir_asked (hname : name ∉ walk.entries.names)
    (hok : below.result = .ok true) (hdelete : SaysDelete graph mode (path ++ [name]))
    (hrest : Outcome calls graph mode path rest isEmpty walk) (out : List Printed) :
    Outcome calls graph mode path (.dir name isOpaque entries rest) isEmpty
      (walk.after (if (calls.removeDir (path ++ [name]) && below.entries.isEmpty) = true then id
        else .dir name isOpaque below.entries) out) := by
  have hstops : ¬ Stops calls graph (path ++ [name]) entries := by
    intro h
    cases hok.symm.trans (hbelow.io.mpr h)
  have hne := hbelow.ne_nil
  rw [or_iff_right hstops] at hne
  -- `remove_dir` is asked, and it succeeds if it may and the directory is empty
  by_cases hgone : (calls.removeDir (path ++ [name]) && below.entries.isEmpty) = true
  · rw [if_pos hgone]
    rw [Bool.and_eq_true, Listing.isEmpty_iff] at hgone
    obtain ⟨hremove, hnil⟩ := hgone
    have hnothing := mt hne.mpr (not_not.mpr hnil)
    have hharmless := hbelow.clean.mp (hnil ▸ clean_nil)
    refine ⟨?_, ?_, ?_, ?_⟩
    · simpa [Stops, htype, hinto, hread, hstops] using hrest.io
    · simpa [Harmless, hentry, htype, hread, hinto, hstops, hremove, hharmless] using hrest.clean
    · simpa [Stops, Remains, hentry, htype, hread, hinto, hstops, hremove, hdelete, hnothing]
        using hrest.ne_nil
    · simpa using hrest.flag
  · rw [if_neg hgone]
    rw [Bool.and_eq_true, Listing.isEmpty_iff, not_and] at hgone
    have hstays : Remains calls graph mode (path ++ [name]) entries ∨
        calls.removeDir (path ++ [name]) = true ↔ below.entries ≠ .nil := by
      rw [← hne, or_iff_left_of_imp hgone]
    have hleft : Remains calls graph mode (path ++ [name]) entries ∨
        calls.removeDir (path ++ [name]) = false := by
      rw [← hne, ← Bool.not_eq_true, or_iff_not_imp_right, not_not]
      exact hgone
    refine ⟨?_, ?_, ?_, ?_⟩
    · simpa [Stops, htype, hinto, hread, hstops] using hrest.io
    · simp only [Walk.after_entries, clean_dir hname, hrest.clean, hbelow.clean, Harmless, hentry,
        htype, hread, hinto, hstops, hstays, hdelete]
      simp [and_left_comm]
    · simp [Remains, hinto, hleft]
    · simp

/-- The walk comes back and leaves the directory; one that is to be deleted is then not empty. -/
theorem Outcome.dir_left {childEmpty : Bool} (hname : name ∉ walk.entries.names)
    (hok : below.result = .ok childEmpty)
    (hempty : SaysDelete graph mode (path ++ [name]) → childEmpty = false)
    (hrest : Outcome calls graph mode path rest (isEmpty && childEmpty) walk)
    (out : List Printed) :
    Outcome calls graph mode path (.dir name isOpaque entries rest) isEmpty
      (walk.after (.dir name isOpaque below.entries) out) := by
  have hstops : ¬ Stops calls graph (path ++ [name]) entries := by
    intro h
    cases hok.symm.trans (hbelow.io.mpr h)
  have hne := hbelow.ne_nil
  rw [or_iff_right hstops] at hne
  have hleft : SaysDelete graph mode (path ++ [name]) → below.entries ≠ .nil :=
    fun h => (hbelow.flag (hok.trans (congrArg _ (hempty h)))).resolve_left (by simp)
  refine ⟨?_, ?_, ?_, ?_⟩
  · simpa [Stops, htype, hinto, hread, hstops] using hrest.io
  · have hremains : SaysDelete graph mode (path ++ [name]) →
        Remains calls graph mode (path ++ [name]) entries ∨
          calls.removeDir (path ++ [name]) = true := fun h => Or.inl (hne.mp (hleft h))
    simp only [Walk.after_entries, clean_dir hname, hrest.clean, hbelow.clean, Harmless, hentry,
      htype, hread, hinto, hstops, iff_true_intro hremains, iff_true_intro hleft]
    simp
  · by_cases h : SaysDelete graph mode (path ++ [name])
    · simp [Remains, hinto, hne.mp (hleft h)]
    · simp [Remains, h]
  · simp

end

/-! ### Directories that the walk does not go into -/

section

variable {mode : CleanupMode} {path : Path} {name : FileName} {isOpaque isEmpty : Bool}
  {entries rest : Listing FileName C} {walk : Walk C}

/-- The directory is passed over. -/
theorem Outcome.dir_skipped (hentry : calls.dirEntry (path ++ [name]) = false)
    (hname : name ∉ walk.entries.names) (hrest : Outcome calls graph mode path rest isEmpty walk)
    (out : List Printed) :
    Outcome calls graph mode path (.dir name isOpaque entries rest) isEmpty
      (walk.after (.dir name isOpaque entries) out) := by
  refine ⟨?_, ?_, ?_, ?_⟩
  · simpa [Stops, hentry] using hrest.io
  · simp [Harmless, hentry, clean_dir hname, hrest.clean]
  · simp [Remains, hentry]
  · simp

/-- The walk ends in front of the directory. -/
theorem Outcome.dir_unread (hentry : calls.dirEntry (path ++ [name]) = true)
    (hfails : calls.fileType (path ++ [name]) = false ∨
      GoesInto graph (path ++ [name]) ∧ calls.readDir (path ++ [name]) = false)
    (out : List Printed) :
    Outcome calls graph mode path (.dir name isOpaque entries rest) isEmpty
      ⟨.dir name isOpaque entries rest, out, .error .io⟩ := by
  have hstops : Stops calls graph path (.dir name isOpaque entries rest) :=
    Or.inl ⟨hentry, hfails.imp_right fun h => ⟨h.1, Or.inl h.2⟩⟩
  refine ⟨iff_of_true rfl hstops, ?_, iff_of_true (fun heq => by cases heq) (Or.inl hstops), ?_⟩
  · rcases hfails with htype | ⟨hinto, hread⟩
    · simp [Harmless, hentry, htype]
    · by_cases htype : calls.fileType (path ++ [name]) = false <;>
        simp [Harmless, hentry, htype, hread, hinto]
  · intro hok
    cases hok

/-- The directory is removed with everything below it. -/
theorem Outcome.dir_removed (hentry : calls.dirEntry (path ++ [name]) = true)
    (htype : calls.fileType (path ++ [name]) = true) (hinto : ¬ GoesInto graph (path ++ [name]))
    (hname : name ∉ walk.entries.names) (hdelete : SaysDelete graph mode (path ++ [name]))
    (hrest : Outcome calls graph mode path rest isEmpty walk) (out : List Printed) :
    Outcome calls graph mode path (.dir name isOpaque entries rest) isEmpty
      (walk.after (if calls.removeDirAll (path ++ [name]) = true then id
        else .dir name isOpaque entries) out) := by
  cases hremove : calls.removeDirAll (path ++ [name]) with
  | true =>
    refine ⟨?_, ?_, ?_, ?_⟩
    · simpa [Stops, htype, hinto] using hrest.io
    · simpa [Harmless, hentry, htype, hremove, hinto] using hrest.clean
    · simpa [Stops, Remains, hentry, htype, hremove, hdelete, hinto] using hrest.ne_nil
    · simpa using hrest.flag
  | false =>
    refine ⟨?_, ?_, ?_, ?_⟩
    · simpa [Stops, htype, hinto] using hrest.io
    · simp [Harmless, hentry, htype, hremove, hdelete, hinto, clean_dir hname, hrest.clean,
        and_assoc]
    · simp [Remains, hremove, hinto]
    · simp

/-- The directory is left with everything below it. -/
theorem Outcome.dir_kept (hentry : calls.dirEntry (path ++ [name]) = true)
    (htype : calls.fileType (path ++ [name]) = true) (hinto : ¬ GoesInto graph (path ++ [name]))
    (hname : name ∉ walk.entries.names) (hdelete : ¬ SaysDelete graph mode (path ++ [name]))
    (hbelow : Clean graph mode (path ++ [name]) entries)
    (hrest : Outcome calls graph mode path rest false walk) (out : List Printed) :
    Outcome calls graph mode path (.dir name isOpaque entries rest) isEmpty
      (walk.after (.dir name isOpaque entries) out) := by
  refine ⟨?_, ?_, ?_, ?_⟩
  · simpa [Stops, htype, hinto] using hrest.io
  · simp [Harmless, hentry, htype, hdelete, hinto, clean_dir hname, hrest.clean, hbelow]
  · simp [Remains, hdelete]
  · simp

end

/-! ### The walk -/

theorem outcome_file (hdry : args.dryrun = false) {path : Path} {name : FileName} {content : C}
    {rest : Listing FileName C} {isEmpty : Bool} (hnotMem : name ∉ rest.names)
    (ih : ∀ flag, (traverseEntries calls args graph path flag rest).result ≠ .error .panic →
      Outcome calls graph args.mode path rest flag
        (traverseEntries calls args graph path flag rest))
    (hresult : (traverseEntries calls args graph path isEmpty
      (.file name content rest)).result ≠ .error .panic) :
    Outcome calls graph args.mode path (.file name content rest) isEmpty
      (traverseEntries calls args graph path isEmpty (.file name content rest)) := by
  have hname : ∀ flag, name ∉ (traverseEntries calls args graph path flag rest).entries.names :=
    fun flag hmem => hnotMem (names_traverseEntries_subset rest path flag hmem)
  rw [traverseEntries] at hresult ⊢
  -- an entry that cannot be read is skipped, and its directory is left as not empty
  cases hentry : calls.dirEntry (path ++ [name]) with
  | false =>
    simp only [hentry, Bool.not_false, ↓reduceIte] at hresult ⊢
    obtain ⟨hio, hclean, -, -⟩ := ih isEmpty hresult
    refine ⟨?_, ?_, ?_, ?_⟩
    · simpa [Stops, hentry] using hio
    · simpa [Harmless, hentry, clean_file (hname isEmpty)] using fun _ => hclean
    · simp [Remains, hentry]
    · simp
  | true =>
    simp only [hentry, Bool.not_true, Bool.false_eq_true, ↓reduceIte] at hresult ⊢
    cases hget : graph.getAction (path ++ [name]) with
    -- without a decision the walk panics
    | none => rw [hget] at hresult; exact absurd rfl hresult
    | some decision =>
      rw [hget] at hresult
      have hdelete := @saysDelete_iff rx graph args.mode _ _ hget
      -- an unknown type ends the walk
      cases htype : calls.fileType (path ++ [name]) with
      | false =>
        simp only [Bool.not_false, ↓reduceIte]
        refine ⟨?_, ?_, ?_, ?_⟩
        · simp [Stops, hentry, htype]
        · simp [Harmless, hentry, htype]
        · simp [Stops, hentry, htype]
        · simp
      | true =>
        simp only [htype, Bool.not_true, Bool.false_eq_true, ↓reduceIte] at hresult ⊢
        by_cases hdel : decision.actions.forMode args.mode = .delete
        · simp only [hdel, ↓reduceIte, hdry, Bool.not_false, Bool.true_and] at hresult hdelete ⊢
          obtain ⟨hio, hclean, hne, hflag⟩ := ih _ hresult
          -- a file that cannot be removed stays, and so does what it is in
          cases hremove : calls.removeFile (path ++ [name]) with
          | true =>
            refine ⟨?_, ?_, ?_, ?_⟩
            · simpa [Stops, htype] using hio
            · simpa [Harmless, hentry, htype, hremove] using hclean
            · simpa [Stops, Remains, hentry, htype, hremove, hdelete] using hne
            · simpa using hflag
          | false =>
            refine ⟨?_, ?_, ?_, ?_⟩
            · simpa [Stops, htype] using hio
            · simp [Harmless, hentry, htype, hremove, hdelete, clean_file (hname isEmpty)]
            · simp [Remains, hremove]
            · simp
        · simp only [hdel, ↓reduceIte, iff_false] at hresult hdelete ⊢
          obtain ⟨hio, hclean, -, -⟩ := ih _ hresult
          refine ⟨?_, ?_, ?_, ?_⟩
          · simpa [Stops, htype] using hio
          · simpa [Harmless, hentry, htype, hdelete, clean_file (hname false)] using hclean
          · simp [Remains, hdelete]
          · simp

theorem outcome_dir (hgraph : DecisionGraph.ofLines rx lines = .ok graph)
    (hdry : args.dryrun = false) {path : Path} {name : FileName} {isOpaque : Bool}
    {entries rest : Listing FileName C} {isEmpty : Bool} (hvisited : Visited graph path)
    (hnotMem : name ∉ rest.names)
    (ihe : Visited graph (path ++ [name]) →
      (traverseEntries calls args graph (path ++ [name]) true entries).result ≠ .error .panic →
      Outcome calls graph args.mode (path ++ [name]) entries true
        (traverseEntries calls args graph (path ++ [name]) true entries))
    (ihr : ∀ flag, (traverseEntries calls args graph path flag rest).result ≠ .error .panic →
      Outcome calls graph args.mode path rest flag
        (traverseEntries calls args graph path flag rest))
    (hresult : (traverseEntries calls args graph path isEmpty
      (.dir name isOpaque entries rest)).result ≠ .error .panic) :
    Outcome calls graph args.mode path (.dir name isOpaque entries rest) isEmpty
      (traverseEntries calls args graph path isEmpty (.dir name isOpaque entries rest)) := by
  have hname : ∀ flag, name ∉ (traverseEntries calls args graph path flag rest).entries.names :=
    fun flag hmem => hnotMem (names_traverseEntries_subset rest path flag hmem)
  rw [traverseEntries] at hresult ⊢
  -- the cases follow the source: the entry, the decision, the type, and then whether rules go on
  -- below
  cases hentry : calls.dirEntry (path ++ [name]) with
  | false =>
    simp only [hentry, Bool.not_false, ↓reduceIte] at hresult ⊢
    exact (ihr isEmpty hresult).dir_skipped hentry (hname isEmpty) _
  | true =>
    simp only [hentry, Bool.not_true, Bool.false_eq_true, ↓reduceIte] at hresult ⊢
    cases hget : graph.getAction (path ++ [name]) with
    | none => rw [hget] at hresult; exact absurd rfl hresult
    | some decision =>
      rw [hget] at hresult
      have hdelete := @saysDelete_iff rx graph args.mode _ _ hget
      have hinto := goesInto_iff hget
      have hchild := hvisited.child hget
      cases htype : calls.fileType (path ++ [name]) with
      | false =>
        simp only [Bool.not_false, ↓reduceIte]
        exact Outcome.dir_unread hentry (Or.inl htype) _
      | true =>
        simp only [htype, Bool.not_true, Bool.false_eq_true, ↓reduceIte] at hresult ⊢
        cases hdesc : decision.descend with
        | true =>
          simp only [hdesc, ↓reduceIte, iff_true] at hresult hinto ⊢
          cases hread : calls.readDir (path ++ [name]) with
          | false =>
            simp only [Bool.false_eq_true, ↓reduceIte]
            exact Outcome.dir_unread hentry (Or.inr ⟨hinto, hread⟩) _
          | true =>
            simp only [hread, ↓reduceIte] at hresult ⊢
            -- the walk below has not panicked, as this one has not
            have hpanic : (traverseEntries calls args graph (path ++ [name]) true
                entries).result ≠ .error .panic := by
              intro heq
              rw [heq] at hresult
              exact hresult rfl
            have hbelow := ihe hchild hpanic
            generalize traverseEntries calls args graph (path ++ [name]) true entries = below at *
            cases hok : below.result with
            | error stop =>
              -- an error below ends this walk as well
              obtain rfl : stop = .io := by
                cases stop with
                | io => rfl
                | panic => exact absurd hok hpanic
              exact hbelow.dir_ended hentry htype hread hinto hnotMem hok _
            | ok childEmpty =>
              rw [hok] at hresult
              have hrest := ihr (isEmpty && childEmpty) fun heq => by
                dsimp only at hresult
                split at hresult <;> exact hresult heq
              dsimp only
              -- the directory is asked to go when nothing is left in it and the rules delete it
              by_cases hasked :
                  (childEmpty && decide (decision.actions.forMode args.mode = .delete)) = true
              · rw [if_pos hasked, hdry, Bool.not_false, Bool.true_and]
                rw [Bool.and_eq_true, decide_eq_true_eq, ← hdelete] at hasked
                obtain ⟨rfl, hdelete⟩ := hasked
                rw [Bool.and_true] at hrest ⊢
                exact hbelow.dir_asked hentry htype hread hinto (hname isEmpty) hok hdelete hrest _
              · rw [if_neg hasked]
                rw [Bool.and_eq_true, decide_eq_true_eq, not_and', ← hdelete, Bool.not_eq_true]
                  at hasked
                exact hbelow.dir_left hentry htype hread hinto (hname _) hok hasked hrest _
        | false =>
          simp only [hdesc, Bool.false_eq_true, ↓reduceIte, iff_false] at hresult hinto ⊢
          by_cases hdel : decision.actions.forMode args.mode = .delete
          · simp only [hdel, ↓reduceIte, hdry, Bool.not_false, Bool.true_and] at hresult hdelete ⊢
            exact (ihr isEmpty hresult).dir_removed hentry htype hinto (hname isEmpty)
              (hdelete.mpr trivial) _
          · simp only [hdel, ↓reduceIte, iff_false] at hresult hdelete ⊢
            rw [← FileAction.ne_keep, not_not] at hdel
            -- no rule goes on below a directory that is kept as it is, and so it is clean
            have hbelow := hchild.clean_below hgraph (by simp) hget hdesc hdel entries
            exact (ihr false hresult).dir_kept hentry htype hinto (hname false) hdelete hbelow _

/-- **A walk in which calls fail**: how it ends and what it leaves. -/
theorem traverseEntries_outcome (hgraph : DecisionGraph.ofLines rx lines = .ok graph)
    (hdry : args.dryrun = false) (l : Listing FileName C) (hl : l.Distinct) :
    ∀ {path : Path} {isEmpty : Bool}, Visited graph path →
      (traverseEntries calls args graph path isEmpty l).result ≠ .error .panic →
      Outcome calls graph args.mode path l isEmpty
        (traverseEntries calls args graph path isEmpty l) := by
  induction l with
  | nil =>
    intro path isEmpty _ _
    refine ⟨?_, ?_, ?_, ?_⟩
    · simp [traverseEntries, Stops]
    · exact iff_of_true clean_nil trivial
    · simp [traverseEntries, Stops, Remains]
    · simp [traverseEntries]
  | file name content rest ih =>
    exact fun hvisited hresult => outcome_file hdry hl.1 (fun _ => ih hl.2 hvisited) hresult
  | dir name isOpaque entries rest ihe ihr =>
    exact fun hvisited hresult =>
      outcome_dir hgraph hdry hvisited hl.1 (ihe hl.2.1) (fun _ => ihr hl.2.2 hvisited) hresult

/-- **What is left when calls fail**: a cleanup that returns normally has removed everything
that is to be deleted exactly when the failures were harmless. -/
theorem applyKeep_clean_iff (hgraph : DecisionGraph.ofLines rx lines = .ok graph)
    (hdry : args.dryrun = false) (folder : Folder C)
    (hresult : (applyKeep calls args graph folder.entries).result = .ok ()) :
    Clean graph args.mode [] (applyKeep calls args graph folder.entries).entries ↔
      if calls.readDir [] = true then Harmless calls graph args.mode [] folder.entries
      else Clean graph args.mode [] folder.entries := by
  rw [applyKeep, traverse] at hresult ⊢
  split
  · next hread =>
    rw [if_pos hread] at hresult
    have hpanic : (traverseEntries calls args graph [] true folder.entries).result ≠
        .error .panic := by
      intro heq
      rw [heq] at hresult
      cases hresult
    exact (traverseEntries_outcome hgraph hdry folder.entries folder.distinct (Visited.nil graph)
      hpanic).clean
  · exact Iff.rfl

end

/-! ### A directory that cannot be read -/

/-- No call fails but `read_dir` of one directory. -/
def unreadable (path : Path) : Calls :=
  { Calls.allSucceed with readDir := fun p => p ≠ path }

/-- In the directory `a` that cannot be read there is nothing to delete. -/
theorem applyKeep_clean_iff_a : ∃ graph : DecisionGraph pieceCrate,
    DecisionGraph.ofLines pieceCrate intoA = .ok graph ∧
    let a : FileName := .utf8 ⟨"a".toList, by decide, by decide⟩
    let x : FileName := .utf8 ⟨"x".toList, by decide, by decide⟩
    let folder : Listing FileName ℕ := .dir a false (.file x 1 .nil) .nil
    let args : CliArgs := ⟨.base, false, false⟩
    Clean graph .base [] (applyKeep (unreadable [a]) args graph folder).entries := by
  let a : FileName := .utf8 ⟨"a".toList, by decide, by decide⟩
  let x : FileName := .utf8 ⟨"x".toList, by decide, by decide⟩
  let folder : Folder ℕ := ⟨.dir a false (.file x 1 .nil) .nil, by decide⟩
  let args : CliArgs := ⟨.base, false, false⟩
  have hrun : ∃ graph : DecisionGraph pieceCrate,
      DecisionGraph.ofLines pieceCrate intoA = .ok graph ∧
      (applyKeep (unreadable [a]) args graph folder.entries).result = .ok () ∧
      (graph.getAction [a]).map (·.descend) = some true ∧
      (graph.getAction [a, x]).map (·.actions.base) = some .keep :=
    exists_ok_of_decide (by decide +kernel)
  obtain ⟨graph, hgraph, hresult, hinto, hkeep⟩ := hrun
  obtain ⟨into, hgetInto, hdesc⟩ := Option.map_eq_some_iff.mp hinto
  obtain ⟨kept, hgetKept, hbase⟩ := Option.map_eq_some_iff.mp hkeep
  have hclean : Clean graph .base [] folder.entries := by
    have hx : ¬ SaysDelete graph .base [a, x] := by
      rw [saysDelete_iff hgetKept]
      exact fun h => FileAction.noConfusion (hbase.symm.trans h)
    exact (clean_dir (by decide)).mpr
      ⟨fun _ => by simp, (clean_file (by decide)).mpr ⟨hx, clean_nil⟩, clean_nil⟩
  have hgoes : GoesInto graph ([] ++ [a]) := ⟨into, hgetInto, hdesc⟩
  refine ⟨graph, hgraph, (applyKeep_clean_iff hgraph rfl folder hresult).mpr ?_⟩
  rw [if_pos (by decide), Harmless, if_neg (by decide), if_neg (by decide)]
  refine ⟨fun _ => ?_, fun h => absurd hgoes h⟩
  rw [if_pos (by decide)]
  exact hclean

/-- The walk ends at `a`, and the file `y` behind it is left. -/
theorem not_applyKeep_clean_y : ∃ graph : DecisionGraph pieceCrate,
    DecisionGraph.ofLines pieceCrate intoA = .ok graph ∧
    let a : FileName := .utf8 ⟨"a".toList, by decide, by decide⟩
    let y : FileName := .utf8 ⟨"y".toList, by decide, by decide⟩
    let folder : Listing FileName ℕ := .dir a false .nil (.file y 1 .nil)
    let cleanup := applyKeep (unreadable [a]) ⟨.base, false, false⟩ graph folder
    cleanup.result = .ok () ∧ ¬ Clean graph .base [] cleanup.entries := by
  let a : FileName := .utf8 ⟨"a".toList, by decide, by decide⟩
  let y : FileName := .utf8 ⟨"y".toList, by decide, by decide⟩
  let folder : Listing FileName ℕ := .dir a false .nil (.file y 1 .nil)
  let args : CliArgs := ⟨.base, false, false⟩
  have hrun : ∃ graph : DecisionGraph pieceCrate,
      DecisionGraph.ofLines pieceCrate intoA = .ok graph ∧
      (applyKeep (unreadable [a]) args graph folder).result = .ok () ∧
      (applyKeep (unreadable [a]) args graph folder).entries.get? [y] = some (.file 1) ∧
      (graph.getAction [y]).map (·.actions.base) = some .delete :=
    exists_ok_of_decide (by decide +kernel)
  obtain ⟨graph, hgraph, hresult, hleft, hdelete⟩ := hrun
  obtain ⟨decision, hget, hbase⟩ := Option.map_eq_some_iff.mp hdelete
  refine ⟨graph, hgraph, hresult, fun hclean => ?_⟩
  obtain ⟨isOpaque, entries, heq, -⟩ := hclean [y] _ hleft ⟨decision, hget, hbase⟩
  cases heq

end Keep
end Lapas
