import Lapas.Guest.Userdata

/-!
# When user data survives

A call of `setupSymlink` checks the source, prepares source and destination by its strategy, and
links the source.  Each strategy is followed to what it leaves at the destination.

## Main definitions

* `emptied`, `Blank`, `rendered` — what the strategies for empty files and for templates put in
  the place of the source.
* `Spares` — what a file system has to be like for a strategy to leave the destination alone.
* `checkAndPrepare` — a call up to its link.
* `Cycles` — logins, with calls in between.

## Main results

* `prepare_move_iff`, `prepare_empty_iff`, `prepare_tplSrc_iff` — the strategies.
* `checkAndPrepare_iff`, `setupSymlink_iff` — **when a call leaves the data alone.**
* `data_of_cycles` — the data survives any number of such calls.
-/

namespace Lapas
namespace Guest

open Python

variable {N C : Type}

section

variable [DecidableEq N] {fs fs₁ : Nodes N C} {src dst path : List N} {node : Node N C}

/-! ### The strategies -/

/-- What `SymlinkStrategyEmpty` puts in the place of the source. -/
def emptied (emptyContent : C) : Node N C → Node N C
  | .dir => .dir
  | _ => .file emptyContent

/-- There is nothing to clear: the node is there, emptying it changes nothing, and nothing is below
it. -/
def Blank (fs : Nodes N C) (path : List N) (emptyContent : C) : Prop :=
  ∃ node, fs path = some node ∧ emptied emptyContent node = node ∧
    ∀ rest, rest ≠ [] → fs (path ++ rest) = none

/-- What `SymlinkStrategyTplSrc` writes; the source has been removed when it reads the template. -/
def rendered (fs : Nodes N C) (srcPath tplPath : List N) (substitute : C → Option C) : Option C :=
  if fs.resolve tplPath = srcPath then none
  else
    match fs.stat tplPath with
    | some (.file tplData) => substitute tplData
    | _ => none

/-- A folder is created in the place of another one. -/
theorem makedirs_removed (hfs : WellFormed fs) (hsome : fs path ≠ none) (hne : path ≠ []) :
    makedirs path false (fs.removed path) = .ok () (replaced fs path .dir) := by
  have hdir : ∀ p, p <+: path → p ≠ path → fs.removed path p = some .dir := by
    intro p hpre hp
    rw [Nodes.removed_of_not_below fun h => hp (hpre.eq_of_length_le h.length_le)]
    exact hfs.dir_above hpre hp hsome
  have hcreatable : Creatable (fs.removed path) path = true := by
    refine creatable_iff.mpr fun p hpre => ?_
    by_cases hp : p = path
    · rw [hp]
      exact Or.inl Nodes.removed_self
    · exact Or.inr (hdir p hpre hp)
  have hcreated : (fs.removed path).created path = replaced fs path .dir := by
    rw [replaced, created_removed hfs hsome hne]
    funext p
    by_cases hp : p = path
    · rw [hp, Nodes.put_self, Nodes.created_of_above List.prefix_rfl, Nodes.removed_self]
      rfl
    · rw [Nodes.put_of_ne hp]
      by_cases hpre : p <+: path
      · rw [Nodes.created_of_some (hdir p hpre hp), hdir p hpre hp]
      · exact Nodes.created_of_not_above hpre
  rw [makedirs, Nodes.removed_self, if_neg (fun h => by cases h), if_pos hcreatable, hcreated]

variable (emptyContent : C)

theorem prepare_empty (hfs : WellFormed fs) (hne : src ≠ []) (hsrc : fs src = some node)
    (hlink : fs.islink src = false) :
    SymlinkStrategy.prepare emptyContent .empty dst src false fs =
      prepareMove dst src false (replaced fs src (emptied emptyContent node)) := by
  have hsome : fs src ≠ none := Nodes.ne_none hsrc
  have hremoved := created_removed hfs hsome hne
  show (if fs.isdir src then
      rmtree src >>= fun _ => makedirs src false >>= fun _ => prepareMove dst src false
    else osRemove src >>= fun _ => writeFile src (fun old => old.getD emptyContent) >>= fun _ =>
      prepareMove dst src false : Py N C Unit) fs = _
  cases node with
  | link target => cases (Nodes.islink_of_link hsrc).symm.trans hlink
  | dir =>
    have hrmtree : rmtree src fs = .ok () (fs.removed src) := by simp only [rmtree, hsrc]
    have hmakedirs : makedirs src false (fs.removed src) = .ok () (replaced fs src .dir) :=
      makedirs_removed hfs hsome hne
    rw [if_pos (Nodes.isdir_of_dir hsrc), seq_of_ok hrmtree, seq_of_ok hmakedirs]
    rfl
  | file content =>
    have hremove : osRemove src fs = .ok () (fs.removed src) := by simp only [osRemove, hsrc]
    have hwrite : writeFile src (fun old => old.getD emptyContent) (fs.removed src) =
        .ok () (replaced fs src (.file emptyContent)) := by
      rw [replaced, hremoved]
      refine writeFile_of_none Nodes.removed_self ?_ _
      rw [removed_above hne List.prefix_rfl]
      exact hfs.dir_dropLast hne hsome
    have hisdir := Nodes.isdir_of_not_dir hlink (by rw [hsrc]; exact fun heq => by cases heq)
    rw [if_neg (by rw [hisdir]; exact Bool.false_ne_true), seq_of_ok hremove, seq_of_ok hwrite]
    rfl

/-- Where a template is read from, once the source has been removed. -/
theorem stat_removed (hfs : WellFormed fs) (hlink : fs.islink src = false)
    (hdir : fs src ≠ some .dir) (tplPath : List N) :
    (fs.removed src).stat tplPath =
      if fs.resolve tplPath = src then none else fs.stat tplPath := by
  have hunder : ∀ p, src <+: p → p ≠ src → fs p = none := fun p hpre hp =>
    hfs.none_below hpre (Ne.symm hp) hdir
  have hresolve : fs.resolve tplPath = (fs.removed src).resolve tplPath := by
    refine Nodes.resolve_congr fun p target => ?_
    by_cases hpre : src <+: p
    · rw [show fs.removed src p = none from if_pos hpre]
      refine iff_of_false (fun hnode => ?_) fun hnode => nomatch hnode
      by_cases hp : p = src
      · rw [Nodes.islink, ← hp, hnode] at hlink
        cases hlink
      · cases (hunder p hpre hp).symm.trans hnode
    · rw [Nodes.removed_of_not_below hpre]
  rw [Nodes.stat, Nodes.stat, ← hresolve]
  by_cases htpl : fs.resolve tplPath = src
  · rw [if_pos htpl, htpl, Nodes.removed_self]
  · rw [if_neg htpl]
    by_cases hpre : src <+: fs.resolve tplPath
    · rw [show fs.removed src (fs.resolve tplPath) = none from if_pos hpre,
        hunder _ hpre htpl]
    · rw [Nodes.removed_of_not_below hpre]

section

variable {tplPath : List N} {substitute : C → Option C}

/-- A template that cannot be read or rendered. -/
theorem applyTemplate_of_none (hfs : WellFormed fs) (hlink : fs.islink src = false)
    (hdir : fs src ≠ some .dir) (hrendered : rendered fs src tplPath substitute = none) :
    ∃ e, applyTemplate tplPath src substitute (fs.removed src) = .error e (fs.removed src) := by
  have hstat := stat_removed hfs hlink hdir tplPath
  cases hnode : (fs.removed src).stat tplPath with
  | none =>
    have hread : readFile tplPath (fs.removed src) =
        .error (.fileNotFoundError "") (fs.removed src) := by simp only [readFile, hnode]
    exact ⟨_, seq_of_error hread⟩
  | some node =>
    by_cases hfile : ∃ tplData, node = .file tplData
    · obtain ⟨tplData, rfl⟩ := hfile
      have hread : readFile tplPath (fs.removed src) = .ok tplData (fs.removed src) := by
        simp only [readFile, hnode]
      have hsubstitute : substitute tplData = none := by
        rw [hnode] at hstat
        unfold rendered at hrendered
        split at hstat
        · cases hstat
        · rename_i hne
          rw [if_neg hne, ← hstat] at hrendered
          exact hrendered
      refine ⟨.keyError, (seq_of_ok hread).trans ?_⟩
      rw [hsubstitute]
      rfl
    · have hread : readFile tplPath (fs.removed src) =
          .error (.isADirectoryError "") (fs.removed src) := by
        cases node with
        | file tplData => exact absurd ⟨tplData, rfl⟩ hfile
        | dir | link _ => simp only [readFile, hnode]
      exact ⟨_, seq_of_error hread⟩

/-- A template that is rendered is written, where the directories can be created. -/
theorem applyTemplate_of_some (hfs : WellFormed fs) (hne : src ≠ [])
    (hlink : fs.islink src = false) (hparent : fs.islink src.dropLast = false)
    (hdir : fs src ≠ some .dir) {data : C}
    (hrendered : rendered fs src tplPath substitute = some data) :
    (Creatable fs src.dropLast = true → applyTemplate tplPath src substitute (fs.removed src) =
      .ok () (replaced fs src (.file data))) ∧
    (Creatable fs src.dropLast = false → ∃ e,
      applyTemplate tplPath src substitute (fs.removed src) = .error e (fs.removed src)) := by
  -- the template is read although the source has been removed
  obtain ⟨tplData, hread, hsubstitute⟩ : ∃ tplData,
      readFile tplPath (fs.removed src) = .ok tplData (fs.removed src) ∧
        substitute tplData = some data := by
    have hstat := stat_removed hfs hlink hdir tplPath
    unfold rendered at hrendered
    split at hrendered
    · cases hrendered
    · rename_i hresolve
      rw [if_neg hresolve] at hstat
      split at hrendered
      · rename_i tplData hnode
        rw [hnode] at hstat
        exact ⟨tplData, by simp only [readFile, hstat], hrendered⟩
      · cases hrendered
  have hbody : applyTemplate tplPath src substitute (fs.removed src) =
      (makedirs src.dropLast true >>= fun _ => writeFile src fun _ => data : Py N C Unit)
        (fs.removed src) := by
    refine (seq_of_ok hread).trans ?_
    rw [hsubstitute]
  -- removing the source changes nothing above it
  have hcreatable : Creatable (fs.removed src) src.dropLast = Creatable fs src.dropLast := by
    refine Bool.eq_iff_iff.mpr ?_
    rw [creatable_iff, creatable_iff]
    refine forall_congr' fun p => imp_congr_right fun hpre => ?_
    rw [removed_above hne hpre]
  have hlink' : (fs.removed src).islink src.dropLast = false := by
    rw [Nodes.islink, removed_above hne List.prefix_rfl]
    exact hparent
  obtain ⟨hok, herror⟩ := makedirs_existOk (hfs.removed hne) hlink'
  rw [hbody]
  constructor
  · intro h
    refine (seq_of_ok (hok (hcreatable.trans h))).trans (writeFile_of_none ?_ ?_ _)
    · rw [Nodes.created_of_not_above (Nodes.not_prefix_dropLast hne), Nodes.removed_self]
    · rw [Nodes.created_of_above List.prefix_rfl, removed_above hne List.prefix_rfl]
      rcases creatable_iff.mp h _ List.prefix_rfl with hnone | hsome
      · rw [hnone]
        rfl
      · rw [hsome]
        rfl
  · intro h
    obtain ⟨e, he⟩ := herror (hcreatable.trans h)
    exact ⟨e, seq_of_error he⟩

end

/-! ### When user data survives -/

section

variable {tplPath : List N} {substitute : C → Option C}

/-- Replacing a source that is no link leaves the destination alone when this is elsewhere, or
when it does not change anything. -/
theorem below_replaced_iff (hfs : WellFormed fs) (hne : src ≠ [])
    (hspec : Replaced fs (replaced fs src node) src node) (hdst : fs dst ≠ none) :
    (replaced fs src node).below dst = fs.below dst ↔
      Apart src dst ∨ fs src = some node ∧ ∀ rest, rest ≠ [] → fs (src ++ rest) = none := by
  constructor
  · intro hbelow
    have hsame : ∀ rest, replaced fs src node (dst ++ rest) = fs (dst ++ rest) :=
      fun rest => congrFun hbelow rest
    by_cases hdstsrc : dst <+: src
    · -- the source is in the destination
      obtain ⟨rest, rfl⟩ := hdstsrc
      refine Or.inr ⟨?_, fun more hmore => ?_⟩
      · rw [← hsame, hspec.source]
      · rw [List.append_assoc, ← hsame, ← List.append_assoc]
        exact replaced_under hne node (List.prefix_append _ more) (by simpa using hmore)
    · refine Or.inl ⟨fun hsrcdst => hdst ?_, hdstsrc⟩
      have hroot := hsame []
      rw [List.append_nil] at hroot
      rw [← hroot]
      exact replaced_under hne node hsrcdst fun heq => hdstsrc (heq ▸ List.prefix_rfl)
  · rintro (hapart | ⟨hsrc, hunder⟩)
    · exact hspec.below_of_apart hapart
    · have hsame : replaced fs src node = fs := by
        funext p
        by_cases hpre : src <+: p
        · by_cases hp : p = src
          · rw [hp, hspec.source, hsrc]
          · obtain ⟨rest, rfl⟩ := hpre
            rw [replaced_under hne node (List.prefix_append src rest) hp,
              hunder rest (by simpa using hp)]
        · by_cases habove : p <+: src
          · refine hspec.of_not_below hpre ?_
            rw [hfs.dir_above habove (fun heq => hpre (heq ▸ List.prefix_rfl))
              (Nodes.ne_none hsrc)]
            exact fun heq => nomatch heq
          · exact hspec.elsewhere p hpre habove
      rw [hsame]

theorem prepare_move_iff (hfs : WellFormed fs) (hne : src ≠ []) (hsrc : fs src = some node)
    (hlink : fs.islink src = false) (hdst : fs dst ≠ none) (hdlink : fs.islink dst = false) :
    (leaves (SymlinkStrategy.prepare emptyContent .move dst src false fs)).below dst =
        fs.below dst ↔ SparesMove fs src dst node := by
  refine ((Replaced.refl hsrc).prepareMove_iff hfs hfs hne hlink hdst hdlink).trans ?_
  exact and_iff_right rfl

/-- The data survives when it is apart from what has been replaced, and from the move. -/
theorem prepareMove_replaced_iff (hfs : WellFormed fs) (hne : src ≠ [])
    (hlink : fs.islink src = false) (hcreatable : Creatable fs src.dropLast = true)
    (hdir : fs src = some .dir ↔ node = .dir) (hnode : ∀ target, node ≠ .link target)
    (hdst : fs dst ≠ none) (hdlink : fs.islink dst = false) :
    (leaves (prepareMove dst src false (replaced fs src node))).below dst = fs.below dst ↔
      (Apart src dst ∨ fs src = some node ∧ ∀ rest, rest ≠ [] → fs (src ++ rest) = none) ∧
        SparesMove fs src dst node := by
  have hspec := replaced_spec hfs hne hcreatable hlink hdir hnode
  have hlink₁ : (replaced fs src node).islink src = false := by
    rw [Nodes.islink, hspec.source]
    cases node with
    | link target => exact absurd rfl (hnode target)
    | file _ | dir => rfl
  rw [hspec.prepareMove_iff hfs (wellFormed_replaced hfs hne hcreatable node) hne hlink₁ hdst
    hdlink,
    below_replaced_iff hfs hne hspec hdst]

theorem prepare_empty_iff (hfs : WellFormed fs) (hne : src ≠ []) (hsrc : fs src = some node)
    (hlink : fs.islink src = false) (hdst : fs dst ≠ none) (hdlink : fs.islink dst = false) :
    (leaves (SymlinkStrategy.prepare emptyContent .empty dst src false fs)).below dst =
        fs.below dst ↔
      (Apart src dst ∨ Blank fs src emptyContent) ∧
        SparesMove fs src dst (emptied emptyContent node) := by
  have hsome : fs src ≠ none := Nodes.ne_none hsrc
  have hblank : Blank fs src emptyContent ↔ fs src = some (emptied emptyContent node) ∧
      ∀ rest, rest ≠ [] → fs (src ++ rest) = none := by
    constructor
    · rintro ⟨node', hnode', hemptied, hunder⟩
      cases hsrc.symm.trans hnode'
      exact ⟨hsrc.trans (congrArg some hemptied.symm), hunder⟩
    · rintro ⟨hemptied, hunder⟩
      exact ⟨node, hsrc, (Option.some.inj (hsrc.symm.trans hemptied)).symm, hunder⟩
  rw [prepare_empty emptyContent hfs hne hsrc hlink, hblank]
  refine prepareMove_replaced_iff hfs hne hlink (creatable_of_some hfs hsome hne) ?_ ?_ hdst hdlink
  · rw [hsrc]
    cases node <;> simp [emptied]
  · intro target
    cases node <;> simp [emptied]

/-- `SymlinkStrategyTplSrc.prepare` does not touch a folder. -/
theorem prepare_tplSrc_of_dir (hdir : fs src = some .dir) :
    SymlinkStrategy.prepare emptyContent (.tplSrc tplPath substitute) dst src false fs =
      .error (.isADirectoryError "SymlinkStrategy TplSrc requires source to be a file") fs := by
  show (if fs.isdir src then
      throw (.isADirectoryError "SymlinkStrategy TplSrc requires source to be a file")
    else _ : Py N C Unit) fs = _
  rw [if_pos (Nodes.isdir_of_dir hdir)]
  rfl

/-- It removes a file first. -/
theorem prepare_tplSrc (hfs : WellFormed fs) (hlink : fs.islink src = false)
    (hdir : fs src ≠ some .dir) :
    SymlinkStrategy.prepare emptyContent (.tplSrc tplPath substitute) dst src false fs =
      (applyTemplate tplPath src substitute >>= fun _ => prepareMove dst src false : Py N C Unit)
        (fs.removed src) := by
  show (if fs.isdir src then
      throw (.isADirectoryError "SymlinkStrategy TplSrc requires source to be a file")
    else _ : Py N C Unit) fs = _
  rw [if_neg (by rw [Nodes.isdir_of_not_dir hlink hdir]; exact Bool.false_ne_true)]
  show (if fs.exists? src then osRemove src >>= fun _ => applyTemplate tplPath src substitute >>=
      fun _ => prepareMove dst src false
    else applyTemplate tplPath src substitute >>= fun _ => prepareMove dst src false :
      Py N C Unit) fs = _
  rw [Nodes.exists?_of_not_link hlink]
  cases hnode : fs src with
  | none =>
    rw [hfs.removed_eq_self hnode]
    rfl
  | some node =>
    have hremove : osRemove src fs = .ok () (fs.removed src) := by
      cases node with
      | dir => exact absurd hnode hdir
      | file _ | link _ => simp only [osRemove, hnode]
    exact seq_of_ok hremove

theorem prepare_tplSrc_iff (hfs : WellFormed fs) (hne : src ≠ []) (hlink : fs.islink src = false)
    (hparent : fs.islink src.dropLast = false) (hdir : fs src ≠ some .dir) (hdst : fs dst ≠ none)
    (hdlink : fs.islink dst = false) :
    (leaves (SymlinkStrategy.prepare emptyContent (.tplSrc tplPath substitute) dst src false
        fs)).below dst = fs.below dst ↔
      match rendered fs src tplPath substitute with
      | none => fs src = none ∨ ¬ dst <+: src
      | some data => Creatable fs src.dropLast = false ∨
          (¬ dst <+: src ∨ fs src = some (.file data)) ∧ SparesMove fs src dst (.file data) := by
  -- nothing is below the source
  have hunder : ∀ p, src <+: p → p ≠ src → fs p = none := fun p hpre hp =>
    hfs.none_below hpre (Ne.symm hp) hdir
  have hapart : Apart src dst ↔ ¬ dst <+: src := by
    refine ⟨And.right, fun hdstsrc => ⟨fun hsrcdst => hdst (hunder dst hsrcdst ?_), hdstsrc⟩⟩
    rintro rfl
    exact hdstsrc List.prefix_rfl
  rw [prepare_tplSrc emptyContent hfs hlink hdir]
  cases hrendered : rendered fs src tplPath substitute with
  | none =>
    obtain ⟨e, he⟩ := applyTemplate_of_none hfs hlink hdir hrendered
    rw [seq_of_error he]
    constructor
    · intro hbelow
      by_contra hcontra
      obtain ⟨hsome, hdstsrc⟩ := not_or.mp hcontra
      obtain ⟨rest, rfl⟩ := not_not.mp hdstsrc
      have hsame := congrFun hbelow rest
      rw [Nodes.below, Nodes.below] at hsame
      exact hsome (hsame.symm.trans Nodes.removed_self)
    · rintro (hnone | hdstsrc)
      · rw [leaves, hfs.removed_eq_self hnone]
      · funext rest
        refine Nodes.removed_of_not_below fun hpre => ?_
        rcases List.prefix_or_prefix_of_prefix hpre (List.prefix_append dst rest) with h | h
        · exact (hapart.mpr hdstsrc).1 h
        · exact hdstsrc h
  | some data =>
    obtain ⟨hok, herror⟩ := applyTemplate_of_some hfs hne hlink hparent hdir hrendered
    cases hcreatable : Creatable fs src.dropLast with
    | false =>
      obtain ⟨e, he⟩ := herror hcreatable
      have hnone : fs src = none := by
        by_contra hsome
        cases (creatable_of_some hfs hsome hne).symm.trans hcreatable
      rw [seq_of_error he, leaves, hfs.removed_eq_self hnone]
      exact iff_of_true rfl (Or.inl rfl)
    | true =>
      have hfileDir : fs src = some .dir ↔ (.file data : Node N C) = .dir :=
        iff_of_false hdir fun heq => by cases heq
      rw [seq_of_ok (hok hcreatable), prepareMove_replaced_iff hfs hne hlink hcreatable hfileDir
        (fun _ heq => by cases heq) hdst hdlink, hapart]
      have hfile : (fs src = some (.file data) ∧ ∀ rest, rest ≠ [] → fs (src ++ rest) = none) ↔
          fs src = some (.file data) :=
        and_iff_left_of_imp fun _ rest hrest =>
          hunder _ (List.prefix_append src rest) (by simpa using hrest)
      rw [hfile]
      exact (or_iff_right fun heq => by cases heq).symm

/-- What it takes for a call to leave the data alone: it does nothing, or it raises in front of
what would touch the data, or what it moves there changes nothing. -/
def Spares (fs : Nodes N C) (srcPath dstPath : List N) : SymlinkStrategy N C → Prop
  | .move => ∀ node, fs srcPath = some node → SparesMove fs srcPath dstPath node
  | .empty => ∀ node, fs srcPath = some node →
      (Apart srcPath dstPath ∨ Blank fs srcPath emptyContent) ∧
        SparesMove fs srcPath dstPath (emptied emptyContent node)
  | .tplSrc tplPath substitute => fs srcPath = some .dir ∨
      match rendered fs srcPath tplPath substitute with
      | none => fs srcPath = none ∨ ¬ dstPath <+: srcPath
      | some data => Creatable fs srcPath.dropLast = false ∨
          (¬ dstPath <+: srcPath ∨ fs srcPath = some (.file data)) ∧
            SparesMove fs srcPath dstPath (.file data)

variable {strategy : SymlinkStrategy N C}

/-- The check and the preparation of a strategy for a player, that is, `setupSymlink` behind its
guards. -/
def checkAndPrepare (strategy : SymlinkStrategy N C) (dstPath srcPath : List N) : Py N C Unit :=
  strategy.check srcPath >>= fun _ => strategy.prepare emptyContent dstPath srcPath false

omit [DecidableEq N] in
/-- Without a source, these strategies raise. -/
theorem check_of_none (hstrategy : strategy = .move ∨ strategy = .empty) (hnone : fs src = none) :
    strategy.check src fs = .error (.fileNotFoundError "Source path does not exist") fs := by
  have hcheck : checkMove src fs = .error (.fileNotFoundError "Source path does not exist") fs := by
    show (if fs.exists? src = false then
      throw (.fileNotFoundError "Source path does not exist") else pure () : Py N C Unit) fs = _
    rw [Nodes.exists?_of_not_link (Nodes.islink_of_none hnone), hnone]
    rfl
  rcases hstrategy with rfl | rfl <;> exact hcheck

omit [DecidableEq N] in
theorem check_of_some (hstrategy : strategy = .move ∨ strategy = .empty) (hsome : fs src ≠ none)
    (hlink : fs.islink src = false) : strategy.check src fs = .ok () fs := by
  have hcheck : checkMove src fs = .ok () fs := by
    show (if fs.exists? src = false then
      throw (.fileNotFoundError "Source path does not exist") else pure () : Py N C Unit) fs = _
    rw [Nodes.exists?_of_not_link hlink, Option.isSome_iff_ne_none.mpr hsome]
    rfl
  rcases hstrategy with rfl | rfl <;> exact hcheck

theorem checkAndPrepare_iff (hfs : WellFormed fs) (hne : src ≠ []) (hlink : fs.islink src = false)
    (hparent : fs.islink src.dropLast = false) (hdst : fs dst ≠ none)
    (hdlink : fs.islink dst = false) :
    (leaves (checkAndPrepare emptyContent strategy dst src fs)).below dst = fs.below dst ↔
      Spares emptyContent fs src dst strategy := by
  cases strategy with
  | move =>
    cases hsrc : fs src with
    | none =>
      rw [checkAndPrepare, seq_of_error (check_of_none (Or.inl rfl) hsrc), Spares, hsrc]
      exact iff_of_true rfl fun _ heq => nomatch heq
    | some node =>
      have hsome : fs src ≠ none := Nodes.ne_none hsrc
      rw [checkAndPrepare, seq_of_ok (check_of_some (Or.inl rfl) hsome hlink),
        prepare_move_iff emptyContent hfs hne hsrc hlink hdst hdlink, Spares, hsrc]
      exact ⟨fun h node hnode => Option.some.inj hnode ▸ h, fun h => h node rfl⟩
  | empty =>
    cases hsrc : fs src with
    | none =>
      rw [checkAndPrepare, seq_of_error (check_of_none (Or.inr rfl) hsrc), Spares, hsrc]
      exact iff_of_true rfl fun _ heq => nomatch heq
    | some node =>
      have hsome : fs src ≠ none := Nodes.ne_none hsrc
      rw [checkAndPrepare, seq_of_ok (check_of_some (Or.inr rfl) hsome hlink),
        prepare_empty_iff emptyContent hfs hne hsrc hlink hdst hdlink, Spares, hsrc]
      exact ⟨fun h node hnode => Option.some.inj hnode ▸ h, fun h => h node rfl⟩
  | tplSrc tplPath substitute =>
    have hcheck : SymlinkStrategy.check (.tplSrc tplPath substitute) src fs = .ok () fs := rfl
    rw [checkAndPrepare, seq_of_ok hcheck, Spares]
    by_cases hdir : fs src = some .dir
    · rw [prepare_tplSrc_of_dir emptyContent hdir]
      exact iff_of_true rfl (Or.inl hdir)
    · rw [prepare_tplSrc_iff emptyContent hfs hne hlink hparent hdir hdst hdlink]
      exact (or_iff_right hdir).symm

/-- A move that returns has made a link. -/
theorem link_of_prepareMove {fs' : Nodes N C} (h : prepareMove dst src false fs = .ok () fs') :
    fs' src = some (.link dst) := by
  obtain ⟨-, fs₁, -, hsymlink⟩ := exists_of_bind h
  unfold symlink at hsymlink
  split at hsymlink
  · cases hsymlink
  · split at hsymlink
    · cases hsymlink
      exact Nodes.put_self _
    · cases hsymlink

theorem link_of_checkAndPrepare (hfs : WellFormed fs) (hne : src ≠ [])
    (hlink : fs.islink src = false) {fs' : Nodes N C}
    (h : checkAndPrepare emptyContent strategy dst src fs = .ok () fs') :
    fs' src = some (.link dst) := by
  cases strategy with
  | move =>
    obtain ⟨-, fs₁, -, hprepare⟩ := exists_of_bind h
    exact link_of_prepareMove hprepare
  | empty =>
    cases hsrc : fs src with
    | none =>
      rw [checkAndPrepare, seq_of_error (check_of_none (Or.inr rfl) hsrc)] at h
      cases h
    | some node =>
      have hsome : fs src ≠ none := Nodes.ne_none hsrc
      rw [checkAndPrepare, seq_of_ok (check_of_some (Or.inr rfl) hsome hlink),
        prepare_empty emptyContent hfs hne hsrc hlink] at h
      exact link_of_prepareMove h
  | tplSrc tplPath substitute =>
    have hcheck : SymlinkStrategy.check (.tplSrc tplPath substitute) src fs = .ok () fs := rfl
    rw [checkAndPrepare, seq_of_ok hcheck] at h
    by_cases hdir : fs src = some .dir
    · rw [prepare_tplSrc_of_dir emptyContent hdir] at h
      cases h
    · rw [prepare_tplSrc emptyContent hfs hlink hdir] at h
      obtain ⟨-, fs₁, -, hmove⟩ := exists_of_bind h
      exact link_of_prepareMove hmove

/-- What a user that is not the base user runs. -/
theorem setupSymlink_of_user (hfs : WellFormed fs) {username : String} (huser : username ≠ "lapas")
    {userdataPath relDstPath : List N} (hdst : fs (userdataPath ++ relDstPath) ≠ none) :
    setupSymlink emptyContent username userdataPath src relDstPath strategy fs =
      if fs.islink src then .ok false fs
      else
        match checkAndPrepare emptyContent strategy (userdataPath ++ relDstPath) src fs with
        | .ok _ fs' => .ok false fs'
        | .error e fs' => .error e fs' := by
  have hmakedirs : makedirs (userdataPath ++ relDstPath).dropLast true fs = .ok () fs := by
    refine makedirs_of_dir ?_
    rcases eq_or_ne (userdataPath ++ relDstPath) [] with hroot | hroot
    · rw [hroot]
      exact hfs.root
    · exact hfs.dir_dropLast hroot hdst
  have hbase : decide (username = "lapas") = false := decide_eq_false huser
  unfold setupSymlink
  rw [hbase]
  show (if fs.islink src then pure false
    else makedirs (userdataPath ++ relDstPath).dropLast true >>= fun _ =>
      strategy.check src >>= fun _ =>
        strategy.prepare emptyContent (userdataPath ++ relDstPath) src false >>= fun _ =>
          pure false : Py N C Bool) fs = _
  cases hlink : fs.islink src with
  | true => rfl
  | false =>
    refine (seq_of_ok hmakedirs).trans ?_
    cases hcheck : strategy.check src fs with
    | error e fs₁ => rw [checkAndPrepare, seq_of_error hcheck, seq_of_error hcheck]; rfl
    | ok a fs₁ =>
      rw [checkAndPrepare, seq_of_ok hcheck, seq_of_ok hcheck]
      cases hprepare : strategy.prepare emptyContent (userdataPath ++ relDstPath) src false fs₁ with
      | error e fs₂ => rw [seq_of_error hprepare]; rfl
      | ok b fs₂ => rw [seq_of_ok hprepare]; rfl

/-- Logging in and starting a shortcut, over and over again.  Between two starts, whatever is not
the data may change; every start is spared. -/
inductive Cycles (username : String) (userdataPath relDstPath : List N) (data : Nodes N C) :
    Nodes N C → Prop
  | start {fs : Nodes N C} (h : fs.below (userdataPath ++ relDstPath) = data) :
      Cycles username userdataPath relDstPath data fs
  | cycle {fs : Nodes N C} (h : Cycles username userdataPath relDstPath data fs)
      (fs' : FileSystem N C)
      (hlogin : fs'.nodes.below (userdataPath ++ relDstPath) =
        fs.below (userdataPath ++ relDstPath))
      (src : fs'.nodes.Place) (strategy : SymlinkStrategy N C)
      (hspares : fs'.nodes.islink src.path = true ∨
        Spares emptyContent fs'.nodes src.path (userdataPath ++ relDstPath) strategy) :
      Cycles username userdataPath relDstPath data
        (leaves (setupSymlink emptyContent username userdataPath src.path relDstPath strategy
          fs'.nodes))

/-- **Any number of cycles.**  Data is what it was when every start is spared. -/
theorem data_of_cycles {username : String} (huser : username ≠ "lapas")
    {userdataPath relDstPath : List N} {data : Nodes N C} (hdata : data [] ≠ none)
    (hlink : data.islink [] = false)
    (h : Cycles emptyContent username userdataPath relDstPath data fs) :
    fs.below (userdataPath ++ relDstPath) = data := by
  induction h with
  | start h => exact h
  | cycle h fs' hlogin src strategy hspares ih =>
    have hbelow := hlogin.trans ih
    have hroot : fs'.nodes (userdataPath ++ relDstPath) = data [] := by
      rw [← hbelow, Nodes.below, List.append_nil]
    have hdst : fs'.nodes (userdataPath ++ relDstPath) ≠ none := by rwa [hroot]
    have hdlink : fs'.nodes.islink (userdataPath ++ relDstPath) = false := by
      rw [Nodes.islink, hroot]
      exact hlink
    rw [setupSymlink_of_user emptyContent fs'.wellFormed huser hdst]
    cases hsrc : fs'.nodes.islink src.path with
    | true => exact hbelow
    | false =>
      have hkept := (checkAndPrepare_iff emptyContent fs'.wellFormed src.ne_nil hsrc src.parent hdst
        hdlink).mpr (hspares.resolve_left (by rw [hsrc]; exact Bool.false_ne_true))
      rw [← hbelow, ← hkept]
      cases checkAndPrepare emptyContent strategy (userdataPath ++ relDstPath) src.path
        fs'.nodes <;> rfl

/-- **When user data survives.**  A call of a user that is not the base user leaves data that is
there alone, and returns with a link to it or without having done anything, exactly when the
source is a link already, or when the strategy spares the data.  From there on, the data stays what
it is over any number of logins and of calls that spare it. -/
theorem setupSymlink_iff (fs : FileSystem N C) {username : String} (huser : username ≠ "lapas")
    (src : fs.nodes.Place) {userdataPath relDstPath : List N}
    (hdst : fs.nodes (userdataPath ++ relDstPath) ≠ none)
    (hdlink : fs.nodes.islink (userdataPath ++ relDstPath) = false) :
    (Survives fs.nodes src.path (userdataPath ++ relDstPath)
        (setupSymlink emptyContent username userdataPath src.path relDstPath strategy fs.nodes) ↔
      fs.nodes.islink src.path = true ∨
        Spares emptyContent fs.nodes src.path (userdataPath ++ relDstPath) strategy) ∧
    ∀ fs', Cycles emptyContent username userdataPath relDstPath
        (fs.nodes.below (userdataPath ++ relDstPath)) fs' →
      fs'.below (userdataPath ++ relDstPath) = fs.nodes.below (userdataPath ++ relDstPath) := by
  have hfs := fs.wellFormed
  have hroot : fs.nodes.below (userdataPath ++ relDstPath) [] =
      fs.nodes (userdataPath ++ relDstPath) := by
    rw [Nodes.below, List.append_nil]
  refine ⟨?_, fun fs' => data_of_cycles emptyContent huser (by rwa [hroot]) ?_⟩
  swap
  · rw [Nodes.islink, hroot]
    exact hdlink
  rw [setupSymlink_of_user emptyContent hfs huser hdst]
  cases hlink : fs.nodes.islink src.path with
  | true => exact iff_of_true ⟨rfl, Or.inr rfl⟩ (Or.inl rfl)
  | false =>
    rw [or_iff_right Bool.false_ne_true,
      ← checkAndPrepare_iff emptyContent hfs src.ne_nil hlink src.parent hdst hdlink]
    cases hresult : checkAndPrepare emptyContent strategy (userdataPath ++ relDstPath) src.path
        fs.nodes with
    | error e fs' => exact Iff.rfl
    | ok a fs' =>
      refine and_iff_left_of_imp fun hbelow => Or.inl ?_
      have hnode := link_of_checkAndPrepare emptyContent hfs src.ne_nil hlink hresult
      -- the destination is no link, as it has not been one
      have hdlink' : fs'.islink (userdataPath ++ relDstPath) = false := by
        have hroot := congrFun hbelow []
        rw [Nodes.below, Nodes.below, List.append_nil] at hroot
        rw [Nodes.islink, hroot]
        exact hdlink
      refine ⟨?_, Nodes.resolve_of_link hnode hdlink'⟩
      rw [Nodes.islink, hnode]

end

/-! ### A saved game -/

/-- A game with a file that has been saved. -/
def savedNodes (original saved : String) : Nodes String String := fun path =>
  if path = [] ∨ path = ["game"] ∨ path = ["userdata"] then some .dir
  else if path = ["game", "save"] then some (.file original)
  else if path = ["userdata", "save"] then some (.file saved)
  else none

/-- A prefix with a saved game, next to the one of an earlier installation. -/
def savedGame (original saved : String) : FileSystem String String where
  nodes := savedNodes original saved
  wellFormed := by
    refine ⟨rfl, fun path name hsome => ?_⟩
    have hpath : path = (path ++ [name]).dropLast := List.dropLast_concat.symm
    unfold savedNodes at hsome
    split at hsome
    · rename_i h
      rcases h with h | h | h <;> rw [h] at hpath <;> rw [hpath] <;> rfl
    · split at hsome
      · rename_i h
        rw [h] at hpath
        rw [hpath]
        rfl
      · split at hsome
        · rename_i h
          rw [h] at hpath
          rw [hpath]
          rfl
        · exact absurd rfl hsome

/-- The file of the base user is back in its place after each login, with the content that `bob` has
saved: the first start spares what he has saved, and so does the next one. -/
theorem setupSymlink_iff_saved :
    let game := savedGame "level 9" "level 9"
    let started := setupSymlink "" "bob" ["userdata"] ["game", "save"] ["save"] .move game.nodes
    Survives game.nodes ["game", "save"] ["userdata", "save"] started ∧
      (leaves started).below ["userdata", "save"] = game.nodes.below ["userdata", "save"] := by
  intro game started
  have hsrc : game.nodes ["game", "save"] ≠ none := by decide
  have hdst : game.nodes (["userdata"] ++ ["save"]) ≠ none := by decide
  have huser : "bob" ≠ "lapas" := by decide
  have hspares : Spares "" game.nodes ["game", "save"] ["userdata", "save"] .move :=
    fun _ hnode => Option.some.inj hnode ▸ rfl
  let src := game.place ["game", "save"] (List.cons_ne_nil _ _) hsrc
  obtain ⟨hsurvives, hcycles⟩ := @setupSymlink_iff _ _ _ "" .move game _ huser src _ _ hdst rfl
  have hfirst : Cycles "" "bob" ["userdata"] ["save"] (game.nodes.below ["userdata", "save"])
      (leaves started) := .cycle (.start rfl) game rfl src .move (Or.inr hspares)
  exact ⟨hsurvives.mpr (Or.inr hspares),
    hcycles _ (.cycle hfirst game (hcycles _ hfirst).symm src .move (Or.inr hspares))⟩

/-- The user `bob` has saved a game, and logs in again: the file of the base user is back in its
place, and replaces what `bob` has saved. -/
theorem not_setupSymlink_level9 :
    ¬ Survives (savedNodes "level 1" "level 9") ["game", "save"] ["userdata", "save"]
      (setupSymlink "" "bob" ["userdata"] ["game", "save"] ["save"] .move
        (savedNodes "level 1" "level 9")) := by
  intro h
  have hsaved : some (.file "level 1" : Node String String) = some (.file "level 9") :=
    congrFun h.1 []
  exact absurd hsaved (by decide)

end

end Guest
end Lapas
