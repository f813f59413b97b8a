import Lapas.Library.Python

/-!
# Linking user data

`setupSymlink` moves a file or a folder of a wine prefix to the folder with the user's data, and
leaves a link in its place.  When the user logs in again, the link is gone, and what the base
user has there is back.

## Main definitions

* `SymlinkStrategy.check`, `SymlinkStrategy.prepare`, `setupSymlink` — the helper.
* `Survives` — the data at the destination is left alone.
* `SparesMove` — what this takes for a move.
* `Replaced`, `replaced` — another file or an empty folder is in the place of the source.

## Main results

* `prepareMove_of_file`, `prepareMove_of_dir` — what moving onto existing data does.
* `Replaced.prepareMove_iff` — when a move of what is in the place of the source spares the data.
* `replaced_spec` — a file system with something else in the place of the source.
-/

namespace Lapas
namespace Guest

open Python

variable {N C : Type}

/-! ### The helper -/

section

variable [DecidableEq N]

/-- `applyTemplate`; `substitute` is `string.Template.substitute` with the arguments. -/
def applyTemplate (srcPath dstPath : List N) (substitute : C → Option C) : Py N C Unit := do
  let tplData ← readFile srcPath
  match substitute tplData with
  | none => throw .keyError
  | some data =>
    makedirs dstPath.dropLast true
    writeFile dstPath fun _ => data

/-- The strategies of the hooks: move the source, start with an empty file or folder, or take a
template whose text is substituted. -/
inductive SymlinkStrategy (N C : Type)
  | move
  | empty
  | tplSrc (tplPath : List N) (substitute : C → Option C)

/-- `SymlinkStrategyMove.check`: the source has to exist, also behind a link, and otherwise the
exception says so. -/
def checkMove (linkPath : List N) : Py N C Unit := do
  if (← get).exists? linkPath = false then
    throw (.fileNotFoundError "Source path does not exist")

/-- `SymlinkStrategyMove.prepare`: for a player the source is moved to the target and a link is made
in its place. -/
def prepareMove (linkTargetPath linkPath : List N) (isBaseUser : Bool) : Py N C Unit := do
  if !isBaseUser then
    shutilMove linkPath linkTargetPath
    symlink linkTargetPath linkPath

/-- `check`: what is replaced has to be there, unless a template stands in for it. -/
def SymlinkStrategy.check (strategy : SymlinkStrategy N C) (linkPath : List N) : Py N C Unit :=
  match strategy with
  | .move | .empty => checkMove linkPath
  | .tplSrc _ _ => pure ()

variable (emptyContent : C)

/-- `prepare`: what the link will lead to is moved there, emptied, or made from a template. -/
def SymlinkStrategy.prepare (strategy : SymlinkStrategy N C) (linkTargetPath linkPath : List N)
    (isBaseUser : Bool) : Py N C Unit := do
  match strategy with
  | .move => prepareMove linkTargetPath linkPath isBaseUser
  | .empty =>
    if (← get).isdir linkPath then
      rmtree linkPath
      makedirs linkPath false
    else
      osRemove linkPath
      writeFile linkPath fun old => old.getD emptyContent
    prepareMove linkTargetPath linkPath isBaseUser
  | .tplSrc tplPath substitute =>
    if (← get).isdir linkPath then
      throw (.isADirectoryError "SymlinkStrategy TplSrc requires source to be a file")
    if (← get).exists? linkPath then
      osRemove linkPath
    applyTemplate tplPath linkPath substitute
    prepareMove linkTargetPath linkPath isBaseUser

/-- `setupSymlink`: for a player a source that is a link stops it and the folder of the destination
is made; then the strategy checks and prepares. -/
def setupSymlink (username : String) (userdataPath srcPath relDstPath : List N)
    (strategy : SymlinkStrategy N C) : Py N C Bool := do
  let isBaseUser := username = "lapas"
  let dstPath := userdataPath ++ relDstPath
  if !isBaseUser then
    if (← get).islink srcPath then
      return false
    makedirs dstPath.dropLast true
  strategy.check srcPath
  strategy.prepare emptyContent dstPath srcPath isBaseUser
  return isBaseUser

end

/-! ### User data -/

section

variable {fs : Nodes N C} {src dst : List N}

/-- The data at the destination is what it was, also when the call raises; and when it returns,
the source is a link to the destination, or nothing has changed. -/
def Survives (fs : Nodes N C) (srcPath dstPath : List N) :
    EStateM.Result PyError (Nodes N C) Bool → Prop
  | .ok _ fs' => fs'.below dstPath = fs.below dstPath ∧
      ((fs'.islink srcPath = true ∧ fs'.resolve srcPath = dstPath) ∨ fs' = fs)
  | .error _ fs' => fs'.below dstPath = fs.below dstPath

/-- Moving a file or a folder leaves the destination alone: a file has the same content
already, a folder does not replace a file, and in a folder the name of the source is taken. -/
def SparesMove (fs : Nodes N C) (srcPath dstPath : List N) (moved : Node N C) : Prop :=
  match fs dstPath, moved with
  | some (.file content), .file data => data = content
  | some (.file _), _ => True
  | _, .dir => srcPath <+: dstPath ∨ fs (dstPath ++ basename srcPath) ≠ none
  | _, _ => fs.exists? (dstPath ++ basename srcPath) = true ∨
      fs.resolve (dstPath ++ basename srcPath) <+: srcPath

/-- Neither path is in the other, so that what is done at the one leaves the other as it is. -/
def Apart (path path' : List N) : Prop := ¬ path <+: path' ∧ ¬ path' <+: path

theorem sparesMove_file_file {content data : C} (hdst : fs dst = some (.file content)) :
    SparesMove fs src dst (.file data) ↔ data = content := by simp only [SparesMove, hdst]

theorem sparesMove_file_dir {content : C} (hdst : fs dst = some (.file content)) :
    SparesMove fs src dst .dir := by simp only [SparesMove, hdst]

theorem sparesMove_dir_dir (hdst : fs dst = some .dir) :
    SparesMove fs src dst .dir ↔ src <+: dst ∨ fs (dst ++ basename src) ≠ none := by
  simp only [SparesMove, hdst]

theorem sparesMove_dir_file {data : C} (hdst : fs dst = some .dir) :
    SparesMove fs src dst (.file data) ↔ fs.exists? (dst ++ basename src) = true ∨
      fs.resolve (dst ++ basename src) <+: src := by simp only [SparesMove, hdst]

end

/-! ### Names in a folder -/

section

variable {fs : Nodes N C} {src dst : List N} {node : Node N C}

theorem sparesMove_of_exists (hsrc : fs src = some node) (hlink : fs.islink src = false)
    (hdst : fs dst = some .dir) (hexists : fs.exists? (dst ++ basename src) = true) :
    SparesMove fs src dst node := by
  cases node with
  | link target => cases (Nodes.islink_of_link hsrc).symm.trans hlink
  | dir => exact (sparesMove_dir_dir hdst).mpr (Or.inr (Nodes.ne_none_of_exists? hexists))
  | file data => exact (sparesMove_dir_file hdst).mpr (Or.inl hexists)

variable (hsome : fs src ≠ none) (hlink : fs.islink src = false)
  (hfree : fs.exists? (dst ++ basename src) = false)

include hfree in
/-- Where the name of the source is free in a folder, there is nothing but a dangling link. -/
theorem ne_of_free {p : List N} (hp : fs p ≠ none) (hplink : fs.islink p = false) :
    dst ++ basename src ≠ p := by
  intro heq
  rw [heq, Nodes.exists?_of_not_link hplink] at hfree
  exact hp (Option.not_isSome_iff_eq_none.mp (by rw [hfree]; exact Bool.false_ne_true))

include hfree in
theorem not_dir_of_free : fs (dst ++ basename src) ≠ some .dir := fun hdir =>
  ne_of_free hfree (Nodes.ne_none hdir) (Nodes.islink_of_dir hdir) rfl

include hsome hlink hfree

theorem not_above_of_free (hfs : WellFormed fs) : ¬ dst ++ basename src <+: src := fun hpre =>
  not_dir_of_free hfree (hfs.dir_above hpre (ne_of_free hfree hsome hlink) hsome)

theorem prefix_of_free (hne : src ≠ []) (hpre : src <+: dst ++ basename src) : src <+: dst := by
  have hbase : dst ++ basename src = dst ++ [src.getLast hne] := by
    rw [basename, List.getLast?_eq_getLast_of_ne_nil hne]
    rfl
  rw [hbase] at hpre
  refine (List.prefix_concat_iff.mp hpre).resolve_left fun heq => ?_
  exact ne_of_free hfree hsome hlink (hbase.trans heq.symm)

/-- What leads to the source or above it leads to something. -/
theorem not_sparesMove_of_free (hfs : WellFormed fs) (hdst : fs dst = some .dir) {data : C} :
    ¬ SparesMove fs src dst (.file data) := by
  intro hspares
  refine Bool.false_ne_true (hfree.symm.trans ?_)
  rcases (sparesMove_dir_file hdst).mp hspares with htrue | hresolve
  · exact htrue
  · by_cases heq : fs.resolve (dst ++ basename src) = src
    · exact Nodes.exists?_iff.mpr ⟨by rw [heq]; exact hsome, by rw [heq]; exact hlink⟩
    · have hdir := hfs.dir_above hresolve heq hsome
      exact Nodes.exists?_iff.mpr ⟨Nodes.ne_none hdir, Nodes.islink_of_dir hdir⟩

end

/-! ### Moving to existing data -/

section

variable [DecidableEq N] {fs : Nodes N C} {src dst realDst : List N} {node : Node N C}

/-- When the source has been moved, a link takes its place. -/
theorem prepareMove_of_moved (hfs : WellFormed fs) (hne : src ≠ []) (hsrc : fs src ≠ none)
    (hreal : ¬ realDst <+: src) (hmove : shutilMove src dst fs = .ok () (fs.moved src realDst)) :
    prepareMove dst src false fs = .ok () ((fs.moved src realDst).put src (.link dst)) := by
  have hdir : (fs.moved src realDst) src.dropLast = some .dir := by
    rw [Nodes.moved_of_not_below (Nodes.not_prefix_dropLast hne) fun hpre =>
      hreal (hpre.trans (List.dropLast_prefix src))]
    exact hfs.dir_dropLast hne hsrc
  refine (seq_of_ok hmove).trans (symlink_of_none ?_ hdir)
  exact Nodes.moved_of_below List.prefix_rfl hreal

theorem prepareMove_of_error {e : PyError} (hmove : shutilMove src dst fs = .error e fs) :
    prepareMove dst src false fs = .error e fs := seq_of_error hmove

/-- A source that is its own destination stays where it is. -/
theorem prepareMove_self (hsrc : fs src ≠ none) (hlink : fs.islink src = false) :
    prepareMove src src false fs = .error .fileExistsError fs := by
  have hmove : shutilMove src src fs = .ok () fs := by
    cases hdir : fs.isdir src with
    | true =>
      rw [shutilMove, if_pos hdir, if_pos ⟨rfl, hlink⟩]
      exact osRename_self hsrc
    | false => rw [shutilMove_of_not_dir hdir, osRename_self hsrc]
  exact (seq_of_ok hmove).trans (symlink_of_some hsrc)

/-- Moving onto a file: a folder stays where it is, and a file takes its place. -/
theorem prepareMove_of_file (hfs : WellFormed fs) (hne : src ≠ []) (hsrc : fs src = some node)
    (hlink : fs.islink src = false) {content : C} (hdst : fs dst = some (.file content)) :
    ((∃ e, prepareMove dst src false fs = .error e fs) ∧ SparesMove fs src dst node) ∨
      (∃ data, node = .file data) ∧ ¬ dst <+: src ∧ ¬ src <+: dst ∧
        prepareMove dst src false fs = .ok () ((fs.moved src dst).put src (.link dst)) := by
  have hsome : fs src ≠ none := Nodes.ne_none hsrc
  have hdstSome : fs dst ≠ none := Nodes.ne_none hdst
  have hnotDir : fs dst ≠ some .dir := by rw [hdst]; exact fun heq => nomatch heq
  have hisdir : fs.isdir dst = false :=
    Nodes.isdir_of_not_dir (Nodes.islink_of_file hdst) hnotDir
  cases node with
  | link target => cases (Nodes.islink_of_link hsrc).symm.trans hlink
  | dir =>
    left
    have hsrcdst : src ≠ dst := fun heq => hnotDir (heq ▸ hsrc)
    have hcases : src <+: dst ∧ dst <+: dst ∨ ¬ src <+: dst ∧ fs dst ≠ none := by
      by_cases hpre : src <+: dst
      · exact Or.inl ⟨hpre, List.prefix_rfl⟩
      · exact Or.inr ⟨hpre, hdstSome⟩
    obtain ⟨⟨e, hrename⟩, e', hcopy⟩ := move_dir_error hsrc hsrcdst hcases
    refine ⟨⟨e', prepareMove_of_error ?_⟩, sparesMove_file_dir hdst⟩
    rw [shutilMove_of_not_dir hisdir, hrename]
    exact hcopy
  | file data =>
    by_cases hsrcdst : src = dst
    · subst hsrcdst
      exact Or.inl ⟨⟨_, prepareMove_self hsome hlink⟩, (sparesMove_file_file hsrc).mpr rfl⟩
    · have hdstsrc : ¬ dst <+: src := fun hpre =>
        hnotDir (hfs.dir_above hpre (Ne.symm hsrcdst) hsome)
      have hsrcbelow : ¬ src <+: dst := fun hpre => by
        have hdir := hfs.dir_above hpre hsrcdst hdstSome
        rw [hsrc] at hdir
        cases hdir
      have hdstne : dst ≠ [] := fun heq => hnotDir (heq ▸ hfs.root)
      have hrename := osRename_of_file hsrc hnotDir hsrcbelow (hfs.dir_dropLast hdstne hdstSome)
      refine Or.inr ⟨⟨data, rfl⟩, hdstsrc, hsrcbelow,
        prepareMove_of_moved hfs hne hsome hdstsrc ?_⟩
      rw [shutilMove_of_not_dir hisdir, hrename]

/-- Moving onto a folder: a name that is taken keeps the source where it is, and so does a
folder that would get into itself; otherwise, the source gets into the folder. -/
theorem prepareMove_of_dir (hfs : WellFormed fs) (hne : src ≠ []) (hsrc : fs src = some node)
    (hlink : fs.islink src = false) (hdst : fs dst = some .dir) :
    ((∃ e, prepareMove dst src false fs = .error e fs) ∧ SparesMove fs src dst node) ∨
      ¬ SparesMove fs src dst node ∧ fs.exists? (dst ++ basename src) = false ∧
        ¬ dst ++ basename src <+: src ∧ ¬ src <+: dst ++ basename src ∧
        prepareMove dst src false fs =
          .ok () ((fs.moved src (dst ++ basename src)).put src (.link dst)) := by
  have hsome := Nodes.ne_none hsrc
  -- `shutil.move` into a directory keeps the name, unless the name is taken there
  by_cases hsrcdst : src = dst
  · subst hsrcdst
    cases hsrc.symm.trans hdst
    exact Or.inl ⟨⟨_, prepareMove_self hsome hlink⟩,
      (sparesMove_dir_dir hdst).mpr (Or.inl List.prefix_rfl)⟩
  · have hmove := shutilMove_of_dir hlink hdst hsrcdst
    cases hexists : fs.exists? (dst ++ basename src) with
    | true =>
      rw [if_pos hexists] at hmove
      exact Or.inl ⟨⟨_, prepareMove_of_error hmove⟩, sparesMove_of_exists hsrc hlink hdst hexists⟩
    | false =>
      rw [if_neg (by rw [hexists]; exact Bool.false_ne_true)] at hmove
      have hnot := not_above_of_free hsome hlink hexists hfs
      have hpre := prefix_of_free hsome hlink hexists hne
      have hparent : fs (dst ++ basename src).dropLast = some .dir := by
        rw [basename, List.getLast?_eq_getLast_of_ne_nil hne]
        exact (congrArg fs (List.dropLast_concat ..)).trans hdst
      cases node with
      | link target => cases (Nodes.islink_of_link hsrc).symm.trans hlink
      | dir =>
        have hsrcreal := Ne.symm (ne_of_free hexists hsome hlink)
        -- a directory cannot be moved into itself
        by_cases hsrcbelow : src <+: dst
        · obtain ⟨⟨e, hrename⟩, e', hcopy⟩ := move_dir_error hsrc hsrcreal
            (Or.inl ⟨hsrcbelow, List.prefix_append dst (basename src)⟩)
          rw [hrename] at hmove
          exact Or.inl ⟨⟨e', prepareMove_of_error (hmove.trans hcopy)⟩,
            (sparesMove_dir_dir hdst).mpr (Or.inl hsrcbelow)⟩
        · by_cases hreal : fs (dst ++ basename src) = none
          · rw [osRename_of_none hsrc hreal (mt hpre hsrcbelow) hparent] at hmove
            refine Or.inr ⟨fun hspares => ?_, rfl, hnot, mt hpre hsrcbelow,
              prepareMove_of_moved hfs hne hsome hnot hmove⟩
            exact ((sparesMove_dir_dir hdst).mp hspares).elim hsrcbelow fun hne => hne hreal
          · -- the name is that of a dangling link
            obtain ⟨⟨e, hrename⟩, e', hcopy⟩ := move_dir_error hsrc hsrcreal
              (Or.inr ⟨hsrcbelow, hreal⟩)
            rw [hrename] at hmove
            exact Or.inl ⟨⟨e', prepareMove_of_error (hmove.trans hcopy)⟩,
              (sparesMove_dir_dir hdst).mpr (Or.inr hreal)⟩
      | file data =>
        have hsrcbelow : ¬ src <+: dst := fun h => by
          cases hsrc.symm.trans (hfs.dir_above h hsrcdst (Nodes.ne_none hdst))
        rw [osRename_of_file hsrc (not_dir_of_free hexists) (mt hpre hsrcbelow) hparent] at hmove
        exact Or.inr ⟨not_sparesMove_of_free hsome hlink hexists hfs hdst, rfl, hnot,
          mt hpre hsrcbelow, prepareMove_of_moved hfs hne hsome hnot hmove⟩

end

/-! ### What becomes of the data -/

section

variable {fs fs₁ : Nodes N C} {src dst : List N} {node : Node N C}

/-- The source has been replaced, or left as it was. -/
structure Replaced (fs fs₁ : Nodes N C) (src : List N) (node : Node N C) : Prop where
  source : fs₁ src = some node
  elsewhere : ∀ p, ¬ src <+: p → ¬ p <+: src → fs₁ p = fs p
  above : ∀ p, p <+: src → p ≠ src → fs p ≠ none → fs₁ p = fs p
  under : ∀ p, src <+: p → p ≠ src → fs₁ p = none ∨ fs₁ p = fs p
  /-- A folder stays one. -/
  dir : fs src = some .dir → node = .dir
  links : ∀ data, node = .file data → ∀ p target, fs p = some (.link target) ↔
    fs₁ p = some (.link target)

theorem Replaced.refl (hsrc : fs src = some node) : Replaced fs fs src node :=
  ⟨hsrc, fun _ _ _ => rfl, fun _ _ _ _ => rfl, fun _ _ _ => Or.inr rfl,
    fun hdir => Option.some.inj (hsrc.symm.trans hdir), fun _ _ _ _ => Iff.rfl⟩

/-- Whatever is not the source or below it is still there. -/
theorem Replaced.of_not_below (h : Replaced fs fs₁ src node) {p : List N} (hp : ¬ src <+: p)
    (hsome : fs p ≠ none) : fs₁ p = fs p := by
  by_cases habove : p <+: src
  · exact h.above p habove (fun heq => hp (heq ▸ List.prefix_rfl)) hsome
  · exact h.elsewhere p hp habove

/-- No link has got to the destination. -/
theorem Replaced.islink_eq_false (h : Replaced fs fs₁ src node) (hlink : fs₁.islink src = false)
    (hdst : fs dst ≠ none) (hdlink : fs.islink dst = false) : fs₁.islink dst = false := by
  by_cases hpre : src <+: dst
  · by_cases heq : dst = src
    · rw [heq]
      exact hlink
    · rcases h.under dst hpre heq with hnone | hsame
      · exact Nodes.islink_of_none hnone
      · rw [Nodes.islink, hsame]
        exact hdlink
  · rw [Nodes.islink, h.of_not_below hpre hdst]
    exact hdlink

/-- Data apart from the source is left alone. -/
theorem Replaced.below_of_apart (h : Replaced fs fs₁ src node) (hapart : Apart src dst) :
    fs₁.below dst = fs.below dst := by
  funext rest
  refine h.elsewhere (dst ++ rest) (fun hpre => ?_) fun hpre => ?_
  · rcases List.prefix_or_prefix_of_prefix hpre (List.prefix_append dst rest) with hsrc | hdst
    · exact hapart.1 hsrc
    · exact hapart.2 hdst
  · exact hapart.2 ((List.prefix_append dst rest).trans hpre)

end

section

variable [DecidableEq N] {fs fs₁ : Nodes N C} {src dst : List N} {node : Node N C}

/-- What a path leads to is there when it was, or when it is the source or above it. -/
theorem Replaced.exists?_iff (h : Replaced fs fs₁ src node) (hfs : WellFormed fs) {data : C}
    (hnode : node = .file data) (path : List N) :
    (fs₁.exists? path = true ∨ fs₁.resolve path <+: src) ↔
      (fs.exists? path = true ∨ fs.resolve path <+: src) := by
  rw [Nodes.exists?_iff, Nodes.exists?_iff, ← Nodes.resolve_congr (h.links data hnode)]
  by_cases hpre : fs.resolve path <+: src
  · exact iff_of_true (Or.inr hpre) (Or.inr hpre)
  · have hsame : fs₁ (fs.resolve path) = fs (fs.resolve path) := by
      by_cases hsrc : src <+: fs.resolve path
      · -- there is nothing below a file
        have hne : src ≠ fs.resolve path := fun heq => hpre (heq ▸ List.prefix_rfl)
        have hnone : fs (fs.resolve path) = none := hfs.none_below hsrc hne fun hdir => by
          cases hnode.symm.trans (h.dir hdir)
        exact (h.under _ hsrc (Ne.symm hne)).elim (fun hnone₁ => hnone₁.trans hnone.symm) id
      · exact h.elsewhere _ hsrc hpre
    rw [Nodes.islink, Nodes.islink, hsame]

/-- Replacing the source does not matter to the move, when it leaves the destination alone. -/
theorem Replaced.sparesMove_iff (h : Replaced fs fs₁ src node) (hfs : WellFormed fs)
    (hlink : fs₁.islink src = false) (hbelow : fs₁.below dst = fs.below dst) :
    SparesMove fs₁ src dst node ↔ SparesMove fs src dst node := by
  have hdst : fs₁ dst = fs dst := by
    have hroot := congrFun hbelow []
    rwa [Nodes.below, Nodes.below, List.append_nil] at hroot
  have hreal : fs₁ (dst ++ basename src) = fs (dst ++ basename src) :=
    congrFun hbelow (basename src)
  cases node with
  | link target => cases (Nodes.islink_of_link h.source).symm.trans hlink
  | dir =>
    cases hnode : fs dst with
    | none => simp only [SparesMove, hdst, hnode, hreal]
    | some dstNode => cases dstNode <;> simp only [SparesMove, hdst, hnode, hreal]
  | file data =>
    have hexists := h.exists?_iff hfs rfl (dst ++ basename src)
    cases hnode : fs dst with
    | none => simpa only [SparesMove, hdst, hnode] using hexists
    | some dstNode =>
      cases dstNode with
      | file content => simp only [SparesMove, hdst, hnode]
      | dir | link _ => simpa only [SparesMove, hdst, hnode] using hexists

/-- A destination in a folder that has been replaced is gone, and the move raises. -/
theorem Replaced.prepareMove_of_none (h : Replaced fs fs₁ src node) (hfs : WellFormed fs)
    (hdst : fs dst ≠ none) (hdst₁ : fs₁ dst = none) :
    ∃ e, prepareMove dst src false fs₁ = .error e fs₁ := by
  have hpre : src <+: dst := by
    by_contra hpre
    exact hdst ((h.of_not_below hpre hdst).symm.trans hdst₁)
  have hne : src ≠ dst := by
    rintro rfl
    rw [h.source] at hdst₁
    cases hdst₁
  have hdir := h.source
  rw [h.dir (hfs.dir_above hpre hne hdst)] at hdir
  obtain ⟨⟨e, hrename⟩, e', hcopy⟩ := move_dir_error hdir hne (Or.inl ⟨hpre, List.prefix_rfl⟩)
  have hlink : fs₁.islink dst = false := Nodes.islink_of_none hdst₁
  have hisdir : fs₁.isdir dst = false :=
    Nodes.isdir_of_not_dir hlink (by rw [hdst₁]; exact fun heq => by cases heq)
  refine ⟨e', prepareMove_of_error ?_⟩
  rw [shutilMove_of_not_dir hisdir, hrename]
  exact hcopy

/-- A file that has got onto the data. -/
theorem Replaced.below_moved_iff {data content : C} (h : Replaced fs fs₁ src (.file data))
    (hfs : WellFormed fs) (hfs₁ : WellFormed fs₁) (hdst : fs dst = some (.file content))
    (hdstsrc : ¬ dst <+: src) :
    ((fs₁.moved src dst).put src (.link dst)).below dst = fs.below dst ↔ data = content := by
  have hleft : ∀ rest, (fs₁.moved src dst).put src (.link dst) (dst ++ rest) =
      fs₁ (src ++ rest) := by
    intro rest
    have hne : dst ++ rest ≠ src := by
      rintro rfl
      exact hdstsrc (List.prefix_append dst rest)
    exact (Nodes.put_of_ne hne _).trans (Nodes.moved_append rest)
  constructor
  · intro hbelow
    have hroot := congrFun hbelow []
    rw [Nodes.below, Nodes.below, hleft, List.append_nil, List.append_nil, h.source, hdst] at hroot
    cases hroot
    rfl
  · rintro rfl
    funext rest
    rw [Nodes.below, Nodes.below, hleft]
    by_cases hrest : rest = []
    · rw [hrest, List.append_nil, List.append_nil, h.source, hdst]
    · -- there is nothing below a file
      have hself : ∀ p : List N, p ≠ p ++ rest := fun p => by simpa using Ne.symm hrest
      rw [hfs₁.none_below (List.prefix_append src rest) (hself src)
          (by rw [h.source]; exact fun heq => by cases heq),
        hfs.none_below (List.prefix_append dst rest) (hself dst)
          (by rw [hdst]; exact fun heq => by cases heq)]

/-- What has got into a folder of the data was not there. -/
theorem Replaced.below_moved_ne (h : Replaced fs fs₁ src node) (hlink : fs₁.islink src = false)
    (hexists : fs₁.exists? (dst ++ basename src) = false)
    (hrealsrc : ¬ dst ++ basename src <+: src) (hsrcreal : ¬ src <+: dst ++ basename src) :
    ((fs₁.moved src (dst ++ basename src)).put src (.link dst)).below dst ≠ fs.below dst := by
  intro hbelow
  have hreal := congrFun hbelow (basename src)
  have hne : dst ++ basename src ≠ src := fun heq => hrealsrc (by rw [heq])
  have hmoved : fs (dst ++ basename src) = some node := by
    rw [Nodes.below, Nodes.below] at hreal
    rw [← hreal, ← h.source]
    exact (Nodes.put_of_ne hne _).trans Nodes.moved_self
  rw [← h.elsewhere _ hsrcreal hrealsrc] at hmoved
  have hlinkreal : fs₁.islink (dst ++ basename src) = false := by
    rw [Nodes.islink, hmoved, ← h.source]
    exact hlink
  rw [Nodes.exists?_of_not_link hlinkreal, hmoved] at hexists
  cases hexists

/-- **Moving, once the source has been replaced.**  The data survives when replacing the source
and moving it both leave it alone. -/
theorem Replaced.prepareMove_iff (h : Replaced fs fs₁ src node) (hfs : WellFormed fs)
    (hfs₁ : WellFormed fs₁) (hne : src ≠ []) (hlink : fs₁.islink src = false)
    (hdst : fs dst ≠ none) (hdlink : fs.islink dst = false) :
    (leaves (prepareMove dst src false fs₁)).below dst = fs.below dst ↔
      fs₁.below dst = fs.below dst ∧ SparesMove fs src dst node := by
  -- when the move raises, it has done nothing
  have hraised : ∀ e, prepareMove dst src false fs₁ = .error e fs₁ →
      (fs₁.below dst = fs.below dst → SparesMove fs₁ src dst node) →
      ((leaves (prepareMove dst src false fs₁)).below dst = fs.below dst ↔
        fs₁.below dst = fs.below dst ∧ SparesMove fs src dst node) := by
    intro e he hspares
    rw [he]
    refine ⟨fun hbelow => ⟨hbelow, (h.sparesMove_iff hfs hlink hbelow).mp (hspares hbelow)⟩,
      And.left⟩
  cases hnode : fs₁ dst with
  | none =>
    obtain ⟨e, he⟩ := h.prepareMove_of_none hfs hdst hnode
    refine hraised e he fun hbelow => absurd ?_ hdst
    have hroot := congrFun hbelow []
    rw [Nodes.below, Nodes.below, List.append_nil, hnode] at hroot
    exact hroot.symm
  | some dstNode =>
    cases dstNode with
    | link target =>
      cases (Nodes.islink_of_link hnode).symm.trans (h.islink_eq_false hlink hdst hdlink)
    | file content =>
      rcases prepareMove_of_file hfs₁ hne h.source hlink hnode with ⟨⟨e, he⟩, hspares⟩ |
          ⟨⟨data, rfl⟩, hdstsrc, hsrcdst, hok⟩
      · exact hraised e he fun _ => hspares
      · have hcontent : fs dst = some (.file content) :=
          (h.of_not_below hsrcdst hdst).symm.trans hnode
        rw [hok, sparesMove_file_file hcontent,
          and_iff_right (h.below_of_apart ⟨hsrcdst, hdstsrc⟩)]
        exact h.below_moved_iff hfs hfs₁ hcontent hdstsrc
    | dir =>
      rcases prepareMove_of_dir hfs₁ hne h.source hlink hnode with ⟨⟨e, he⟩, hspares⟩ |
          ⟨hspares, hexists, hrealsrc, hsrcreal, hok⟩
      · exact hraised e he fun _ => hspares
      · rw [hok]
        exact iff_of_false (h.below_moved_ne hlink hexists hrealsrc hsrcreal) fun hboth =>
          hspares ((h.sparesMove_iff hfs hlink hboth.1).mpr hboth.2)

/-! ### Replacing the source -/

/-- With another node at a path, and the directories above it. -/
def replaced (fs : Nodes N C) (path : List N) (node : Node N C) : Nodes N C :=
  ((fs.removed path).created path.dropLast).put path node

variable {path : List N}

theorem wellFormed_replaced (hfs : WellFormed fs) (hne : path ≠ [])
    (hcreatable : Creatable fs path.dropLast = true) (node : Node N C) :
    WellFormed (replaced fs path node) := by
  refine (wellFormed_created hfs hne hcreatable).put hne ?_ fun _ name => ?_
  · rw [Nodes.created_of_above List.prefix_rfl, removed_above hne List.prefix_rfl]
    rcases creatable_iff.mp hcreatable _ List.prefix_rfl with hnone | hdir
    · rw [hnone]
      rfl
    · rw [hdir]
      rfl
  · rw [Nodes.created_of_not_above fun h => Nodes.not_prefix_dropLast hne
      ((List.prefix_append path [name]).trans h)]
    exact Nodes.removed_append [name]

/-- There is nothing below what has been replaced. -/
theorem replaced_under (hne : path ≠ []) (node : Node N C) {p : List N} (hpre : path <+: p)
    (hp : p ≠ path) : replaced fs path node p = none := by
  rw [replaced, Nodes.put_of_ne hp, Nodes.created_of_not_above fun h =>
    Nodes.not_prefix_dropLast hne (hpre.trans h)]
  exact if_pos hpre

/-- Nothing but the source and its directories is replaced. -/
theorem replaced_spec (hfs : WellFormed fs) (hne : path ≠ [])
    (hcreatable : Creatable fs path.dropLast = true) (hlink : fs.islink path = false)
    {node : Node N C} (hdir : fs path = some .dir ↔ node = .dir)
    (hnode : ∀ target, node ≠ .link target) :
    Replaced fs (replaced fs path node) path node := by
  -- the node is put last, so other paths are as after the removal and the creation
  have hother : ∀ p, p ≠ path → replaced fs path node p =
      (fs.removed path).created path.dropLast p := fun p hp => Nodes.put_of_ne hp node
  have hsome : ∀ p, ¬ path <+: p → fs p ≠ none → replaced fs path node p = fs p := by
    intro p hpre hp
    obtain ⟨old, hold⟩ := Option.ne_none_iff_exists'.mp hp
    rw [hother p fun heq => hpre (heq ▸ List.prefix_rfl), hold]
    exact Nodes.created_of_some (by rw [Nodes.removed_of_not_below hpre, hold])
  constructor
  · exact Nodes.put_self node
  · intro p hsrc hp
    rw [hother p fun heq => hsrc (heq ▸ List.prefix_rfl),
      Nodes.created_of_not_above fun h => hp (h.trans (List.dropLast_prefix path)),
      Nodes.removed_of_not_below hsrc]
  · intro p hpre hp hnone
    exact hsome p (fun h => hp (hpre.eq_of_length_le h.length_le)) hnone
  · exact fun p hpre hp => Or.inl (replaced_under hne node hpre hp)
  · exact hdir.mp
  · rintro data rfl p target
    by_cases hpre : path <+: p
    · by_cases hp : p = path
      · subst hp
        rw [replaced, Nodes.put_self]
        refine iff_of_false (fun hnode => ?_) fun hnode => by cases hnode
        rw [Nodes.islink, hnode] at hlink
        cases hlink
      · -- there is nothing below a file
        have hnone : fs p = none := hfs.none_below hpre (Ne.symm hp) fun h => by
          cases hdir.mp h
        rw [replaced_under hne _ hpre hp, hnone]
    · cases hold : fs p with
      | some old => rw [hsome p hpre (Nodes.ne_none hold), hold]
      | none =>
        refine iff_of_false (fun hnode => by cases hnode) fun hnode => ?_
        rw [hother p fun heq => hpre (heq ▸ List.prefix_rfl)] at hnode
        by_cases habove : p <+: path.dropLast
        · rw [Nodes.created_of_above habove, Nodes.removed_of_not_below hpre, hold] at hnode
          cases hnode
        · rw [Nodes.created_of_not_above habove, Nodes.removed_of_not_below hpre, hold] at hnode
          cases hnode

end

end Guest
end Lapas
