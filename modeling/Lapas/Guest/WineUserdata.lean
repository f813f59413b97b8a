import Lapas.Library.Coreutils

/-!
# Linking user data from the shell

The helpers for the hooks of `lapasWineManager`.  They put what a game keeps in its installation
folder into the folder with the user's data, and leave a link behind.

## Main definitions

* `Helper`, `Helper.run` — the helpers.
* `Helper.Linked` — the source is a link to data that is as it should be.
* `Helper.Suits` — what this takes.

## Main results

* `linked_iff` — **when a helper that finishes has done this.**
-/

namespace Lapas
namespace Guest

open Python Coreutils

variable {N C : Type}

/-! ### The helpers -/

section

variable [DecidableEq N] [∀ (fs : Nodes N C) (path : List N), Decidable (fs.Bare path)]

/-- `helperUserdataMoveLink`, where `none` stands for `exit 1`: a player's file or folder is moved
into the user data, with a link in its place. -/
def helperUserdataMoveLink (user : String) (inputFileOrFolder userDataPath : List N) :
    Command N C := fun fs =>
  let targetPath := userDataPath ++ basename inputFileOrFolder
  if user ≠ "lapas" then
    if fs.islink inputFileOrFolder then some fs
    else if fs.isfile inputFileOrFolder || fs.isdir inputFileOrFolder then do
      let fs := ignored (mkdirP userDataPath) fs
      let fs ← mv inputFileOrFolder targetPath fs
      lnRS targetPath inputFileOrFolder fs
    else none
  else some fs

/-- `helperUserdataAlwaysLinkInitByMove`: the first time the file or folder is moved; every time
what is left is removed and a link is made. -/
def helperUserdataAlwaysLinkInitByMove (inputFileOrFolder userDataPath : List N) :
    Command N C := fun fs => do
  let targetPath := userDataPath ++ basename inputFileOrFolder
  let fs ←
    if !fs.isfile targetPath && !fs.isdir targetPath then mv inputFileOrFolder targetPath fs
    else some fs
  let fs := ignored (rm inputFileOrFolder) fs
  lnS targetPath inputFileOrFolder fs

/-- `helperUserdataNewEmptyLink`: a player starts with an empty file or folder in the user data, and
a link replaces what the base has. -/
def helperUserdataNewEmptyLink (emptyContent : C) (user : String)
    (inputFileOrFolder userDataPath : List N) : Command N C := fun fs =>
  let targetPath := userDataPath ++ basename inputFileOrFolder
  if user ≠ "lapas" then
    if fs.islink inputFileOrFolder then some fs
    else do
      let fs := ignored (mkdirP userDataPath) fs
      let fs ←
        if fs.isfile inputFileOrFolder then do
          let fs ← touch emptyContent targetPath fs
          rm inputFileOrFolder fs
        else if fs.isdir inputFileOrFolder then
          rmR inputFileOrFolder (ignored (mkdirP targetPath) fs)
        else none
      lnRS targetPath inputFileOrFolder fs
  else some fs

end

/-- The three helpers of a hook of the wine manager, by their names without the common beginning. -/
inductive Helper
  | moveLink
  | alwaysLinkInitByMove
  | newEmptyLink
  deriving DecidableEq, Repr

section

variable [DecidableEq N] [∀ (fs : Nodes N C) (path : List N), Decidable (fs.Bare path)]

/-- The helper is called with a path in the prefix and one in the directory of user data. -/
def Helper.run (emptyContent : C) (user : String) (inputFileOrFolder userDataPath : List N) :
    Helper → Command N C
  | .moveLink => helperUserdataMoveLink user inputFileOrFolder userDataPath
  | .alwaysLinkInitByMove => helperUserdataAlwaysLinkInitByMove inputFileOrFolder userDataPath
  | .newEmptyLink =>
    helperUserdataNewEmptyLink emptyContent user inputFileOrFolder userDataPath

end

/-! ### Linked data -/

section

variable (emptyContent : C) (fs : Nodes N C) (src target : List N)

/-- An empty item of the kind of the source. -/
def emptyItem : Nodes N C
  | [] =>
    match fs src with
    | some (.file _) => some (.file emptyContent)
    | node => node
  | _ :: _ => none

/-- What the target should hold: what it has held before, or else what it is to begin with. -/
def Helper.wanted (helper : Helper) : Nodes N C :=
  if fs.exists? target then fs.held target
  else
    match helper with
    | .moveLink | .alwaysLinkInitByMove => fs.below src
    | .newEmptyLink => emptyItem emptyContent fs src

/-- The source is a link that leads to the same place as the target, and that holds what it
should. -/
structure Helper.Linked (helper : Helper) (fs' : Nodes N C) : Prop where
  link : ∃ text, fs' src = some (.link text) ∧ fs'.resolve text = fs'.resolve target
  held : fs'.held target = helper.wanted emptyContent fs src target

variable [DecidableEq N]

/-- The target is there also without the source, and is not above it. -/
def Detached : Prop :=
  (fs.removed src).exists? target = true ∧ ¬ fs.resolve target <+: src

/-- What it takes for a helper that finishes to have linked the data.  A target that is there is
not to be moved onto, unless with the very same content; a folder is not to be replaced without
removing what is in it; and a folder for new data is to be created, and not in the source. -/
def Helper.Suits : Helper → Prop
  | .moveLink => fs.exists? target = true → Takes fs src (landing fs src target) →
      if fs.isdir target then
        fs.below (landing fs src target) = fs.below src ∧ ¬ fs.resolve target <+: src
      else fs.held target = fs.below src
  | .alwaysLinkInitByMove => fs.exists? target = true →
      if fs.isdir src then fs (src ++ basename target) ≠ none else Detached fs src target
  | .newEmptyLink =>
      if fs.exists? target then Detached fs src target
      else fs.isdir src = true →
        fs target = none ∧ ¬ src <+: target ∧ Creatable fs target.dropLast = true

end

section

variable {emptyContent : C} {fs fs₁ fs₂ : Nodes N C} {src target text : List N} {helper : Helper}

theorem Helper.wanted_of_exists (h : fs.exists? target = true) :
    helper.wanted emptyContent fs src target = fs.held target := if_pos h

/-- The target should hold a file or a folder. -/
theorem Helper.wanted_nil (hsrc : fs src ≠ none) (hlink : fs.islink src = false) :
    helper.wanted emptyContent fs src target [] ≠ none ∧
      (helper.wanted emptyContent fs src target).islink [] = false := by
  have hbelow : ∀ path, fs.below path [] = fs path := fun path => by
    rw [Nodes.below, List.append_nil]
  by_cases hexists : fs.exists? target = true
  · rw [Helper.wanted_of_exists hexists, Nodes.islink, Nodes.held, hbelow]
    exact Nodes.exists?_iff.mp hexists
  · unfold Helper.wanted
    rw [if_neg hexists, Nodes.islink]
    cases helper with
    | moveLink | alwaysLinkInitByMove =>
      simp only [hbelow]
      exact ⟨hsrc, hlink⟩
    | newEmptyLink =>
      rw [Nodes.islink] at hlink
      simp only [emptyItem]
      cases hnode : fs src with
      | none => exact absurd hnode hsrc
      | some node =>
        cases node with
        | file _ | dir => simp
        | link _ => rw [hnode] at hlink; cases hlink

variable [DecidableEq N]

/-- When the source is free, a link has done it if the target is there and holds what it
should. -/
theorem linked_put_iff (hsrc : fs src ≠ none) (hlink : fs.islink src = false)
    (hfree : fs₂ src = none) (htext : text = target ∨ text = fs₂.resolve target) :
    helper.Linked emptyContent fs src target (fs₂.put src (.link text)) ↔
      fs₂.exists? target = true ∧ (fs₂.put src (.link text)).below (fs₂.resolve target) =
        helper.wanted emptyContent fs src target := by
  constructor
  · rintro ⟨-, hheld⟩
    have hroot := congrFun hheld []
    rw [Nodes.held, Nodes.below, List.append_nil] at hroot
    have hexists' : (fs₂.put src (.link text)).exists? target = true := by
      have hwanted := @Helper.wanted_nil _ _ emptyContent fs src target helper hsrc hlink
      rw [Nodes.exists?_iff, Nodes.islink, hroot]
      exact hwanted
    have hexists := (exists?_put_link hfree htext).symm.trans hexists'
    refine ⟨hexists, ?_⟩
    rw [Nodes.held, (resolve_put_link hfree htext hexists).1] at hheld
    exact hheld
  · rintro ⟨hexists, hbelow⟩
    obtain ⟨hresolve, hresolve'⟩ := resolve_put_link hfree htext hexists
    refine ⟨⟨text, Nodes.put_self _, hresolve'.trans hresolve.symm⟩, ?_⟩
    rw [Nodes.held, hresolve]
    exact hbelow

/-- A target that was there, when the source has been removed. -/
theorem linked_removed_iff (hsrc : fs src ≠ none) (hlink : fs.islink src = false)
    (htext : text = target ∨ text = (fs.removed src).resolve target)
    (hexists : fs.exists? target = true) :
    helper.Linked emptyContent fs src target ((fs.removed src).put src (.link text)) ↔
      Detached fs src target := by
  rw [linked_put_iff hsrc hlink Nodes.removed_self htext, Detached,
    Helper.wanted_of_exists hexists]
  refine and_congr_right fun hremoved => ?_
  obtain ⟨hresolve, hnot⟩ := resolve_removed hremoved
  rw [hresolve, Nodes.held]
  refine ⟨not_prefix_of_below_put hlink, fun hpre => ?_⟩
  rw [below_put hpre]
  funext rest
  refine Nodes.removed_of_not_below fun hbelow => ?_
  rcases List.prefix_or_prefix_of_prefix hbelow (List.prefix_append _ rest) with h | h
  · exact hnot h
  · exact hpre h

/-! ### Moving to the target -/

/-- What has been moved is held by its target. -/
theorem held_of_moved (text : List N) (hfs : WellFormed fs) (hlink : fs.islink src = false)
    (htakes : Takes fs src target) :
    (fs.moved src target).exists? target = true ∧
      ((fs.moved src target).put src (.link text)).below ((fs.moved src target).resolve target) =
        fs.below src := by
  have hsrc : fs src ≠ none := fun hnone => by
    have hkind := htakes.2.2
    rw [hnone] at hkind
    exact hkind
  have htarget : (fs.moved src target).islink target = false := by
    rw [Nodes.islink, Nodes.moved_self, ← Nodes.islink, hlink]
  rw [Nodes.resolve_of_not_link htarget, below_put (htakes.not_prefix hfs)]
  refine ⟨exists?_of_some (by rw [Nodes.moved_self]; exact hsrc) htarget, ?_⟩
  funext rest
  exact Nodes.moved_append rest

/-- Where the source has been moved into a folder, it is seen there. -/
theorem below_of_moved_into {dir real : List N} (hreal : real = dir ++ basename src)
    (hbelow : (fs.moved src real).below dir = fs.below dir) : fs.below real = fs.below src := by
  funext rest
  have hrest : fs.moved src real (dir ++ (basename src ++ rest)) =
      fs (dir ++ (basename src ++ rest)) := congrFun hbelow (basename src ++ rest)
  rw [← List.append_assoc, ← hreal, Nodes.moved_append] at hrest
  exact hrest.symm

/-- Moving something onto its own like changes nothing but the place of the source. -/
theorem moved_of_below {real p : List N} (hbelow : fs.below real = fs.below src)
    (hp : ¬ src <+: p) : fs.moved src real p = fs p := by
  by_cases hreal : real <+: p
  · obtain ⟨rest, rfl⟩ := hreal
    rw [Nodes.moved_append]
    exact (congrFun hbelow rest).symm
  · exact Nodes.moved_of_not_below hp hreal

/-- Neither has there been a link in the source, nor is there one. -/
theorem not_link_of_moved (hfs : WellFormed fs) (hlink : fs.islink src = false) {real : List N}
    (htakes : Takes fs src real) (hbelow : fs.below real = fs.below src) {p next : List N}
    (hp : src <+: p) :
    fs.moved src real p ≠ some (.link next) ∧ fs p ≠ some (.link next) := by
  have hreal : ¬ real <+: p := fun h => by
    rcases List.prefix_or_prefix_of_prefix hp h with hsrc | hreal
    · exact htakes.1 hsrc
    · exact htakes.not_prefix hfs hreal
  have hnone : fs.moved src real p = none := Nodes.moved_of_below hp hreal
  refine ⟨by simp [hnone], fun hnext => ?_⟩
  obtain ⟨rest, rfl⟩ := hp
  by_cases hrest : rest = []
  · rw [hrest, List.append_nil] at hnext
    rw [Nodes.islink, hnext] at hlink
    cases hlink
  · have hsame : fs (real ++ rest) = fs (src ++ rest) := congrFun hbelow rest
    rw [hnext, htakes.none_below hfs (List.prefix_append real rest) fun heq =>
      hrest (List.append_right_eq_self.mp heq.symm)] at hsame
    cases hsame

/-- A target that leads to a folder, when the source has been moved into it. -/
theorem linked_moved_dir_iff (hfs : WellFormed fs) (hne : src ≠ []) (hlink : fs.islink src = false)
    {dir real : List N} (hresolve : fs.resolve target = dir) (hreal : real = dir ++ basename src)
    (hdir : fs.isdir target = true) (htakes : Takes fs src real)
    (htext : text = (fs.moved src real).resolve target) :
    helper.Linked emptyContent fs src target ((fs.moved src real).put src (.link text)) ↔
      fs.below real = fs.below src ∧ ¬ dir <+: src := by
  have hnode : fs dir = some .dir := hresolve ▸ isdir_iff.mp hdir
  have hpre : dir <+: real := hreal ▸ List.prefix_append dir _
  have hnotReal : ¬ real <+: dir := fun h => by
    have hlength := h.length_le
    rw [hreal, basename_of_ne_nil hne, List.length_append, List.length_singleton] at hlength
    omega
  have hdir₂ : fs.moved src real dir = some .dir := by
    rw [Nodes.moved_of_not_below (fun h => htakes.1 (h.trans hpre)) hnotReal, hnode]
  rw [linked_put_iff htakes.ne_none hlink (moved_src hfs hne htakes).1 (Or.inr htext),
    Helper.wanted_of_exists (exists?_of_isdir hdir), Nodes.held, hresolve]
  constructor
  · -- the new link cannot be on the way to the target, or the target would not be a directory
    rintro ⟨hexists₂, hbelow⟩
    have hresolve₂ : (fs.moved src real).resolve target = dir := by
      refine (resolveWith_or (fun p next hnext => htakes.link hfs hlink hnext)
        (Nodes.islink_of_dir hdir₂) hresolve).resolve_right fun hnot => hnot ?_
      have hroot := congrFun hbelow []
      have hfree : (fs.moved src real).resolve target ≠ src := fun heq => by
        refine (Nodes.exists?_iff.mp hexists₂).1 ?_
        rw [heq, (moved_src hfs hne htakes).1]
      rwa [Nodes.below, Nodes.below, List.append_nil, List.append_nil, Nodes.put_of_ne hfree,
        hnode] at hroot
    rw [hresolve₂] at hbelow
    have hnot := not_prefix_of_below_put hlink hbelow
    rw [below_put hnot] at hbelow
    exact ⟨below_of_moved_into hreal hbelow, hnot⟩
  · -- what was moved is the same as before, so all links are where they were
    rintro ⟨hbelow, hnot⟩
    have hlinks : ∀ p next, fs.moved src real p = some (.link next) ↔ fs p = some (.link next) :=
      fun p next => by
        by_cases hp : src <+: p
        · exact iff_of_false (not_link_of_moved hfs hlink htakes hbelow hp).1
            (not_link_of_moved hfs hlink htakes hbelow hp).2
        · rw [moved_of_below hbelow hp]
    have hresolve₂ : (fs.moved src real).resolve target = dir :=
      (Nodes.resolve_congr hlinks).trans hresolve
    rw [hresolve₂, below_put hnot]
    refine ⟨exists?_of_isdir (isdir_iff.mpr (by rw [hresolve₂, hdir₂])), ?_⟩
    funext rest
    refine moved_of_below hbelow fun h => ?_
    rcases List.prefix_or_prefix_of_prefix h (List.prefix_append dir rest) with hsrc | hdir
    · exact htakes.1 (hsrc.trans hpre)
    · exact hnot hdir

/-- A target that was there, when the source has been moved to it. -/
theorem linked_moved_iff (hfs : WellFormed fs) (hne : src ≠ []) (hlink : fs.islink src = false)
    (hexists : fs.exists? target = true) (htakes : Takes fs src (landing fs src target))
    (htext : text = (fs.moved src (landing fs src target)).resolve target) :
    helper.Linked emptyContent fs src target
        ((fs.moved src (landing fs src target)).put src (.link text)) ↔
      if fs.isdir target then
        fs.below (landing fs src target) = fs.below src ∧ ¬ fs.resolve target <+: src
      else fs.held target = fs.below src := by
  by_cases hdir : fs.isdir target = true
  · rw [if_pos hdir]
    exact linked_moved_dir_iff hfs hne hlink rfl (if_pos hdir) hdir htakes htext
  · have hlanding : landing fs src target = target := if_neg hdir
    rw [hlanding] at htakes htext ⊢
    obtain ⟨hexists₂, hbelow⟩ := held_of_moved text hfs hlink htakes
    rw [if_neg hdir, linked_put_iff htakes.ne_none hlink (moved_src hfs hne htakes).1
      (Or.inr htext), hbelow, Helper.wanted_of_exists hexists, and_iff_right hexists₂, eq_comm]

/-- Where something is in the folder for user data, it need not be created. -/
theorem mkdirP_of_some (hfs : WellFormed fs) (hne : src ≠ []) {userDataPath : List N}
    (htarget : target = userDataPath ++ basename src) (hsome : fs target ≠ none) :
    ignored (mkdirP userDataPath) fs = fs := by
  rw [htarget, basename_of_ne_nil hne] at hsome
  exact ignored_mkdirP_of_dir (hfs.parent userDataPath _ hsome)

/-- A target that is not there is not created with the folder for user data. -/
theorem mkdirP_apply_target (hne : src ≠ []) {userDataPath : List N}
    (htarget : target = userDataPath ++ basename src) :
    ignored (mkdirP userDataPath) fs target = fs target := by
  refine ignored_mkdirP_apply (Or.inl fun hpre => ?_)
  have hlength := hpre.length_le
  rw [htarget, basename_of_ne_nil hne, List.length_append, List.length_singleton] at hlength
  omega

theorem exists?_mkdirP (hfs : WellFormed fs) (hne : src ≠ []) {userDataPath : List N}
    (htarget : target = userDataPath ++ basename src) (hexists : fs.exists? target = false) :
    (ignored (mkdirP userDataPath) fs).exists? target = false := by
  by_cases hnone : fs target = none
  · have hnone₁ : ignored (mkdirP userDataPath) fs target = none :=
      (mkdirP_apply_target hne htarget).trans hnone
    rw [Nodes.exists?_of_not_link (Nodes.islink_of_none hnone₁), hnone₁]
    rfl
  · rwa [mkdirP_of_some hfs hne htarget hnone]

omit [DecidableEq N] in
theorem ne_append_basename (hne : src ≠ []) {userDataPath : List N}
    (htarget : target = userDataPath ++ basename src) : src ≠ src ++ basename target := by
  rw [htarget, basename_of_ne_nil hne, basename_of_ne_nil (by simp)]
  exact fun heq => nomatch List.append_right_eq_self.mp heq.symm

/-- A new target holds what has been created for it, when that is not in the source or above. -/
theorem linked_of_created (hsrc : fs src ≠ none) (hlink : fs.islink src = false)
    (hexists : fs.exists? target = false) {real : List N}
    (hresolve : (fs₂.removed src).resolve target = real) (hnot : ¬ src <+: real)
    (habove : ¬ real <+: src) (hbelow : fs₂.below real = emptyItem emptyContent fs src)
    (htext : text = (fs₂.removed src).resolve target) :
    Helper.newEmptyLink.Linked emptyContent fs src target
      ((fs₂.removed src).put src (.link text)) := by
  have hwanted : Helper.newEmptyLink.wanted emptyContent fs src target =
      emptyItem emptyContent fs src := by
    unfold Helper.wanted
    rw [hexists, if_neg Bool.false_ne_true]
  have hnil := @Helper.wanted_nil _ _ emptyContent fs src target .newEmptyLink hsrc hlink
  have hkept : (fs₂.removed src).below real = fs₂.below real := by
    funext rest
    refine Nodes.removed_of_not_below fun hpre => ?_
    rcases List.prefix_or_prefix_of_prefix hpre (List.prefix_append real rest) with h | h
    · exact hnot h
    · exact habove h
  have hroot : fs₂.removed src real = emptyItem emptyContent fs src [] := by
    rw [← hbelow, ← hkept, Nodes.below, List.append_nil]
  rw [hwanted, Nodes.islink, ← hroot] at hnil
  rw [linked_put_iff hsrc hlink Nodes.removed_self (Or.inr htext), hwanted, hresolve,
    below_put habove, hkept, hbelow]
  refine ⟨Nodes.exists?_iff.mpr ?_, rfl⟩
  rw [hresolve]
  exact hnil

/-- A file is created where the target leads. -/
theorem linked_of_touch (hfs₁ : WellFormed fs₁) {data : C} (hsrc : fs src = some (.file data))
    (hsrc₁ : fs₁ src = some (.file data)) (hexists : fs.exists? target = false)
    (hexists₁ : fs₁.exists? target = false) (htouch : touch emptyContent target fs₁ = some fs₂)
    (htext : text = (fs₂.removed src).resolve target) :
    Helper.newEmptyLink.Linked emptyContent fs src target
      ((fs₂.removed src).put src (.link text)) := by
  obtain ⟨hnone, hdir, rfl⟩ := put_of_touch htouch hexists₁
  have hunder : ∀ p, src <+: p → src ≠ p → fs₁ p = none := fun p hpre hne =>
    hfs₁.none_below hpre hne (by rw [hsrc₁]; exact fun heq => by cases heq)
  have hreal : src ≠ fs₁.resolve target := fun heq => by
    rw [← heq, hsrc₁] at hnone
    cases hnone
  -- the directory of the new file would be below the source, which is a file
  have hnot : ¬ src <+: fs₁.resolve target := fun hpre => by
    have hdropLast := Nodes.prefix_dropLast hpre hreal
    have hfalse : fs₁.isdir (fs₁.resolve target).dropLast = false := by
      by_cases heq : src = (fs₁.resolve target).dropLast
      · rw [← heq, Nodes.isdir, Nodes.stat_of_not_link (Nodes.islink_of_file hsrc₁), hsrc₁]
      · have hnone := hunder _ hdropLast heq
        rw [Nodes.isdir, Nodes.stat_of_not_link (Nodes.islink_of_none hnone), hnone]
    exact Bool.false_ne_true (hfalse.symm.trans hdir)
  -- and the source is not below the new file, since nothing was there
  have habove : ¬ fs₁.resolve target <+: src := by
    rintro ⟨rest, hrest⟩
    have hsome : fs₁ (fs₁.resolve target ++ rest) = none := below_of_none hfs₁ hnone
    rw [hrest, hsrc₁] at hsome
    cases hsome
  refine linked_of_created (Nodes.ne_none hsrc)
    (Nodes.islink_of_file hsrc) hexists (Nodes.resolve_congr fun p next => ?_) hnot habove ?_ htext
  · -- Neither the source nor the new file is a link.
    by_cases hp : src <+: p
    · rw [Nodes.removed, if_pos hp]
      by_cases heq : src = p
      · rw [← heq, hsrc₁]
        simp
      · rw [hunder p hp heq]
    · rw [Nodes.removed_of_not_below hp]
      by_cases heq : p = fs₁.resolve target
      · rw [heq, Nodes.put_self, hnone]
        simp
      · rw [Nodes.put_of_ne heq]
  · funext rest
    cases rest with
    | nil => rw [Nodes.below, List.append_nil, Nodes.put_self, emptyItem, hsrc]
    | cons name rest =>
      have hne : fs₁.resolve target ++ name :: rest ≠ fs₁.resolve target := fun heq =>
        List.cons_ne_nil name rest (List.append_right_eq_self.mp heq)
      rw [Nodes.below, Nodes.put_of_ne hne, below_of_none hfs₁ hnone]
      rfl

/-- An empty folder takes the place of the source when it can be created, and not in there. -/
theorem linked_emptyDir_iff (hfs : WellFormed fs) {userDataPath : List N} (hne : src ≠ [])
    (hsrc : fs src = some .dir) (htarget : target = userDataPath ++ basename src)
    (hexists : fs.exists? target = false)
    (hfs₂ : fs₂ = ignored (mkdirP target) (ignored (mkdirP userDataPath) fs))
    (htext : text = (fs₂.removed src).resolve target) :
    Helper.newEmptyLink.Linked emptyContent fs src target
        ((fs₂.removed src).put src (.link text)) ↔
      fs target = none ∧ ¬ src <+: target ∧ Creatable fs userDataPath = true := by
  have hsome : fs src ≠ none := Nodes.ne_none hsrc
  have hlink := Nodes.islink_of_dir hsrc
  -- a link is only right when it leads to something
  have hgone : (fs₂.removed src).exists? target = false →
      ¬ Helper.newEmptyLink.Linked emptyContent fs src target
        ((fs₂.removed src).put src (.link text)) := fun hfalse hlinked => by
    have htrue := ((linked_put_iff hsome hlink Nodes.removed_self (Or.inr htext)).mp hlinked).1
    exact Bool.false_ne_true (hfalse.symm.trans htrue)
  -- where nothing is at the target, `mkdir -p` makes an empty directory, if it can
  by_cases hnone : fs target = none
  · have htargetName : target = userDataPath ++ [src.getLast hne] := by
      rw [htarget, basename_of_ne_nil hne]
    have htop : fs₂ target = if Creatable fs userDataPath then some .dir else none := by
      rw [hfs₂, htargetName]
      exact ignored_mkdirP_mkdirP (htargetName ▸ hnone)
    by_cases hcreated : ¬ src <+: target ∧ Creatable fs userDataPath = true
    · refine iff_of_true ?_ ⟨hnone, hcreated⟩
      rw [if_pos hcreated.2] at htop
      have hdir : (fs₂.removed src).islink target = false := by
        rw [Nodes.islink, Nodes.removed_of_not_below hcreated.1, htop]
      refine linked_of_created hsome hlink hexists (Nodes.resolve_of_not_link hdir) hcreated.1 ?_ ?_
        htext
      · rintro ⟨rest, hrest⟩
        refine hsome ?_
        rw [← hrest]
        exact below_of_none hfs hnone
      · funext rest
        -- the directory that has been made is empty
        cases rest with
        | nil => rw [Nodes.below, List.append_nil, htop, emptyItem, hsrc]
        | cons name rest =>
          have hlonger : ∀ {path}, path <+: target → ¬ target ++ name :: rest <+: path :=
            fun hpath hpre => by
              have hlength := (hpre.trans hpath).length_le
              rw [List.length_append, List.length_cons] at hlength
              omega
          have huserData : userDataPath <+: target := htarget ▸ List.prefix_append _ _
          rw [Nodes.below, hfs₂, ignored_mkdirP_apply (Or.inl (hlonger List.prefix_rfl)),
            ignored_mkdirP_apply (Or.inl (hlonger huserData)), below_of_none hfs hnone]
          rfl
    · refine iff_of_false (hgone ?_) fun h => hcreated h.2
      -- the target is gone with the source, or has not been made
      have hnone₂ : fs₂.removed src target = none := by
        rw [Nodes.removed]
        split
        · rfl
        · rename_i hpre
          rw [htop, if_neg fun h => hcreated ⟨hpre, h⟩]
      rw [Nodes.exists?_of_not_link (Nodes.islink_of_none hnone₂), hnone₂]
      rfl
  · refine iff_of_false (hgone ?_) fun h => hnone h.1
    -- a link that leads nowhere is in the way of `mkdir -p`
    have hsame : fs₂ = fs := by
      rw [hfs₂, mkdirP_of_some hfs hne htarget hnone, ignored_mkdirP_of_some hfs hnone]
    rw [hsame, Bool.eq_false_iff]
    intro htrue
    exact Bool.false_ne_true (hexists.symm.trans (exists?_of_removed htrue))

variable [∀ (fs : Nodes N C) (path : List N), Decidable (fs.Bare path)]

theorem eq_moved_of_mv (h : mv src target fs = some fs₂) :
    Takes fs src (landing fs src target) ∧ fs₂ = fs.moved src (landing fs src target) := by
  rw [mv] at h
  split at h
  · exact ⟨‹_›, (Option.some.inj h).symm⟩
  · cases h

/-- A new target is what the source has been. -/
theorem linked_of_moved (hfs : WellFormed fs₁) (hne : src ≠ []) (hsrc : fs src ≠ none)
    (hlink : fs.islink src = false) (hexists : fs.exists? target = false)
    (hhelper : helper ≠ .newEmptyLink) (hdir : fs₁.isdir target = false)
    (hsame : ¬ src <+: target → fs₁.below src = fs.below src)
    (hmv : mv src target fs₁ = some fs₂) (htext : text = target ∨ text = fs₂.resolve target) :
    helper.Linked emptyContent fs src target (fs₂.put src (.link text)) := by
  obtain ⟨htakes, rfl⟩ := eq_moved_of_mv hmv
  rw [landing_of_not_isdir hdir] at htakes htext ⊢
  have hbelow := hsame htakes.1
  have hlink₁ : fs₁.islink src = false := by
    have hroot := congrFun hbelow []
    rw [Nodes.below, Nodes.below, List.append_nil] at hroot
    rw [Nodes.islink, hroot, ← Nodes.islink, hlink]
  have hwanted : helper.wanted emptyContent fs src target = fs.below src := by
    unfold Helper.wanted
    rw [if_neg (by rw [hexists]; exact Bool.false_ne_true)]
    cases helper with
    | moveLink | alwaysLinkInitByMove => rfl
    | newEmptyLink => exact absurd rfl hhelper
  rw [linked_put_iff hsrc hlink (moved_src hfs hne htakes).1 htext, hwanted, ← hbelow]
  exact held_of_moved text hfs hlink₁ htakes

/-! ### The helpers -/

/-- What `helperUserdataMoveLink` comes to. -/
theorem run_moveLink (hfs : WellFormed fs) {user : String} (huser : user ≠ "lapas")
    {userDataPath : List N} (hne : src ≠ []) (hsrc : fs src ≠ none) (hlink : fs.islink src = false)
    (htarget : target = userDataPath ++ basename src) :
    Helper.moveLink.run emptyContent user src userDataPath fs =
      (mv src target (ignored (mkdirP userDataPath) fs)).map fun fs₂ =>
        fs₂.put src (.link (fs₂.resolve target)) := by
  have hexists := exists?_of_some hsrc hlink
  have hfs₁ := wellFormed_mkdirP hfs userDataPath
  simp only [Helper.run, helperUserdataMoveLink, if_pos huser, hlink, Nodes.isfile_or_isdir,
    hexists, ← htarget, if_true, Bool.false_eq_true, if_false]
  cases hmv : mv src target (ignored (mkdirP userDataPath) fs) with
  | none => rfl
  | some fs₂ =>
    obtain ⟨htakes, rfl⟩ := eq_moved_of_mv hmv
    obtain ⟨hfree, hdir⟩ := moved_src hfs₁ hne htakes
    exact ln_of_none hfree hdir

theorem moveLink_linked_iff (hfs : WellFormed fs) {user : String} (huser : user ≠ "lapas")
    {userDataPath : List N} (hne : src ≠ []) (hsrc : fs src ≠ none) (hlink : fs.islink src = false)
    (htarget : target = userDataPath ++ basename src) :
    (∀ fs', Helper.moveLink.run emptyContent user src userDataPath fs = some fs' →
      Helper.moveLink.Linked emptyContent fs src target fs') ↔
        Helper.moveLink.Suits fs src target := by
  rw [run_moveLink hfs huser hne hsrc hlink htarget]
  cases hexists : fs.exists? target with
  | false =>
    refine iff_of_true (fun fs' hrun => ?_) fun hexists' => ?_
    · obtain ⟨fs₂, hmv, rfl⟩ := Option.map_eq_some_iff.mp hrun
      refine linked_of_moved (wellFormed_mkdirP hfs userDataPath) hne hsrc hlink hexists
        (fun heq => nomatch heq) ?_ (fun hnot => ?_) hmv (Or.inr rfl)
      · exact Bool.eq_false_iff.mpr fun hdir => Bool.false_ne_true <|
          (exists?_mkdirP hfs hne htarget hexists).symm.trans (exists?_of_isdir hdir)
      · -- Nothing has been created in the source.
        funext rest
        refine ignored_mkdirP_apply (Or.inl fun hpre => hnot ?_)
        rw [htarget]
        exact (List.prefix_append src rest).trans (hpre.trans (List.prefix_append _ _))
    · rw [hexists] at hexists'
      cases hexists'
  | true =>
    have hprepared : ignored (mkdirP userDataPath) fs = fs :=
      mkdirP_of_some hfs hne htarget (Nodes.ne_none_of_exists? hexists)
    rw [hprepared]
    constructor
    · intro h _ htakes
      have hmv : mv src target fs = some (fs.moved src (landing fs src target)) := if_pos htakes
      have hlinked := h _ (Option.map_eq_some_iff.mpr ⟨_, hmv, rfl⟩)
      exact (linked_moved_iff hfs hne hlink hexists htakes rfl).mp hlinked
    · intro hsuits fs' hrun
      obtain ⟨fs₂, hmv, rfl⟩ := Option.map_eq_some_iff.mp hrun
      obtain ⟨htakes, rfl⟩ := eq_moved_of_mv hmv
      exact (linked_moved_iff hfs hne hlink hexists htakes rfl).mpr (hsuits hexists htakes)

/-- What `helperUserdataAlwaysLinkInitByMove` comes to. -/
theorem run_alwaysLink (hfs : WellFormed fs) (user : String) {userDataPath : List N}
    (hne : src ≠ []) (hsrc : fs src ≠ none) (hlink : fs.islink src = false)
    (htarget : target = userDataPath ++ basename src) :
    Helper.alwaysLinkInitByMove.run emptyContent user src userDataPath fs =
      if fs.exists? target then
        if fs.isdir src then
          if (fs (src ++ basename target)).isSome then none
          else some (fs.put (src ++ basename target) (.link target))
        else some ((fs.removed src).put src (.link target))
      else (mv src target fs).map fun fs₂ => fs₂.put src (.link target) := by
  have hnot : (!fs.isfile target && !fs.isdir target) = !fs.exists? target := by
    rw [← Bool.not_or, Nodes.isfile_or_isdir]
  have htargetne : target ≠ [] := by
    rw [htarget, basename_of_ne_nil hne]
    exact List.append_ne_nil_of_right_ne_nil _ (List.cons_ne_nil _ _)
  simp only [Helper.run, helperUserdataAlwaysLinkInitByMove, ← htarget, hnot]
  cases hexists : fs.exists? target with
  | true =>
    simp only [Bool.not_true, Bool.false_eq_true, if_false, if_true]
    show lnS target src (ignored (rm src) fs) = _
    rcases file_or_dir hsrc hlink with ⟨data, hnode⟩ | hnode
    · rw [isdir_of_file hnode, if_neg Bool.false_ne_true, ignored, rm_of_file hnode]
      exact ln_of_none Nodes.removed_self (dir_removed hfs hne hsrc)
    · rw [Nodes.isdir_of_dir hnode, if_pos rfl, ignored_rm_of_dir hnode]
      exact lnS_of_dir hnode htargetne
  | false =>
    simp only [Bool.not_false, if_true, Bool.false_eq_true, if_false]
    cases hmv : mv src target fs with
    | none => rfl
    | some fs₂ =>
      obtain ⟨htakes, rfl⟩ := eq_moved_of_mv hmv
      obtain ⟨hfree, hdir⟩ := moved_src hfs hne htakes
      show lnS target src (ignored (rm src) _) = _
      rw [ignored_rm_of_none hfree]
      exact ln_of_none hfree hdir

theorem alwaysLink_linked_iff (hfs : WellFormed fs) (user : String) {userDataPath : List N}
    (hne : src ≠ []) (hsrc : fs src ≠ none) (hlink : fs.islink src = false)
    (htarget : target = userDataPath ++ basename src) :
    (∀ fs', Helper.alwaysLinkInitByMove.run emptyContent user src userDataPath fs = some fs' →
      Helper.alwaysLinkInitByMove.Linked emptyContent fs src target fs') ↔
        Helper.alwaysLinkInitByMove.Suits fs src target := by
  rw [run_alwaysLink hfs user hne hsrc hlink htarget]
  by_cases hexists : fs.exists? target = true
  · rw [if_pos hexists, Helper.Suits]
    by_cases hdir : fs.isdir src = true
    · rw [if_pos hdir, if_pos hdir]
      by_cases hname : fs (src ++ basename target) = none
      · -- The link gets into the source, and that stays a folder.
        refine iff_of_false (fun h => ?_) fun h => h hexists hname
        obtain ⟨text, htext⟩ := (h _ (if_neg (by rw [hname]; exact Bool.false_ne_true))).link
        rw [Nodes.put_of_ne (ne_append_basename hne htarget)] at htext
        rw [Nodes.islink, htext.1] at hlink
        cases hlink
      · refine iff_of_true (fun fs' hrun => ?_) fun _ => hname
        rw [if_pos (Option.isSome_iff_ne_none.mpr hname)] at hrun
        cases hrun
    · rw [if_neg hdir, if_neg hdir, ← linked_removed_iff hsrc hlink (Or.inl rfl) hexists]
      exact ⟨fun h _ => h _ rfl, fun h fs' hrun => Option.some.inj hrun ▸ h hexists⟩
  · rw [if_neg hexists]
    refine iff_of_true (fun fs' hrun => ?_) fun h => absurd h hexists
    obtain ⟨fs₂, hmv, rfl⟩ := Option.map_eq_some_iff.mp hrun
    have hfalse := Bool.eq_false_iff.mpr hexists
    exact linked_of_moved hfs hne hsrc hlink hfalse (fun heq => by cases heq)
      (Bool.eq_false_iff.mpr fun hdir => hexists (exists?_of_isdir hdir)) (fun _ => rfl) hmv
      (Or.inl rfl)

/-- What `helperUserdataNewEmptyLink` comes to. -/
theorem run_newEmptyLink (hfs : WellFormed fs) {user : String} (huser : user ≠ "lapas")
    {userDataPath : List N} (hne : src ≠ []) (hsrc : fs src ≠ none) (hlink : fs.islink src = false)
    (htarget : target = userDataPath ++ basename src) :
    Helper.newEmptyLink.run emptyContent user src userDataPath fs =
      (if fs.isdir src then some (ignored (mkdirP target) (ignored (mkdirP userDataPath) fs))
        else touch emptyContent target (ignored (mkdirP userDataPath) fs)).map fun fs₂ =>
          (fs₂.removed src).put src (.link ((fs₂.removed src).resolve target)) := by
  -- whatever was made in the user data, the link is put where the source was
  have hlinkSource : ∀ {fs₂ : Nodes N C}, fs₂ src.dropLast = fs src.dropLast →
      lnRS target src (fs₂.removed src) =
        some ((fs₂.removed src).put src (.link ((fs₂.removed src).resolve target))) := by
    intro fs₂ hdir
    refine ln_of_none Nodes.removed_self ?_
    rw [Nodes.removed_of_not_below (Nodes.not_prefix_dropLast hne), hdir]
    exact hfs.dir_dropLast hne hsrc
  have hdirSome : fs src.dropLast ≠ none := by
    rw [hfs.dir_dropLast hne hsrc]
    exact fun heq => nomatch heq
  have hsame : ∀ {p}, fs p ≠ none → ignored (mkdirP userDataPath) fs p = fs p :=
    fun hp => ignored_mkdirP_apply (Or.inr hp)
  simp only [Helper.run, helperUserdataNewEmptyLink, if_pos huser, hlink, ← htarget,
    Bool.false_eq_true, if_false]
  rcases file_or_dir hsrc hlink with ⟨data, hnode⟩ | hnode
  · have hnode₁ : ignored (mkdirP userDataPath) fs src = some (.file data) :=
      (hsame hsrc).trans hnode
    rw [isfile_of_file hnode₁, if_pos rfl, isdir_of_file hnode, if_neg Bool.false_ne_true]
    cases htouch : touch emptyContent target (ignored (mkdirP userDataPath) fs) with
    | none => rfl
    | some fs₂ =>
      -- neither command changes a path at which there is something already
      have hkept : ∀ {p}, fs p ≠ none → fs₂ p = fs p := fun hp =>
        (touch_apply htouch (by rw [hsame hp]; exact hp)).trans (hsame hp)
      show (rm src fs₂).bind (lnRS target src) = _
      rw [rm_of_file ((hkept hsrc).trans hnode)]
      exact hlinkSource (hkept hdirSome)
  · have hnode₁ : ignored (mkdirP userDataPath) fs src = some .dir := (hsame hsrc).trans hnode
    have hkept : ∀ {p}, fs p ≠ none →
        ignored (mkdirP target) (ignored (mkdirP userDataPath) fs) p = fs p := fun hp =>
      (ignored_mkdirP_apply (Or.inr (by rw [hsame hp]; exact hp))).trans (hsame hp)
    rw [isfile_of_dir hnode₁, if_neg Bool.false_ne_true, Nodes.isdir_of_dir hnode₁, if_pos rfl,
      Nodes.isdir_of_dir hnode, if_pos rfl]
    show (rmR src _).bind (lnRS target src) = _
    rw [rmR, hkept hsrc, hnode, if_pos Option.isSome_some]
    exact hlinkSource (hkept hdirSome)

theorem newEmptyLink_linked_iff (hfs : WellFormed fs) {user : String} (huser : user ≠ "lapas")
    {userDataPath : List N} (hne : src ≠ []) (hsrc : fs src ≠ none) (hlink : fs.islink src = false)
    (htarget : target = userDataPath ++ basename src) :
    (∀ fs', Helper.newEmptyLink.run emptyContent user src userDataPath fs = some fs' →
      Helper.newEmptyLink.Linked emptyContent fs src target fs') ↔
        Helper.newEmptyLink.Suits fs src target := by
  rw [run_newEmptyLink hfs huser hne hsrc hlink htarget, Helper.Suits]
  by_cases hexists : fs.exists? target = true
  · have hsome := Nodes.ne_none_of_exists? hexists
    have hprepared : (if fs.isdir src then
        some (ignored (mkdirP target) (ignored (mkdirP userDataPath) fs))
        else touch emptyContent target (ignored (mkdirP userDataPath) fs)) = some fs := by
      rw [mkdirP_of_some hfs hne htarget hsome, ignored_mkdirP_of_some hfs hsome,
        touch_of_exists hexists, ite_self]
    rw [hprepared, if_pos hexists, ← linked_removed_iff hsrc hlink (Or.inr rfl) hexists]
    exact ⟨fun h => h _ rfl, fun h fs' hrun => Option.some.inj hrun ▸ h⟩
  · rw [if_neg hexists]
    have hfalse := Bool.eq_false_iff.mpr hexists
    have hdropLast : target.dropLast = userDataPath := by
      rw [htarget, basename_of_ne_nil hne, List.dropLast_concat]
    rcases file_or_dir hsrc hlink with ⟨data, hnode⟩ | hnode
    · rw [isdir_of_file hnode]
      refine iff_of_true (fun fs' hrun => ?_) fun h => absurd h Bool.false_ne_true
      obtain ⟨fs₂, htouch, rfl⟩ := Option.map_eq_some_iff.mp hrun
      have hnode₁ : ignored (mkdirP userDataPath) fs src = some (.file data) :=
        (ignored_mkdirP_apply (Or.inr hsrc)).trans hnode
      exact linked_of_touch (wellFormed_mkdirP hfs userDataPath) hnode hnode₁ hfalse
        (exists?_mkdirP hfs hne htarget hfalse) htouch rfl
    · rw [Nodes.isdir_of_dir hnode, if_pos rfl, imp_iff_right rfl, hdropLast,
        ← linked_emptyDir_iff hfs hne hnode htarget hfalse rfl rfl]
      exact ⟨fun h => h _ rfl, fun h fs' hrun => Option.some.inj hrun ▸ h⟩

/-- **When the data is linked.**  For a source that is a file or a folder, a helper that finishes
has linked it to the user's data exactly under the conditions of `Suits`. -/
theorem linked_iff (fs : FileSystem N C) (emptyContent : C) (helper : Helper) {user : String}
    (huser : user ≠ "lapas") (src target : fs.nodes.Place)
    (hsrc : (∃ data, fs.nodes src.path = some (.file data)) ∨ fs.nodes src.path = some .dir)
    {userDataPath : List N} (htarget : target.path = userDataPath ++ basename src.path) :
    (∀ fs', helper.run emptyContent user src.path userDataPath fs.nodes = some fs' →
      helper.Linked emptyContent fs.nodes src.path target.path fs') ↔
        helper.Suits fs.nodes src.path target.path := by
  have hfs := fs.wellFormed
  have hsome : fs.nodes src.path ≠ none := by
    rcases hsrc with ⟨data, hnode⟩ | hnode <;> rw [hnode] <;> exact fun heq => nomatch heq
  have hlink : fs.nodes.islink src.path = false := by
    rcases hsrc with ⟨data, hnode⟩ | hnode <;> rw [Nodes.islink, hnode]
  cases helper with
  | moveLink => exact moveLink_linked_iff hfs huser src.ne_nil hsome hlink htarget
  | alwaysLinkInitByMove => exact alwaysLink_linked_iff hfs user src.ne_nil hsome hlink htarget
  | newEmptyLink => exact newEmptyLink_linked_iff hfs huser src.ne_nil hsome hlink htarget

end

/-! ### A folder with saved games -/

/-- The file system with these folders and files. -/
def tree (folders : List (List String)) (files : List (List String × String)) :
    Nodes String String := fun path =>
  if path ∈ folders then some .dir else (files.lookup path).map .file

theorem wellFormed_tree {folders : List (List String)} {files : List (List String × String)}
    (hroot : [] ∈ folders)
    (h : ∀ path ∈ folders ++ files.map Prod.fst, path ≠ [] → path.dropLast ∈ folders) :
    WellFormed (tree folders files) := by
  refine ⟨if_pos hroot, fun path name hsome => if_pos ?_⟩
  have hmem : path ++ [name] ∈ folders ++ files.map Prod.fst := by
    rw [tree] at hsome
    split at hsome
    · exact List.mem_append_left _ ‹_›
    · obtain ⟨node, hnode⟩ := Option.ne_none_iff_exists'.mp hsome
      obtain ⟨content, hcontent, -⟩ := Option.map_eq_some_iff.mp hnode
      obtain ⟨before, after, rfl, -⟩ := List.lookup_eq_some_iff.mp hcontent
      refine List.mem_append_right _ (List.mem_map.mpr ⟨(path ++ [name], content), ?_, rfl⟩)
      exact List.mem_append_right _ List.mem_cons_self
  have hdropLast := h _ hmem (List.concat_ne_nil name path)
  rwa [List.dropLast_concat] at hdropLast

/-- The prefix has a folder for saved games, and the user has saved one. -/
def savesGame : FileSystem String String where
  nodes := tree [[], ["prefix"], ["prefix", "saves"], ["userdata"], ["userdata", "saves"]]
    [(["userdata", "saves", "slot1"], "level 9")]
  wellFormed := wellFormed_tree (by decide) (by decide)

open Classical in
theorem linked_iff_saves :
    (Helper.newEmptyLink.run "" "bob" ["prefix", "saves"] ["userdata"] savesGame.nodes).isSome =
        true ∧
      ∀ fs', Helper.newEmptyLink.run "" "bob" ["prefix", "saves"] ["userdata"] savesGame.nodes =
          some fs' →
        Helper.newEmptyLink.Linked "" savesGame.nodes ["prefix", "saves"] ["userdata", "saves"]
          fs' :=
  ⟨rfl, (linked_iff savesGame "" .newEmptyLink (by decide)
    (savesGame.place ["prefix", "saves"] (by decide) (by decide))
    (savesGame.place ["userdata", "saves"] (by decide) (by decide)) (Or.inr rfl) rfl).mpr
    ⟨rfl, by decide⟩⟩

open Classical in
/-- The folder in the prefix is not removed, and the link gets into it. -/
theorem not_linked_saves : ¬ ∀ fs',
    Helper.alwaysLinkInitByMove.run "" "bob" ["prefix", "saves"] ["userdata"] savesGame.nodes =
        some fs' →
      Helper.alwaysLinkInitByMove.Linked "" savesGame.nodes ["prefix", "saves"]
        ["userdata", "saves"] fs' := by
  intro h
  have hlinked := h (savesGame.nodes.put ["prefix", "saves", "saves"]
    (.link ["userdata", "saves"])) rfl
  obtain ⟨text, htext, -⟩ := hlinked.link
  have hdir : savesGame.nodes.put ["prefix", "saves", "saves"] (.link ["userdata", "saves"])
      ["prefix", "saves"] = some .dir := rfl
  rw [hdir] at htext
  cases htext

end Guest
end Lapas
