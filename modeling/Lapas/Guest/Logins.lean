import Lapas.Guest.Stages

/-!
# Logins on one guest

The sessions that have been opened since a guest has been booted.  When all of them have been
opened as they should, the mount table is that of their users, and the next session is opened
as it should unless its user is new and is hidden by one of these.

## Main definitions

* `Booted`, `Sessions` — a guest before its first session, and after some.
* `Literal` — a `grep` that finds the paths of a user where they are written literally.
* `Independent` — every session of a run is opened, and its user is logged in then.
* `Unobstructed` — nobody who is new is hidden.

## Main results

* `literal_grepBasic` — so it does with names that have no special characters.
* `Sessions.loggedIn` — who has a session is logged in.
* `Sessions.open_new`, `Sessions.open_again`, `Sessions.not_loggedIn` — the next session.
* `independent_iff` — **the sessions of a run do not disturb each other exactly when it is
  unobstructed.**
-/

namespace Lapas
namespace Guest

open Shell

/-! ### Where paths lead -/

/-- A path that no mount of a session is above. -/
def Outside (path : List Str) : Prop :=
  ∀ x, ¬ mountPath x <+: path ∧ ¬ homePath x <+: path

/-- A path that only the mounts of one user may be above. -/
def OwnPath (user : Str) (path : List Str) : Prop :=
  ∀ x, x ≠ user → ¬ mountPath x <+: path ∧ ¬ homePath x <+: path

section

variable {user : Str} {path path' : List Str}

theorem Outside.ownPath (h : Outside path) (user : Str) : OwnPath user path := fun x _ => h x

theorem OwnPath.above (h : OwnPath user path) (hp : path' <+: path) : OwnPath user path' :=
  fun x hx =>
    ⟨fun hbelow => (h x hx).1 (hbelow.trans hp), fun hbelow => (h x hx).2 (hbelow.trans hp)⟩

theorem ownPath_mountPath (user : Str) (rest : List Str) :
    OwnPath user (mountPath user ++ rest) := by
  intro x hx
  simp [mountPath, homePath, hx]

theorem ownPath_homePath (user : Str) : OwnPath user (homePath user) := by
  intro x hx
  simp [mountPath, homePath, hx]

theorem outside_imagePath (user : Str) : Outside (imagePath user) := by
  intro x
  simp [mountPath, homePath, imagePath, homesPath]

theorem outside_homeBase (rest : List Str) : Outside (homeBasePath ++ rest) := by
  intro x
  simp [mountPath, homePath, homeBasePath]

theorem outside_script {text : String}
    (h : text ∈ ["/lapas/common.sh", "/lapas/lapas-api.env", "/.lapasUser"]) :
    Outside (components text.toList) := by
  intro x
  have hhead : (components text.toList).head? ≠ some "mnt".toList ∧
      (components text.toList).head? ≠ some "home".toList := by
    simp only [List.mem_cons, List.not_mem_nil, or_false] at h
    rcases h with rfl | rfl | rfl <;> decide
  refine ⟨?_, ?_⟩ <;> rintro ⟨rest, hrest⟩ <;> rw [← hrest] at hhead
  · exact hhead.1 rfl
  · exact hhead.2 rfl

/-- The mounts of a user are above the paths of that user. -/
theorem above_of_target {x : Str} (hx : PlainName x) {m : Mount} (hm : m ∈ sessionMounts x)
    (h : m.mountPoint.target <+: path) : mountPath x <+: path ∨ homePath x <+: path := by
  simp only [sessionMounts, List.mem_cons, List.not_mem_nil, or_false] at hm
  rcases hm with rfl | rfl | rfl
  · rw [mountPoint_overlay hx] at h
    exact Or.inr h
  · rw [mountPoint_image hx] at h
    exact Or.inl ((List.prefix_append _ _).trans h)
  · rw [mountPoint_base hx] at h
    exact Or.inl ((List.prefix_append _ _).trans h)

/-- The mounts of other users are not on the way. -/
theorem not_above_of_ownPath {users : List Str} (hplain : ∀ x ∈ users, PlainName x)
    (hpath : ∀ x ∈ users, ¬ mountPath x <+: path ∧ ¬ homePath x <+: path) :
    ∀ m ∈ (users.flatMap sessionMounts).map Mount.mountPoint, ¬ m.target <+: path := by
  intro m hm hbelow
  obtain ⟨m, hmount, rfl⟩ := List.mem_map.mp hm
  obtain ⟨x, hx, hm⟩ := List.mem_flatMap.mp hmount
  exact (above_of_target (hplain x hx) hm hbelow).elim (hpath x hx).1 (hpath x hx).2

end

/-! ### The table of one user -/

section

variable {user : Str} (hplain : PlainName user) (older : List (MountPoint Str)) (rest : List Str)
include hplain

theorem locate_persistentPath : Lapas.locate
    ((imageMount user).mountPoint :: (baseMount user).mountPoint :: older)
      (persistentPath user ++ rest) = .image (imagePath user) rest := by
  rw [mountPoint_image hplain]
  exact locate_image rfl rest

theorem locate_basePath : Lapas.locate
    ((imageMount user).mountPoint :: (baseMount user).mountPoint :: older) (basePath user ++ rest) =
      Lapas.locate older (homeBasePath ++ rest) := by
  have hnot : ¬ persistentPath user <+: basePath user ++ rest := by
    simp [persistentPath, basePath, mountPath]
  rw [mountPoint_image hplain, locate_cons_of_not_above hnot, mountPoint_base hplain]
  exact locate_bind rfl rest

theorem locate_mountPath : Lapas.locate ((overlayMount user).mountPoint :: older)
    (mountPath user ++ rest) = Lapas.locate older (mountPath user ++ rest) := by
  rw [mountPoint_overlay hplain]
  exact locate_cons_of_not_above (by simp [homePath, mountPath])

end

/-- What has been mounted for a user. -/
theorem map_sessionMounts (user : Str) (older : List Mount) :
    (sessionMounts user ++ older).map Mount.mountPoint = (overlayMount user).mountPoint ::
      (imageMount user).mountPoint :: (baseMount user).mountPoint :: older.map Mount.mountPoint :=
  rfl

/-! ### Guests -/

/-- The lines of the mounts that the system has made name no directory that sessions use. -/
def QuietLines (lines : List Str) : Prop :=
  ∀ line ∈ lines, ∀ dir ∈ ["/mnt/.mounts/", "/mnt/homes/", "/home/"],
    contains dir.toList line = false

/-- A guest that has just been booted in user mode. -/
structure Booted (s : System) : Prop where
  bootLines : QuietLines s.bootLines
  mounts : s.mounts = []
  ready : Ready s.tree

/-- Sessions of these users have been opened, and nothing else has happened. -/
structure Sessions (users : List Str) (s : System) : Prop where
  plain : ∀ x ∈ users, PlainName x
  bootLines : QuietLines s.bootLines
  mounts : s.mounts = users.flatMap sessionMounts
  ready : Ready s.tree
  image : ∀ x ∈ users, ∃ volume, s.tree (imagePath x) = some (.file (.ext4 volume)) ∧ InUse volume
  kept : ∀ x ∈ users, .image (imagePath x) ["upper".toList] ∈ s.kept

theorem Booted.sessions {s : System} (h : Booted s) : Sessions [] s where
  plain _ hx := nomatch hx
  bootLines := h.bootLines
  mounts := h.mounts
  ready := h.ready
  image _ hx := nomatch hx
  kept _ hx := nomatch hx

namespace Sessions

variable {users : List Str} {user : Str} {s : System} {path : List Str}

theorem locate_outside (h : Sessions users s) (hpath : Outside path) :
    s.locate path = .tree path := by
  rw [System.locate, h.mounts]
  exact locate_of_forall (not_above_of_ownPath h.plain fun x _ => hpath x)

theorem locate_own (h : Sessions users s) (hnew : user ∉ users) (hpath : OwnPath user path) :
    s.locate path = .tree path := by
  rw [System.locate, h.mounts]
  exact locate_of_forall (not_above_of_ownPath h.plain fun x hx =>
    hpath x fun heq => hnew (heq ▸ hx))

/-- The mounts of a user are the last ones on the paths of that user. -/
theorem exists_locate_eq (h : Sessions users s) (hmem : user ∈ users) :
    ∃ older : List Str, (∀ x ∈ older, PlainName x) ∧ ∀ path, OwnPath user path →
      s.locate path = Lapas.locate
        ((sessionMounts user ++ older.flatMap sessionMounts).map Mount.mountPoint) path := by
  obtain ⟨newer, older, rfl, hnewer⟩ := List.eq_append_cons_of_mem hmem
  refine ⟨older, fun x hx => h.plain x (by simp [hx]), fun path hpath => ?_⟩
  rw [System.locate, h.mounts, List.flatMap_append, List.flatMap_cons, List.map_append]
  refine locate_append_of_forall (not_above_of_ownPath (fun x hx => h.plain x (by simp [hx]))
    fun x hx => hpath x fun heq => hnewer (heq ▸ hx))

theorem mountedAt (h : Sessions users s) (hmem : user ∈ users) : MountedAt user s := by
  intro rest
  obtain ⟨older, -, hlocate⟩ := h.exists_locate_eq hmem
  have hown : OwnPath user (persistentPath user ++ rest) := by
    rw [persistentPath, List.append_assoc]
    exact ownPath_mountPath user _
  rw [hlocate _ hown, map_sessionMounts, persistentPath, List.append_assoc,
    locate_mountPath (h.plain user hmem), ← List.append_assoc]
  exact locate_persistentPath (h.plain user hmem) _ rest

theorem locate_base (h : Sessions users s) (hmem : user ∈ users) (rest : List Str) :
    s.locate (basePath user ++ rest) = .tree (homeBasePath ++ rest) := by
  obtain ⟨older, hplain, hlocate⟩ := h.exists_locate_eq hmem
  have hown : OwnPath user (basePath user ++ rest) := by
    rw [basePath, List.append_assoc]
    exact ownPath_mountPath user _
  rw [hlocate _ hown, map_sessionMounts, basePath, List.append_assoc,
    locate_mountPath (h.plain user hmem), ← List.append_assoc]
  refine (locate_basePath (h.plain user hmem) _ rest).trans ?_
  exact locate_of_forall (not_above_of_ownPath hplain fun x _ => outside_homeBase rest x)

/-- Who has a session is logged in. -/
theorem loggedIn (h : Sessions users s) (hmem : user ∈ users) : LoggedIn user s := by
  have hplain := h.plain user hmem
  refine ⟨?_, ?_, ?_⟩
  · rw [components_persistent hplain, components_image hplain]
    have himage := h.mountedAt hmem []
    rwa [List.append_nil] at himage
  · rw [components_image hplain]
    exact h.kept user hmem
  · obtain ⟨older, -, hlocate⟩ := h.exists_locate_eq hmem
    have hhome := hlocate _ (ownPath_homePath user)
    rw [map_sessionMounts, mountPoint_overlay hplain] at hhome
    have hmerged := hhome.trans (locate_overlay rfl)
    rw [locate_persistentPath hplain] at hmerged
    change ∃ lower, s.locate (components (home user)) = _
    rw [components_home hplain, components_image hplain]
    exact ⟨_, hmerged⟩

end Sessions

/-! ### The guards -/

theorem System.grep_eq_zero {s : System} {pattern : Str} : s.grep pattern = 0 ↔
    (∀ line ∈ s.bootLines, contains pattern line = false) ∧
      ∀ m ∈ s.mounts, contains pattern m.line = false := by
  rw [System.grep, List.length_eq_zero_iff, List.filter_eq_nil_iff, System.printed]
  simp [or_imp, forall_and]

/-- The lines of the system are passed over. -/
theorem QuietLines.grep_eq_zero {s : System} (h : QuietLines s.bootLines) {dir : String}
    {pattern : Str} (hdir : dir ∈ ["/mnt/.mounts/", "/mnt/homes/", "/home/"])
    (hpattern : dir.toList <+: pattern)
    (hmounts : ∀ m ∈ s.mounts, contains pattern m.line = false) : s.grep pattern = 0 := by
  refine System.grep_eq_zero.mpr ⟨fun line hline => ?_, hmounts⟩
  rw [← Bool.not_eq_true]
  intro hcontains
  have hinfix := hpattern.isInfix.trans (contains_iff.mp hcontains)
  exact absurd ((h line hline dir hdir).symm.trans (contains_iff.mpr hinfix)) Bool.false_ne_true

namespace Sessions

variable {users : List Str} {s : System} {login : Login}

theorem exists_of_mem (h : Sessions users s) {m : Mount} (hm : m ∈ s.mounts) :
    ∃ x ∈ users, m ∈ sessionMounts x := by
  rw [h.mounts] at hm
  exact List.mem_flatMap.mp hm

theorem grep_base (h : Sessions users s) (hlogin : login.Regular) (hnew : login.user ∉ users) :
    s.grep (userBaseMountDir login.user) = 0 := by
  have hpattern : "/mnt/.mounts/".toList <+: userBaseMountDir login.user := by
    unfold userBaseMountDir userMountDir
    rw [List.append_assoc]
    exact List.prefix_append _ _
  refine h.bootLines.grep_eq_zero (by simp) hpattern fun m hm => ?_
  obtain ⟨x, hx, hm⟩ := h.exists_of_mem hm
  rw [← Bool.not_eq_true]
  intro hcontains
  exact hnew (eq_of_contains_base (h.plain x hx) hlogin.plain hm hcontains ▸ hx)

theorem grep_image (h : Sessions users s) (hlogin : login.Regular)
    (hclear : ∀ x ∈ users, ¬ login.user <+: x) (tree : Nodes Str (Content Str)) :
    System.grep { s with mounts := baseMount login.user :: s.mounts, tree := tree }
      (userPersistentImage login.user) = 0 := by
  have hpattern : "/mnt/homes/".toList <+: userPersistentImage login.user := by
    unfold userPersistentImage
    exact List.prefix_append _ _
  refine QuietLines.grep_eq_zero (s := { s with mounts := _, tree := tree }) h.bootLines (by simp)
    hpattern fun m hm => ?_
  rcases List.mem_cons.mp hm with rfl | hm
  · exact not_contains_image_base hlogin.plain hlogin.plain
  · obtain ⟨x, hx, hm⟩ := h.exists_of_mem hm
    rw [← Bool.not_eq_true]
    intro hcontains
    exact hclear x hx (prefix_of_contains_image (h.plain x hx) hlogin.plain hm hcontains)

theorem grep_home (h : Sessions users s) (hlogin : login.Regular)
    (hclear : ∀ x ∈ users, ¬ Hides x login.user) (tree : Nodes Str (Content Str))
    (kept : List (Location Str)) :
    System.grep { s with
      mounts := imageMount login.user :: baseMount login.user :: s.mounts
      tree := tree
      kept := kept } (home login.user) = 0 := by
  have hpattern : "/home/".toList <+: home login.user := by
    unfold home
    exact List.prefix_append _ _
  refine QuietLines.grep_eq_zero (s := { s with mounts := _, tree := tree, kept := kept })
    h.bootLines (by simp) hpattern fun m hm => ?_
  rw [List.mem_cons, List.mem_cons, ← or_assoc] at hm
  rcases hm with hm | hm
  · exact not_contains_home_own hlogin.plain hm
  · obtain ⟨x, hx, hm⟩ := h.exists_of_mem hm
    rw [← Bool.not_eq_true]
    intro hcontains
    exact hclear x hx (hides_of_contains_home (h.plain x hx) hlogin.plain hm hcontains)

end Sessions

/-- The patterns that the script looks for. -/
def guards (user : Str) : List Str := [userBaseMountDir user, userPersistentImage user, home user]

/-- In these lines and those of sessions, `grep` finds the paths of the user where they are written
literally. -/
def Literal (grep : System → Str → ℕ) (lines : List Str) (user : Str) : Prop :=
  ∀ s : System, s.bootLines = lines → (∀ m ∈ s.mounts, ∃ x, PlainName x ∧ m ∈ sessionMounts x) →
    ∀ pattern ∈ guards user, grep s pattern = s.grep pattern

theorem literal_grep (lines : List Str) (user : Str) : Literal System.grep lines user :=
  fun _ _ _ _ _ => rfl

/-- The lines of the mounts that the system has made name no directory `.mounts`, also when the
dot stands for any character. -/
def QuietBasic (lines : List Str) : Prop :=
  ∀ line ∈ lines, grepMatches "/mnt/.mounts/".toList line = false

/-- Names without special characters are found literally by basic regular expressions. -/
theorem literal_grepBasic {lines : List Str} {user : Str} (hplain : PlainName user)
    (hbasic : ∀ c ∈ user, isBasicSpecial c = false) (hlines : QuietLines lines)
    (hquiet : QuietBasic lines) : Literal System.grepBasic lines user := by
  have hdot : '.' ∉ user := fun hmem => absurd (hbasic '.' hmem) (by decide)
  intro s hs hmounts pattern hpattern
  refine congrArg List.length (List.filter_congr fun line hline => ?_)
  simp only [guards, List.mem_cons, List.not_mem_nil, or_false] at hpattern
  rcases hpattern with rfl | rfl | rfl
  · rcases List.mem_append.mp hline with hline | hline
    · -- a line of the system has neither
      rw [hs] at hline
      obtain ⟨rest, hrest⟩ : ∃ rest, userBaseMountDir user = "/mnt/.mounts/".toList ++ rest :=
        ⟨user ++ "/base".toList, List.append_assoc _ _ _⟩
      have hpattern := hquiet line hline
      have htext := hlines line hline "/mnt/.mounts/" (by simp)
      rw [hrest, Bool.eq_iff_iff]
      generalize "/mnt/.mounts/".toList = dir at hpattern htext
      refine iff_of_false (fun h => ?_) fun h => ?_
      · rw [grepMatches_of_append h] at hpattern
        cases hpattern
      · have hinfix := (List.prefix_append dir rest).isInfix.trans (contains_iff.mp h)
        rw [contains_iff.mpr hinfix] at htext
        cases htext
    · obtain ⟨m, hm, rfl⟩ := List.mem_map.mp hline
      obtain ⟨x, hx, hm⟩ := hmounts m (List.mem_reverse.mp hm)
      exact grepMatches_base hx hplain hdot hm
  · refine grepMatches_of_notMem (List.mem_append.not.mpr (not_or.mpr ⟨by decide, hdot⟩))
  · refine grepMatches_of_notMem (List.mem_append.not.mpr (not_or.mpr ⟨by decide, hdot⟩))

/-- While a session of a user is opened, `grep` finds what is there literally. -/
theorem Sessions.grep_eq {users : List Str} {user : Str} {s : System} {grep : System → Str → ℕ}
    (h : Sessions users s) (hplain : PlainName user) (hgrep : Literal grep s.bootLines user)
    (own : List Mount) (hown : own ⊆ sessionMounts user) (tree : Nodes Str (Content Str))
    (kept : List (Location Str)) {pattern : Str} (hpattern : pattern ∈ guards user) :
    grep ⟨s.bootLines, own ++ s.mounts, tree, kept⟩ pattern =
      System.grep ⟨s.bootLines, own ++ s.mounts, tree, kept⟩ pattern := by
  refine hgrep ⟨s.bootLines, own ++ s.mounts, tree, kept⟩ rfl (fun m hm => ?_) pattern hpattern
  rcases List.mem_append.mp hm with hm | hm
  · exact ⟨user, hplain, hown hm⟩
  · obtain ⟨x, hx, hm⟩ := h.exists_of_mem hm
    exact ⟨x, h.plain x hx, hm⟩

/-! ### Opening a session -/

section

variable {grep : System → Str → ℕ} {glob : System → Str → List Str} {login : Login}
  {users : List Str} {s : System}

theorem mountHome_eq (hlogin : login.Regular)
    (hscript : ∀ path ∈ ["/lapas/common.sh", "/lapas/lapas-api.env", "/.lapasUser"],
      s.isfile (components path.toList) = true) :
    mountHome grep glob login s = (do
      let s ← createImage glob login s
      let s ← mountBase grep glob login s
      let s ← mountImage grep glob login s
      let s ← applyKeep glob login s
      mountHomeOverlay grep glob login s) := by
  have hcommon := hscript "/lapas/common.sh" (by simp)
  have henv := hscript "/lapas/lapas-api.env" (by simp)
  have hmode := hscript "/.lapasUser" (by simp)
  unfold mountHome
  simp only [hcommon, henv, hmode, hlogin.gid]
  simp [hlogin.ne_baseuserName]

theorem Sessions.mountHome_eq (h : Sessions users s) (hlogin : login.Regular) :
    mountHome grep glob login s = (do
      let s ← createImage glob login s
      let s ← mountBase grep glob login s
      let s ← mountImage grep glob login s
      let s ← applyKeep glob login s
      mountHomeOverlay grep glob login s) := by
  refine Guest.mountHome_eq hlogin fun path hpath => System.isfile_iff.mpr ?_
  rw [System.look_of_locate (h.locate_outside (outside_script hpath))]
  exact h.ready.script path hpath

/-! #### A new user -/

/-- Where the paths of a new user lead, once the directory of the base user is mounted. -/
theorem Sessions.locate_over_base (h : Sessions users s) (hplain : PlainName login.user)
    (hnew : login.user ∉ users) {p : List Str}
    (hp : p <+: persistentPath login.user ∨ p = imagePath login.user) :
    Lapas.locate ((baseMount login.user).mountPoint :: s.mounts.map Mount.mountPoint) p =
      .tree p := by
  rw [mountPoint_base hplain]
  rcases hp with hp | rfl
  · rw [locate_cons_of_not_above fun hbelow =>
      absurd (hbelow.trans hp) (by simp [basePath, persistentPath, mountPath])]
    exact h.locate_own hnew ((ownPath_mountPath login.user _).above hp)
  · rw [locate_cons_of_not_above (by simp [basePath, mountPath, imagePath, homesPath])]
    exact h.locate_outside (outside_imagePath login.user)

/-- And where his home leads, once his image is mounted. -/
theorem Sessions.locate_home (h : Sessions users s) (hplain : PlainName login.user)
    (hnew : login.user ∉ users) {p : List Str} (hp : p <+: homePath login.user) :
    Lapas.locate ((imageMount login.user).mountPoint :: (baseMount login.user).mountPoint ::
      s.mounts.map Mount.mountPoint) p = .tree p := by
  rw [mountPoint_image hplain, mountPoint_base hplain,
    locate_cons_of_not_above fun hbelow =>
      absurd (hbelow.trans hp) (by simp [persistentPath, mountPath, homePath]),
    locate_cons_of_not_above fun hbelow =>
      absurd (hbelow.trans hp) (by simp [basePath, mountPath, homePath])]
  exact h.locate_own hnew ((ownPath_homePath login.user).above hp)

variable (glob) in
/-- The first two stages of the first session of a user. -/
theorem Sessions.mountBase_eq (h : Sessions users s) (hlogin : login.Regular)
    (hgrep : Literal grep s.bootLines login.user) (hnew : login.user ∉ users) :
    ∃ tree₁ tree₂, createImage glob login s = .ok { s with tree := tree₁ } ∧
      mountBase grep glob login { s with tree := tree₁ } = .ok { s with
        mounts := baseMount login.user :: s.mounts
        tree := tree₂ } ∧
      Ready tree₂ ∧
      tree₂ (imagePath login.user) = some (.file (.ext4 (volumeOf s.tree login.user))) ∧
      Intact (volumeOf s.tree login.user) ∧ SameImages login.user s.tree tree₂ := by
  have himage := fun p (hp : p <+: imagePath login.user) => h.locate_own hnew
    (((outside_imagePath login.user).ownPath login.user).above hp)
  have hbase := fun p (hp : p <+: basePath login.user) => h.locate_own hnew
    ((ownPath_mountPath login.user _).above hp)
  have hhome : s.locate homeBasePath = .tree homeBasePath := by
    have houtside := outside_homeBase []
    rw [List.append_nil] at houtside
    exact h.locate_outside houtside
  obtain ⟨tree, hcreate, hready, hvolume, hintact, hsame⟩ :=
    createImage_eq glob hlogin h.ready himage
  have hguard := (h.grep_eq hlogin.plain hgrep [] (List.nil_subset _) tree s.kept
    (by simp [guards])).trans (h.grep_base hlogin hnew)
  refine ⟨tree, _, hcreate, Guest.mountBase_eq (s := { s with tree := tree }) hlogin hready
    hguard hbase hhome, hready.created List.mem_cons_self,
    Nodes.created_of_some hvolume, hintact, ?_⟩
  exact hsame.trans (sameImages_created List.mem_cons_self)

variable (glob) in
/-- The next two stages, when nobody's name begins with that of the user. -/
theorem Sessions.applyKeep_eq (h : Sessions users s) (hlogin : login.Regular)
    (hgrep : Literal grep s.bootLines login.user) (hnew : login.user ∉ users)
    (hclear : ∀ x ∈ users, ¬ login.user <+: x)
    {tree volume : Nodes Str (Content Str)} (hready : Ready tree)
    (hvolume : tree (imagePath login.user) = some (.file (.ext4 volume)))
    (hintact : Intact volume) :
    ∃ s₃ tree₄ kept, mountImage grep glob login
        { s with mounts := baseMount login.user :: s.mounts, tree := tree } = .ok s₃ ∧
      applyKeep glob login s₃ = .ok { s with
        mounts := imageMount login.user :: baseMount login.user :: s.mounts
        tree := tree₄
        kept := kept } ∧
      Ready tree₄ ∧
      tree₄ (imagePath login.user) =
        some (.file (.ext4 (sweptOnce login.keepEngine (prepared volume)))) ∧
      InUse (sweptOnce login.keepEngine (prepared volume)) ∧
      SameImages login.user tree tree₄ ∧
      .image (imagePath login.user) ["upper".toList] ∈ kept ∧
      ∀ x, x ≠ login.user → .image (imagePath x) ["upper".toList] ∈ s.kept →
        .image (imagePath x) ["upper".toList] ∈ kept := by
  have hplain := hlogin.plain
  -- no line of `mount` holds the image of this user, so it is mounted
  have hguard := (h.grep_eq hplain hgrep [baseMount login.user] (by simp [sessionMounts]) tree
    s.kept (by simp [guards])).trans (h.grep_image hlogin hclear tree)
  obtain ⟨tree₃, hmount, hready₃, hvolume₃', huse, hsame₃⟩ :=
    mountImage_eq glob (s := { s with mounts := baseMount login.user :: s.mounts, tree := tree })
      hlogin hready hguard
      (fun p hp => h.locate_over_base hplain hnew (Or.inl hp))
      (h.locate_over_base hplain hnew (Or.inr rfl)) hvolume hintact
  obtain ⟨s₃, hs₃⟩ : ∃ s₃ : System, s₃ = { s with
      mounts := imageMount login.user :: baseMount login.user :: s.mounts
      tree := tree₃
      kept := s.kept.filter fun location => !System.inImage (imagePath login.user) location } :=
    ⟨_, rfl⟩
  have hmounted : MountedAt login.user s₃ := hs₃ ▸ locate_persistentPath hplain _
  have hrules : s₃.locate (basePath login.user ++ [".keep".toList]) =
      .tree (homeBasePath ++ [".keep".toList]) := by
    rw [hs₃]
    exact (locate_basePath hplain _ _).trans (h.locate_outside (outside_homeBase _))
  have hvolume₃ : s₃.tree (imagePath login.user) = some (.file (.ext4 (prepared volume))) := by
    rw [hs₃]
    exact hvolume₃'
  -- the marker was removed when the image was mounted, so `keepEngine` runs
  have hmarker : isMarked (prepared volume) = true →
      .image (imagePath login.user) ["upper".toList] ∈ s₃.kept := by
    intro hmarker
    rw [prepared, isMarked_unmarked] at hmarker
    cases hmarker
  obtain ⟨tree₄, kept, hkeep, hready₄, hvolume₄, huse₄, hsame₄, hsubset, hmem⟩ :=
    Guest.applyKeep_eq glob hlogin (hs₃ ▸ hready₃) hmounted hrules hvolume₃ huse hmarker
  refine ⟨s₃, tree₄, kept, hs₃ ▸ hmount, ?_, hready₄, hvolume₄, huse₄, hsame₃.trans ?_, hmem, ?_⟩
  · rw [hkeep, hs₃]
  · rw [hs₃] at hsame₄
    exact hsame₄
  · intro x hx hkept
    refine hsubset ?_
    rw [hs₃]
    refine List.mem_filter.mpr ⟨hkept, ?_⟩
    simpa [System.inImage, imagePath] using hx

variable (glob) in
/-- **The first session of a user** that nobody hides. -/
theorem Sessions.open_new (h : Sessions users s) (hlogin : login.Regular)
    (hgrep : Literal grep s.bootLines login.user) (hnew : login.user ∉ users)
    (hclear : ∀ x ∈ users, ¬ Hides x login.user) :
    ∃ s', mountHome grep glob login s = .ok s' ∧ Sessions (login.user :: users) s' ∧
      s'.bootLines = s.bootLines ∧
      volumeOf s'.tree login.user =
        sweptOnce login.keepEngine (prepared (volumeOf s.tree login.user)) ∧
      SameImages login.user s.tree s'.tree := by
  have hplain := hlogin.plain
  -- the four parts of the script, each with the state that it leaves for the next
  obtain ⟨tree₁, tree₂, hcreate, hbase, hready₂, hvolume₂, hintact, hsame₂⟩ :=
    h.mountBase_eq glob hlogin hgrep hnew
  obtain ⟨s₃, tree₄, kept, hmount, hkeep, hready₄, hvolume, huse, hsame₄, hmem, hothers⟩ :=
    h.applyKeep_eq glob hlogin hgrep hnew (fun x hx hprefix => hclear x hx (Or.inl hprefix)) hready₂
      hvolume₂ hintact
  have hhomeBase := (locate_basePath hplain (s.mounts.map Mount.mountPoint) []).trans
    (h.locate_outside (outside_homeBase []))
  rw [List.append_nil, List.append_nil] at hhomeBase
  have hguard := (h.grep_eq hplain hgrep [imageMount login.user, baseMount login.user]
    (by simp [sessionMounts]) tree₄ kept (by simp [guards])).trans
    (h.grep_home hlogin hclear tree₄ kept)
  have hoverlay := mountHomeOverlay_eq glob (s := { s with
      mounts := imageMount login.user :: baseMount login.user :: s.mounts
      tree := tree₄
      kept := kept })
    hlogin hready₄ hguard
    (fun p hp => h.locate_home hplain hnew hp) hhomeBase (locate_persistentPath hplain _)
    hvolume huse
  refine ⟨_, (h.mountHome_eq hlogin).trans ((bind_of_ok hcreate _).trans
    ((bind_of_ok hbase _).trans ((bind_of_ok hmount _).trans ((bind_of_ok hkeep _).trans
      hoverlay)))), ?_⟩
  -- the mount point of the home is the last thing that the script makes in the tree
  have hmade : homePath login.user ∈ madeFor login.user := by simp [madeFor]
  have hvolume₅ : tree₄.created (homePath login.user) (imagePath login.user) = some (.file (.ext4
      (sweptOnce login.keepEngine (prepared (volumeOf s.tree login.user))))) :=
    Nodes.created_of_some hvolume
  have hsame := hsame₂.trans (hsame₄.trans (sameImages_created hmade))
  refine ⟨⟨List.forall_mem_cons.mpr ⟨hplain, h.plain⟩, h.bootLines, ?_, hready₄.created hmade,
    List.forall_mem_cons.mpr ⟨⟨_, hvolume₅, huse⟩, fun x hx => ?_⟩,
    List.forall_mem_cons.mpr ⟨hmem, fun x hx => ?_⟩⟩, rfl, volumeOf_of_eq hvolume₅, hsame⟩
  · rw [List.flatMap_cons, ← h.mounts]
    rfl
  · obtain ⟨volume', hvolume', huse'⟩ := h.image x hx
    exact ⟨volume', (hsame x fun heq => hnew (heq ▸ hx)).trans hvolume', huse'⟩
  · exact hothers x (fun heq => hnew (heq ▸ hx)) (h.kept x hx)

/-! #### A user that is back -/

theorem System.grep_ne_zero {s : System} {pattern : Str} {m : Mount} (hm : m ∈ s.mounts)
    (h : contains pattern m.line = true) : s.grep pattern ≠ 0 := fun hzero =>
  absurd ((System.grep_eq_zero.mp hzero).2 m hm ▸ h) Bool.false_ne_true

variable (glob) in
/-- **Another session of a user.** -/
theorem Sessions.open_again (h : Sessions users s) (hlogin : login.Regular)
    (hgrep : Literal grep s.bootLines login.user) (hmem : login.user ∈ users) :
    ∃ s', mountHome grep glob login s = .ok s' ∧ Sessions users s' ∧
      s'.bootLines = s.bootLines ∧
      volumeOf s'.tree login.user = sweptOnce login.keepEngine (volumeOf s.tree login.user) ∧
      SameImages login.user s.tree s'.tree := by
  have hplain := hlogin.plain
  have hmounts : ∀ m ∈ sessionMounts login.user, m ∈ s.mounts := fun m hm =>
    h.mounts ▸ List.mem_flatMap_of_mem hmem hm
  obtain ⟨volume, hvolume, huse⟩ := h.image login.user hmem
  have hcreate : createImage glob login s = .ok s := by
    refine if_pos (System.isfile_iff.mpr ⟨.ext4 volume, ?_⟩)
    rw [components_image hplain, System.look_of_locate (h.locate_outside (outside_imagePath _))]
    exact hvolume
  -- all guards find the mounts of the first session
  have hfires : ∀ m ∈ sessionMounts login.user, ∀ pattern ∈ guards login.user,
      contains pattern m.line = true → ∀ tree kept,
        grep { s with tree := tree, kept := kept } pattern ≠ 0 := by
    intro m hm pattern hpattern hcontains tree kept
    rw [← List.nil_append s.mounts, h.grep_eq hplain hgrep [] (List.nil_subset _) tree kept
      hpattern]
    exact System.grep_ne_zero (hmounts m hm) hcontains
  have hbase : mountBase grep glob login s = .ok s :=
    if_neg (hfires (baseMount login.user) (by simp [sessionMounts]) _ (by simp [guards])
      (contains_base login.user) s.tree s.kept)
  have hmount : mountImage grep glob login s = .ok s :=
    if_neg (hfires (imageMount login.user) (by simp [sessionMounts]) _ (by simp [guards])
      (contains_image login.user) s.tree s.kept)
  have hrules : s.locate (basePath login.user ++ [".keep".toList]) =
      .tree (homeBasePath ++ [".keep".toList]) := h.locate_base hmem _
  obtain ⟨tree, kept, hkeep, hready, hvolume', huse', hsame, hsubset, hkept⟩ :=
    Guest.applyKeep_eq glob hlogin h.ready (h.mountedAt hmem) hrules hvolume huse
      fun _ => h.kept login.user hmem
  have hoverlay : mountHomeOverlay grep glob login { s with tree := tree, kept := kept } =
      .ok { s with tree := tree, kept := kept } := by
    refine if_neg ?_
    rw [hlogin.loginuserHome]
    exact hfires (overlayMount login.user) (by simp [sessionMounts]) _ (by simp [guards])
      (contains_home List.prefix_rfl) tree kept
  refine ⟨_, (h.mountHome_eq hlogin).trans ((bind_of_ok hcreate _).trans
    ((bind_of_ok hbase _).trans ((bind_of_ok hmount _).trans ((bind_of_ok hkeep _).trans
      hoverlay)))), ?_⟩
  refine ⟨⟨h.plain, h.bootLines, h.mounts, hready, fun x hx => ?_,
    fun x hx => hsubset (h.kept x hx)⟩, rfl, ?_, hsame⟩
  · by_cases hxu : x = login.user
    · exact hxu ▸ ⟨_, hvolume', huse'⟩
    · obtain ⟨volume', hvolume', huse'⟩ := h.image x hx
      exact ⟨volume', (hsame x hxu).trans hvolume', huse'⟩
  · rw [volumeOf_of_eq hvolume]
    exact volumeOf_of_eq hvolume'

/-! #### A user that is hidden -/

/-- **The session of a user that is hidden** does not log him in. -/
theorem Sessions.not_loggedIn (h : Sessions users s) (hlogin : login.Regular)
    (hnew : login.user ∉ users) {x : Str} (hx : x ∈ users) (hhides : Hides x login.user)
    {s' : System} (hopen : mountHome System.grep glob login s = .ok s') :
    ¬ LoggedIn login.user s' := by
  have hplain := hlogin.plain
  obtain ⟨tree₁, tree₂, hcreate, hbase, hready₂, hvolume₂, hintact, -⟩ :=
    h.mountBase_eq glob hlogin (literal_grep _ _) hnew
  rw [h.mountHome_eq hlogin, bind_of_ok hcreate, bind_of_ok hbase] at hopen
  obtain ⟨s₃, hmount, hopen⟩ := exists_of_bind_ok hopen
  obtain ⟨s₄, hkeep, hoverlay⟩ := exists_of_bind_ok hopen
  -- his image may be mounted, but his home is not
  have hmounts₃ : s₃.mounts = baseMount login.user :: s.mounts ∨
      s₃.mounts = imageMount login.user :: baseMount login.user :: s.mounts := by
    by_cases hgrep : System.grep
        { s with mounts := baseMount login.user :: s.mounts, tree := tree₂ }
        (userPersistentImage login.user) = 0
    · obtain ⟨tree₃, hmount', -⟩ := mountImage_eq glob hlogin hready₂ hgrep
        (fun p hp => h.locate_over_base hplain hnew (Or.inl hp))
        (h.locate_over_base hplain hnew (Or.inr rfl)) hvolume₂ hintact
      rw [hmount] at hmount'
      cases hmount'
      exact Or.inr rfl
    · have hmount' : mountImage System.grep glob login
          { s with mounts := baseMount login.user :: s.mounts, tree := tree₂ } = .ok _ :=
        if_neg hgrep
      rw [hmount] at hmount'
      cases hmount'
      exact Or.inl rfl
  rw [← applyKeep_mounts hplain hkeep] at hmounts₃
  obtain ⟨m, hm, hcontains⟩ := exists_contains_home hhides
  have hmem : m ∈ s₄.mounts := by
    have hmem : m ∈ s.mounts := h.mounts ▸ List.mem_flatMap_of_mem hx hm
    rcases hmounts₃ with hmounts | hmounts <;> rw [hmounts] <;> simp [hmem]
  have hfired : mountHomeOverlay System.grep glob login s₄ = .ok s₄ := by
    refine if_neg ?_
    rw [hlogin.loginuserHome]
    exact System.grep_ne_zero hmem hcontains
  rw [hfired] at hoverlay
  cases hoverlay
  intro hlogged
  obtain ⟨lower, hlocate⟩ := hlogged.home
  have htree : s'.locate (homePath login.user) = .tree (homePath login.user) := by
    rcases hmounts₃ with hmounts | hmounts <;> rw [System.locate, hmounts]
    · rw [List.map_cons, mountPoint_base hplain, locate_cons_of_not_above (by
        simp [basePath, mountPath, homePath])]
      exact h.locate_own hnew (ownPath_homePath login.user)
    · exact h.locate_home hplain hnew List.prefix_rfl
  change s'.locate (components (home login.user)) = _ at hlocate
  rw [components_home hplain, htree] at hlocate
  cases hlocate

end

/-! ### Runs of logins -/

/-- Every session is opened, and its user is logged in then.  Mounts are found by the text of their
paths. -/
def Independent (glob : System → Str → List Str) : System → List Login → Prop
  | _, [] => True
  | s, login :: logins =>
    ∃ s', mountHome System.grep glob login s = .ok s' ∧ LoggedIn login.user s' ∧
      Independent glob s' logins

/-- Everyone has logged in before, or is hidden by nobody who has. -/
def Unobstructed (before : List Str) : List Str → Prop
  | [] => True
  | user :: users =>
    (user ∈ before ∨ ∀ x ∈ before, ¬ Hides x user) ∧ Unobstructed (user :: before) users

instance : ∀ before users, Decidable (Unobstructed before users)
  | _, [] => inferInstanceAs (Decidable True)
  | before, user :: users =>
    have := instDecidableUnobstructed (user :: before) users
    inferInstanceAs (Decidable (_ ∧ _))

theorem unobstructed_congr {before before' : List Str} (h : ∀ x, x ∈ before ↔ x ∈ before')
    (users : List Str) : Unobstructed before users ↔ Unobstructed before' users := by
  induction users generalizing before before' with
  | nil => exact Iff.rfl
  | cons user users ih =>
    refine and_congr (or_congr (h user) (forall_congr' fun x => imp_congr_left (h x)))
      (ih fun x => ?_)
    rw [List.mem_cons, List.mem_cons, h x]

section

variable {glob : System → Str → List Str} {users : List Str} {s : System}

theorem independent_cons {login : Login} {s' : System}
    (hopen : mountHome System.grep glob login s = .ok s') (hlogged : LoggedIn login.user s')
    (logins : List Login) :
    Independent glob s (login :: logins) ↔ Independent glob s' logins := by
  refine ⟨?_, fun h => ⟨s', hopen, hlogged, h⟩⟩
  rintro ⟨s'', hopen', -, h⟩
  rw [hopen] at hopen'
  cases hopen'
  exact h

theorem Sessions.run_iff (h : Sessions users s) {logins : List Login}
    (hlogins : ∀ login ∈ logins, login.Regular) :
    Independent glob s logins ↔ Unobstructed users (logins.map (·.user)) := by
  induction logins generalizing users s with
  | nil => exact Iff.rfl
  | cons login logins ih =>
    obtain ⟨hlogin, hlogins⟩ := List.forall_mem_cons.mp hlogins
    rw [List.map_cons, Unobstructed]
    by_cases hmem : login.user ∈ users
    · obtain ⟨s', hopen, h', -⟩ := h.open_again glob hlogin (literal_grep _ _) hmem
      rw [independent_cons hopen (h'.loggedIn hmem), ih h' hlogins, and_iff_right (Or.inl hmem)]
      refine unobstructed_congr (fun x => ?_) _
      rw [List.mem_cons, or_iff_right_of_imp fun heq => heq ▸ hmem]
    · by_cases hclear : ∀ x ∈ users, ¬ Hides x login.user
      · obtain ⟨s', hopen, h', -⟩ := h.open_new glob hlogin (literal_grep _ _) hmem hclear
        rw [independent_cons hopen (h'.loggedIn List.mem_cons_self), ih h' hlogins,
          and_iff_right (Or.inr hclear)]
      · refine iff_of_false ?_ fun hun => hun.1.elim hmem hclear
        rintro ⟨s', hopen, hlogged, -⟩
        push Not at hclear
        obtain ⟨x, hx, hhides⟩ := hclear
        exact h.not_loggedIn hlogin hmem hx hhides hopen hlogged

/-- **Runs of logins.**  On a guest that has been booted in user mode, all sessions of a run are
opened as they should be exactly when nobody logs in for the first time after a user who hides
him: one whose name begins with his, or `home`, whose directories `base` and `overlay` are taken
for homes of users with such names. -/
theorem independent_iff (hs : Booted s) {logins : List Login}
    (hlogins : ∀ login ∈ logins, login.Regular) :
    Independent glob s logins ↔ Unobstructed [] (logins.map (·.user)) :=
  hs.sessions.run_iff hlogins

end

/-! ### Bob and Bobby -/

/-- The files of a guest that nobody has used yet. -/
def bootedTree : Nodes Str (Content Str) := fun path =>
  if path ∈ [[], ["mnt".toList], homesPath, homeBasePath, ["lapas".toList]] then some .dir
  else if path ∈ [homeBasePath ++ [".keep".toList], ["lapas".toList, "common.sh".toList],
      ["lapas".toList, "lapas-api.env".toList], [".lapasUser".toList],
      imagePath "USER_INDEX".toList] then some (.file .data)
  else none

/-- A guest that has just been booted, with the images on the server. -/
def bootedSystem : System where
  bootLines := ["192.168.42.1:/homes on /mnt/homes type nfs4 (rw,relatime)".toList]
  mounts := []
  tree := bootedTree
  kept := []

theorem bootedTree_image {user : Str} (hplain : PlainName user) :
    bootedTree (imagePath user) = none := by
  have hne := hplain.ne_index
  refine (if_neg ?_).trans (if_neg ?_)
  · simp [imagePath, homesPath, homeBasePath]
  · simpa [imagePath, homesPath, homeBasePath] using hne

theorem ready_bootedTree : Ready bootedTree where
  root := if_pos (by decide)
  homes := if_pos (by decide)
  homeBase := if_pos (by decide)
  rules := ⟨.data, (if_neg (by decide)).trans (if_pos (by decide))⟩
  script path hpath := by
    refine ⟨.data, ?_⟩
    simp only [List.mem_cons, List.not_mem_nil, or_false] at hpath
    rcases hpath with rfl | rfl | rfl <;>
      exact (if_neg (by decide)).trans (if_pos (by decide))
  image _ hplain := Or.inl (bootedTree_image hplain)
  free user hplain path hpath p hp := by
    have hfile : p ∉ [homeBasePath ++ [".keep".toList], ["lapas".toList, "common.sh".toList],
        ["lapas".toList, "lapas-api.env".toList], [".lapasUser".toList],
        imagePath "USER_INDEX".toList] := by
      intro hfile
      simp only [madeFor, List.mem_cons, List.not_mem_nil, or_false] at hpath hfile
      rcases hfile with rfl | rfl | rfl | rfl | rfl <;> rcases hpath with rfl | rfl | rfl <;>
        simp [homeBasePath, imagePath, homesPath, basePath, persistentPath, mountPath,
          homePath] at hp
    unfold bootedTree
    rw [if_neg hfile]
    split
    · exact Or.inr rfl
    · exact Or.inl rfl

theorem booted_bootedSystem : Booted bootedSystem where
  bootLines := by
    unfold QuietLines
    decide
  mounts := rfl
  ready := ready_bootedTree

/-- A session of one of two players. -/
def player (name : String) : Login where
  user := name.toList
  nss :=
    { files := [⟨baseuserName, "x".toList, 1000, 1000, [], userBaseDir, "/bin/bash".toList⟩]
      lapas := [⟨10000, "bobby"⟩, ⟨10001, "bob"⟩] }
  keepEngine := ⟨fun files => files, fun _ => rfl⟩

theorem regular_player {name : String} (h : name ∈ ["bobby", "bob"]) : (player name).Regular := by
  have hplain : PlainName name.toList := by
    simp only [List.mem_cons, List.not_mem_nil, or_false] at h
    rcases h with rfl | rfl <;>
      exact ⟨all_eq_false_iff.mp (by decide), by decide, by decide, by decide, by decide⟩
  refine ⟨hplain, ?_, ?_, ⟨_, rfl, rfl⟩⟩
  · simp only [List.mem_cons, List.not_mem_nil, or_false] at h
    rcases h with rfl | rfl
    · exact ⟨⟨10000, "bobby"⟩, by simp [player], rfl⟩
    · exact ⟨⟨10001, "bob"⟩, by simp [player], rfl⟩
  · simp only [List.mem_cons, List.not_mem_nil, or_false] at h
    rcases h with rfl | rfl <;> simp [player, baseuserName]

/-- Bob comes first, and comes back. -/
theorem independent_iff_bob :
    Independent (fun _ _ => []) bootedSystem [player "bob", player "bobby", player "bob"] := by
  refine (independent_iff booted_bootedSystem ?_).mpr (by decide)
  simp only [List.mem_cons, List.not_mem_nil, or_false, forall_eq_or_imp, forall_eq]
  exact ⟨regular_player (by simp), regular_player (by simp), regular_player (by simp)⟩

/-- Bobby comes first, and Bob does not get his home. -/
theorem not_independent_bobby : Booted bootedSystem ∧
    (∀ login ∈ [player "bobby", player "bob"], login.Regular) ∧
      ¬ Independent (fun _ _ => []) bootedSystem [player "bobby", player "bob"] := by
  have hregular : ∀ login ∈ [player "bobby", player "bob"], login.Regular := by
    simp only [List.mem_cons, List.not_mem_nil, or_false, forall_eq_or_imp, forall_eq]
    exact ⟨regular_player (by simp), regular_player (by simp)⟩
  refine ⟨booted_bootedSystem, hregular, ?_⟩
  rw [booted_bootedSystem.sessions.run_iff hregular]
  decide

end Guest
end Lapas
