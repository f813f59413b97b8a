import Lapas.Guest.OpenSession

/-!
# The stages of a session

What the five parts of `mountHome.sh` do, for a player whose paths lead where they should.

## Main definitions

* `Ready` — the files of a guest that sessions can be opened on.
* `Intact`, `InUse` — the file systems in the images of players.
* `MountedAt`, `SameImages` — where an image is, and what happens to the others.
* `volumeOf`, `prepared`, `sweptOnce` — the file system in an image, and what the stages make of
  it.

## Main results

* `createImage_eq`, `mountBase_eq`, `mountImage_eq`, `applyKeep_eq`, `mountHomeOverlay_eq` — the
  stages succeed, and this is what they leave behind.
* `applyKeep_mounts` — the cleanup mounts nothing, also when it works on the wrong directory.
-/

namespace Lapas
namespace Guest

open Shell

/-! ### What a guest has ready -/

/-- A file system that is empty, or that has been in use by sessions. -/
structure Intact (volume : Nodes Str (Content Str)) : Prop where
  root : volume [] = some .dir
  upper : volume ["upper".toList] = none ∨ volume ["upper".toList] = some .dir
  work : volume ["work".toList] = none ∨ volume ["work".toList] = some .dir

/-- A file system that a session uses. -/
structure InUse (volume : Nodes Str (Content Str)) : Prop where
  root : volume [] = some .dir
  upper : volume ["upper".toList] = some .dir
  work : volume ["work".toList] = some .dir

theorem InUse.intact {volume : Nodes Str (Content Str)} (h : InUse volume) : Intact volume :=
  ⟨h.root, Or.inr h.upper, Or.inr h.work⟩

theorem intact_blank : Intact System.blank :=
  ⟨if_pos (Or.inl rfl), Or.inl (if_neg (by decide)), Or.inl (if_neg (by decide))⟩

/-- The directories that are made for a user. -/
def madeFor (user : Str) : List (List Str) := [basePath user, persistentPath user, homePath user]

/-- A guest that has been booted in user mode. -/
structure Ready (tree : Nodes Str (Content Str)) : Prop where
  root : tree [] = some .dir
  homes : tree homesPath = some .dir
  homeBase : tree homeBasePath = some .dir
  rules : ∃ content, tree (homeBasePath ++ [".keep".toList]) = some (.file content)
  script : ∀ path ∈ ["/lapas/common.sh", "/lapas/lapas-api.env", "/.lapasUser"],
    ∃ content, tree (components path.toList) = some (.file content)
  image : ∀ user, PlainName user → tree (imagePath user) = none ∨
    ∃ volume, tree (imagePath user) = some (.file (.ext4 volume)) ∧ Intact volume
  free : ∀ user, PlainName user → ∀ path ∈ madeFor user, ∀ p, p <+: path →
    tree p = none ∨ tree p = some .dir

theorem not_imagePath_above {user user' : Str} {path : List Str} (h : path ∈ madeFor user) :
    ¬ imagePath user' <+: path := by
  simp only [madeFor, List.mem_cons, List.not_mem_nil, or_false] at h
  rcases h with rfl | rfl | rfl <;>
    simp [imagePath, homesPath, basePath, persistentPath, mountPath, homePath]

namespace Ready

variable {tree : Nodes Str (Content Str)} {user : Str}

theorem created (h : Ready tree) {path : List Str} (hpath : path ∈ madeFor user) :
    Ready (tree.created path) where
  root := Nodes.created_of_some h.root
  homes := Nodes.created_of_some h.homes
  homeBase := Nodes.created_of_some h.homeBase
  rules := h.rules.imp fun _ => Nodes.created_of_some
  script := fun p hp => (h.script p hp).imp fun _ => Nodes.created_of_some
  image := fun user' hplain => by
    rw [Nodes.created_of_not_above (not_imagePath_above hpath)]
    exact h.image user' hplain
  free := fun user' hplain path' hpath' p hp => by
    rcases h.free user' hplain path' hpath' p hp with hnone | hdir
    · by_cases habove : p <+: path
      · rw [Nodes.created_of_above habove, hnone]
        exact Or.inr rfl
      · rw [Nodes.created_of_not_above habove]
        exact Or.inl hnone
    · exact Or.inr (Nodes.created_of_some hdir)

theorem put_image (h : Ready tree) {volume : Nodes Str (Content Str)} (hvolume : Intact volume) :
    Ready (tree.put (imagePath user) (.file (.ext4 volume))) where
  root := by
    rw [Nodes.put_of_ne (by simp [imagePath, homesPath])]
    exact h.root
  homes := by
    rw [Nodes.put_of_ne (by simp [imagePath, homesPath])]
    exact h.homes
  homeBase := by
    rw [Nodes.put_of_ne (by simp [imagePath, homesPath, homeBasePath])]
    exact h.homeBase
  rules := by
    rw [Nodes.put_of_ne (by simp [imagePath, homesPath, homeBasePath])]
    exact h.rules
  script := fun p hp => by
    have hhead : (components p.toList).head? ≠ some "mnt".toList := by
      simp only [List.mem_cons, List.not_mem_nil, or_false] at hp
      rcases hp with rfl | rfl | rfl <;> decide
    have hne : components p.toList ≠ imagePath user := fun heq => hhead (heq ▸ rfl)
    rw [Nodes.put_of_ne hne]
    exact h.script p hp
  image := fun user' hplain => by
    by_cases heq : imagePath user' = imagePath user
    · rw [heq, Nodes.put_self]
      exact Or.inr ⟨volume, rfl, hvolume⟩
    · rw [Nodes.put_of_ne heq]
      exact h.image user' hplain
  free := fun user' hplain path' hpath' p hp => by
    rw [Nodes.put_of_ne fun heq => not_imagePath_above hpath' (heq ▸ hp)]
    exact h.free user' hplain path' hpath' p hp

end Ready

theorem madeFor_dir {tree : Nodes Str (Content Str)} {user : Str} (h : Ready tree)
    (hplain : PlainName user) {path p : List Str} (hpath : path ∈ madeFor user) (hp : p <+: path) :
    tree.created path p = some .dir := by
  rw [Nodes.created_of_above hp]
  rcases h.free user hplain path hpath p hp with hnone | hdir
  · rw [hnone]
    rfl
  · rw [hdir]
    rfl

theorem mkdirs_madeFor {s : System} {user : Str} (h : Ready s.tree) (hplain : PlainName user)
    {path : List Str} (hpath : path ∈ madeFor user)
    (hloc : ∀ p, p <+: path → s.locate p = .tree p) :
    s.mkdirs [] path = some { s with tree := s.tree.created path } := by
  refine @System.mkdirs_tree s [] path ?_ hloc ?_ (h.free user hplain path hpath)
  · have hlength := hplain.length.2
    simp only [madeFor, List.mem_cons, List.not_mem_nil, or_false] at hpath
    rcases hpath with rfl | rfl | rfl <;>
      simp [basePath, persistentPath, mountPath, homePath, hlength] <;> decide
  · intro p hp
    rw [List.prefix_nil.mp hp]
    exact h.root

/-! ### The mounts of a session -/

section

variable {user : Str} (hplain : PlainName user)
include hplain

theorem mountPoint_base : (baseMount user).mountPoint = ⟨basePath user, .bind homeBasePath⟩ := by
  rw [← components_base hplain]
  rfl

theorem mountPoint_image :
    (imageMount user).mountPoint = ⟨persistentPath user, .image (imagePath user)⟩ := by
  rw [← components_persistent hplain, ← components_image hplain]
  rfl

theorem mountPoint_overlay : (overlayMount user).mountPoint =
    ⟨homePath user, .overlay (basePath user) (persistentPath user ++ ["upper".toList])⟩ := by
  rw [← components_home hplain, ← components_base hplain, ← components_upper hplain]
  rfl

end

/-! ### The image of a user -/

/-- The files of the guest, with this in the image of a user. -/
def System.withVolume (s : System) (user : Str) (volume : Nodes Str (Content Str)) : System :=
  { s with tree := s.tree.put (imagePath user) (.file (.ext4 volume)) }

@[simp] theorem System.withVolume_withVolume (s : System) (user : Str)
    (volume volume' : Nodes Str (Content Str)) :
    (s.withVolume user volume).withVolume user volume' = s.withVolume user volume' :=
  congrArg (fun tree => { s with tree := tree }) (Nodes.put_put _ _)

/-- The file system in the image of a user.  It is empty as long as there is no image. -/
def volumeOf (tree : Nodes Str (Content Str)) (user : Str) : Nodes Str (Content Str) :=
  match tree (imagePath user) with
  | some (.file (.ext4 volume)) => volume
  | _ => System.blank

theorem volumeOf_of_eq {tree : Nodes Str (Content Str)} {user : Str}
    {volume : Nodes Str (Content Str)} (h : tree (imagePath user) = some (.file (.ext4 volume))) :
    volumeOf tree user = volume := by
  rw [volumeOf, h]

/-- The place of the marker in a file system. -/
def marker : List Str := ["upper".toList, ".keepApplied".toList]

/-- Whether a file system holds the marker. -/
def isMarked (volume : Nodes Str (Content Str)) : Bool :=
  match volume marker with
  | some (.file _) => true
  | _ => false

/-- A file system without the marker, and with it. -/
def unmarked (volume : Nodes Str (Content Str)) : Nodes Str (Content Str) :=
  if isMarked volume then Function.update volume marker none else volume

/-- A file system after `touch` of the marker. -/
def marked (volume : Nodes Str (Content Str)) : Nodes Str (Content Str) :=
  if (volume marker).isSome then volume else volume.put marker (.file .data)

/-- What a file system is made into when it is mounted. -/
def prepared (volume : Nodes Str (Content Str)) : Nodes Str (Content Str) :=
  unmarked (Nodes.created (Nodes.created volume ["upper".toList]) ["work".toList])

/-- It is cleaned unless the marker says that it has been. -/
def sweptOnce (keepEngine : KeepEngine) (volume : Nodes Str (Content Str)) :
    Nodes Str (Content Str) :=
  if isMarked volume then volume
  else marked (System.swept keepEngine volume ["upper".toList])

theorem unmarked_of_ne {volume : Nodes Str (Content Str)} {path : List Str} (h : path ≠ marker) :
    unmarked volume path = volume path := by
  unfold unmarked
  split
  · exact Function.update_of_ne h none volume
  · rfl

theorem isMarked_unmarked (volume : Nodes Str (Content Str)) :
    isMarked (unmarked volume) = false := by
  unfold unmarked
  split
  · rw [isMarked, Function.update_self]
  · next hnot => exact Bool.not_eq_true _ ▸ hnot

theorem marked_of_ne {volume : Nodes Str (Content Str)} {path : List Str} (h : path ≠ marker) :
    marked volume path = volume path := by
  unfold marked
  split
  · rfl
  · exact Nodes.put_of_ne h _

/-- The image of a user is mounted in its place. -/
def MountedAt (user : Str) (s : System) : Prop :=
  ∀ rest, s.locate (persistentPath user ++ rest) = .image (imagePath user) rest

theorem MountedAt.look_withVolume {user : Str} {s : System} (h : MountedAt user s)
    (volume : Nodes Str (Content Str)) (rest : List Str) :
    (s.withVolume user volume).look (persistentPath user ++ rest) = volume rest :=
  System.look_of_locate_image (h rest) (Nodes.put_self _)

/-! ### The stages -/

section

variable {grep : System → Str → ℕ} {glob : System → Str → List Str} {login : Login} {s : System}

/-- The images of the other users are as before. -/
def SameImages (user : Str) (tree tree' : Nodes Str (Content Str)) : Prop :=
  ∀ x, x ≠ user → tree' (imagePath x) = tree (imagePath x)

theorem sameImages_put {tree : Nodes Str (Content Str)} (user : Str)
    (node : Node Str (Content Str)) :
    SameImages user tree (tree.put (imagePath user) node) := fun x hx =>
  Nodes.put_of_ne (fun heq => hx (by simpa [imagePath] using heq)) node

theorem sameImages_created {tree : Nodes Str (Content Str)} {user : Str} {path : List Str}
    (hpath : path ∈ madeFor user) : SameImages user tree (tree.created path) := fun _ _ =>
  Nodes.created_of_not_above (not_imagePath_above hpath)

theorem SameImages.trans {user : Str} {tree tree' tree'' : Nodes Str (Content Str)}
    (h : SameImages user tree tree') (h' : SameImages user tree' tree'') :
    SameImages user tree tree'' := fun x hx => (h' x hx).trans (h x hx)

variable (glob) in
theorem createImage_eq (hlogin : login.Regular) (hready : Ready s.tree)
    (hloc : ∀ p, p <+: imagePath login.user → s.locate p = .tree p) :
    ∃ tree, createImage glob login s = .ok { s with tree := tree } ∧ Ready tree ∧
      tree (imagePath login.user) = some (.file (.ext4 (volumeOf s.tree login.user))) ∧
      Intact (volumeOf s.tree login.user) ∧ SameImages login.user s.tree tree := by
  have hplain := hlogin.plain
  have hlook := System.look_of_locate (hloc _ List.prefix_rfl)
  have hargs := leftAlone_image hplain
  unfold createImage
  rw [components_image hplain]
  -- there is no image yet, or one with an intact file system
  rcases hready.image login.user hplain with hnone | ⟨volume, hvolume, hintact⟩
  · have hfile : s.isfile (imagePath login.user) = false := by
      rw [← Bool.not_eq_true, System.isfile_iff, hlook, hnone]
      rintro ⟨content, hcontent⟩
      cases hcontent
    have hhomes : s.look homesPath = some .dir := by
      rw [System.look_of_locate (hloc _ (List.prefix_append _ _))]
      exact hready.homes
    obtain ⟨data, hdata⟩ : ∃ data, data = s.tree.put (imagePath login.user) (.file .data) :=
      ⟨_, rfl⟩
    -- first the file, and then the file system in it
    have htruncate : assertSuccessfull glob login
        ["truncate".toList, "-s".toList, "16G".toList, userPersistentImage login.user] s =
          .ok { s with tree := data } := by
      refine assertSuccessfull_of_exec ?_ ?_
      · exact ⟨by decide, by decide, by decide, hargs⟩
      · rw [System.exec_truncate, System.truncate, components_image hplain, hlook, hnone, hdata]
        exact System.create_tree hplain.length.2 hhomes (hloc _ List.prefix_rfl) _
    have hmkfs : assertSuccessfull glob login
        ["/usr/sbin/mkfs.ext4".toList, "-m0".toList, userPersistentImage login.user]
          { s with tree := data } =
        .ok { s with
          tree := s.tree.put (imagePath login.user) (.file (.ext4 System.blank)) } := by
      refine assertSuccessfull_of_exec ?_ ?_
      · exact ⟨by decide, by decide, hargs⟩
      · rw [System.exec_mkfs, System.mkfs, components_image hplain]
        have hloc' : System.locate { s with tree := data } (imagePath login.user) =
            .tree (imagePath login.user) := hloc _ List.prefix_rfl
        rw [System.isfile_iff.mpr ⟨.data, ?_⟩, System.put, System.modify, hloc', hdata]
        · simp only [Nodes.modify, Nodes.put_put, if_true]
        · rw [System.look_of_locate hloc', hdata]
          exact Nodes.put_self _
    have hblank : volumeOf s.tree login.user = System.blank := by rw [volumeOf, hnone]
    rw [hblank]
    refine ⟨s.tree.put (imagePath login.user) (.file (.ext4 System.blank)), ?_,
      hready.put_image intact_blank, Nodes.put_self _, intact_blank, sameImages_put _ _⟩
    rw [hfile, htruncate]
    exact hmkfs
  · rw [volumeOf_of_eq hvolume]
    refine ⟨s.tree, ?_, hready, hvolume, hintact, fun _ _ => rfl⟩
    rw [System.isfile_iff.mpr ⟨_, hlook.trans hvolume⟩]
    rfl

/-- `mkdir -p` of a directory that is made for the user. -/
theorem mkdir_eq (hready : Ready s.tree) (hplain : PlainName login.user) {path : Str}
    {target : List Str} (hpath : LeftAlone ifs path) (hcomponents : components path = target)
    (hmade : target ∈ madeFor login.user) (hloc : ∀ p, p <+: target → s.locate p = .tree p) :
    assertSuccessfull glob login ["mkdir".toList, "-p".toList, path] s =
      .ok { s with tree := s.tree.created target } := by
  refine assertSuccessfull_of_exec ?_ ?_
  · exact ⟨by decide, by decide, hpath⟩
  · rw [System.exec_mkdir, hcomponents]
    exact mkdirs_madeFor hready hplain hmade hloc

theorem mountBase_eq (hlogin : login.Regular) (hready : Ready s.tree)
    (hgrep : grep s (userBaseMountDir login.user) = 0)
    (hloc : ∀ p, p <+: basePath login.user → s.locate p = .tree p)
    (hhome : s.locate homeBasePath = .tree homeBasePath) :
    mountBase grep glob login s = .ok { s with
      mounts := baseMount login.user :: s.mounts
      tree := s.tree.created (basePath login.user) } := by
  have hplain := hlogin.plain
  have hmade : basePath login.user ∈ madeFor login.user := List.mem_cons_self
  have hargs := leftAlone_base hplain
  unfold mountBase
  rw [if_pos hgrep, mkdir_eq hready hplain hargs (components_base hplain) hmade hloc]
  refine assertSuccessfull_of_exec ?_ ?_
  · exact ⟨by decide, login.leftAlone_map, by decide, by decide, by decide, by decide, hargs⟩
  · have hsrc := (System.look_with_tree hhome (s.tree.created (basePath login.user))).trans
      (Nodes.created_of_some hready.homeBase)
    have hdst := (System.look_with_tree (hloc _ List.prefix_rfl) _).trans
      (madeFor_dir hready hplain hmade List.prefix_rfl)
    rw [System.exec_bindfs, System.bindfs, components_base hplain, components_homeBase,
      System.isdir_iff.mpr hsrc, System.isdir_iff.mpr hdst]
    rfl

/-- `mkdir -p` of a directory in the image of the user. -/
theorem mkdir_volume (hs : MountedAt login.user s)
    (habove : ∀ p, p <+: mountPath login.user → s.locate p = .tree p ∧ s.tree p = some .dir)
    {path name : Str} {volume : Nodes Str (Content Str)} (hpath : LeftAlone ifs path)
    (hcomponents : components path = persistentPath login.user ++ [name])
    (hname : (String.ofList name).utf8ByteSize ≤ 255) (hroot : volume [] = some .dir)
    (hfree : volume [name] = none ∨ volume [name] = some .dir) :
    assertSuccessfull glob login ["mkdir".toList, "-p".toList, path]
      (s.withVolume login.user volume) =
        .ok (s.withVolume login.user (volume.created [name])) := by
  refine assertSuccessfull_of_exec ?_ ?_
  · exact ⟨by decide, by decide, hpath⟩
  · have hdirs : ∀ p, p <+: [] ++ persistentPath login.user →
        (s.withVolume login.user volume).look p = some .dir := by
      intro p hp
      rcases List.prefix_concat_iff.mp hp with rfl | hp
      · have hlook := hs.look_withVolume volume []
        rw [List.append_nil, hroot] at hlook
        exact hlook
      · have hne : p ≠ imagePath login.user := by
          rintro rfl
          have hmade : persistentPath login.user ∈ madeFor login.user := by simp [madeFor]
          exact not_imagePath_above hmade (hp.trans (List.prefix_append _ _))
        rw [System.withVolume, System.look_with_tree (habove p hp).1, Nodes.put_of_ne hne]
        exact (habove p hp).2
    rw [System.exec_mkdir, hcomponents, System.mkdirs_of_dirs [name] hdirs, System.mkdirs,
      List.nil_append, System.mkdir_image (s := s.withVolume login.user volume) hname hs
        (Nodes.put_self _) hroot hfree]
    exact congrArg some (System.withVolume_withVolume ..)

theorem InUse.unmarked {volume : Nodes Str (Content Str)} (h : InUse volume) :
    InUse (Guest.unmarked volume) :=
  ⟨(unmarked_of_ne (by decide)).trans h.root, (unmarked_of_ne (by decide)).trans h.upper,
    (unmarked_of_ne (by decide)).trans h.work⟩

theorem removeMarker_eq (hplain : PlainName login.user) (hs : MountedAt login.user s)
    (volume : Nodes Str (Content Str)) :
    removeMarker login (s.withVolume login.user volume) =
      s.withVolume login.user (unmarked volume) := by
  have hlook : (s.withVolume login.user volume).look (persistentPath login.user ++ marker) =
      volume marker := hs.look_withVolume volume marker
  have hrm : (s.withVolume login.user volume).rm (persistentPath login.user ++ marker) =
      s.withVolume login.user (Function.update volume marker none) := by
    rw [System.rm, System.modify_image (s := s.withVolume login.user volume) (hs _)
      (Nodes.put_self _)]
    exact System.withVolume_withVolume ..
  unfold removeMarker unmarked
  rw [components_keepApplied hplain]
  change (if System.isfile _ (persistentPath login.user ++ marker) = true then
    System.rm _ (persistentPath login.user ++ marker) else _) = _
  rw [hrm, System.isfile, hlook, ← apply_ite]
  rfl

variable (glob) in
theorem mountImage_eq (hlogin : login.Regular) (hready : Ready s.tree)
    (hgrep : grep s (userPersistentImage login.user) = 0)
    (hloc : ∀ p, p <+: persistentPath login.user → s.locate p = .tree p)
    (himage : s.locate (imagePath login.user) = .tree (imagePath login.user))
    {volume : Nodes Str (Content Str)}
    (hvolume : s.tree (imagePath login.user) = some (.file (.ext4 volume)))
    (hintact : Intact volume) :
    ∃ tree, mountImage grep glob login s = .ok { s with
        mounts := imageMount login.user :: s.mounts
        tree := tree
        kept := s.kept.filter fun location => !System.inImage (imagePath login.user) location } ∧
      Ready tree ∧ tree (imagePath login.user) = some (.file (.ext4 (prepared volume))) ∧
      InUse (prepared volume) ∧ SameImages login.user s.tree tree := by
  have hplain := hlogin.plain
  have hmade : persistentPath login.user ∈ madeFor login.user :=
    List.mem_cons_of_mem _ List.mem_cons_self
  obtain ⟨tree₁, htree₁⟩ : ∃ tree, tree = s.tree.created (persistentPath login.user) := ⟨_, rfl⟩
  have hready₁ : Ready tree₁ := htree₁ ▸ hready.created hmade
  have hfile₁ : tree₁ (imagePath login.user) = some (.file (.ext4 volume)) :=
    htree₁ ▸ Nodes.created_of_some hvolume
  have hdir₁ : ∀ p, p <+: persistentPath login.user → tree₁ p = some .dir := fun p hp =>
    htree₁ ▸ madeFor_dir hready hplain hmade hp
  have hmkdir : assertSuccessfull glob login
      ["mkdir".toList, "-p".toList, userPersistentMountDir login.user] s =
        .ok { s with tree := tree₁ } :=
    htree₁ ▸ mkdir_eq hready hplain (leftAlone_persistent hplain) (components_persistent hplain)
      hmade hloc
  -- the image is mounted
  obtain ⟨s₂, hs₂⟩ : ∃ s₂ : System, s₂ = { s with
      mounts := imageMount login.user :: s.mounts
      tree := tree₁
      kept := s.kept.filter fun location => !System.inImage (imagePath login.user) location } :=
    ⟨_, rfl⟩
  have hmount : assertSuccessfull glob login
      ["mount".toList, userPersistentImage login.user, userPersistentMountDir login.user]
        { s with tree := tree₁ } = .ok s₂ := by
    refine assertSuccessfull_of_exec ?_ ?_
    · exact ⟨by decide, leftAlone_image hplain, leftAlone_persistent hplain⟩
    · have hlook := (System.look_with_tree himage tree₁).trans hfile₁
      have hdst := (System.look_with_tree (hloc _ List.prefix_rfl) tree₁).trans
        (hdir₁ _ List.prefix_rfl)
      rw [System.exec_mount, System.mountExt4, components_image hplain, hlook,
        components_persistent hplain, hs₂]
      exact if_pos (System.isdir_iff.mpr hdst)
  have hmounted : MountedAt login.user s₂ := by
    intro rest
    rw [System.locate, hs₂, List.map_cons, mountPoint_image hplain]
    exact locate_image rfl rest
  have habove : ∀ p, p <+: mountPath login.user →
      s₂.locate p = .tree p ∧ s₂.tree p = some .dir := by
    intro p hp
    have hpath : p <+: persistentPath login.user := hp.trans (List.prefix_append _ _)
    have hnot : ¬ persistentPath login.user <+: p := fun hbelow =>
      absurd (hbelow.trans hp).length_le (by simp [persistentPath])
    rw [System.locate, hs₂, List.map_cons, mountPoint_image hplain, locate_cons_of_not_above hnot]
    exact ⟨hloc p hpath, hdir₁ p hpath⟩
  have hs₂' : s₂ = s₂.withVolume login.user volume := by
    rw [System.withVolume, Nodes.put, hs₂, ← hfile₁, Function.update_eq_self]
  -- its directories are made
  obtain ⟨volume₃, hvolume₃⟩ : ∃ volume₃, volume₃ = Nodes.created volume ["upper".toList] :=
    ⟨_, rfl⟩
  have hroot₃ : volume₃ [] = some .dir := hvolume₃ ▸ Nodes.created_of_some hintact.root
  have hupper₃ : volume₃ ["upper".toList] = some .dir := by
    rw [hvolume₃, Nodes.created_of_above List.prefix_rfl]
    rcases hintact.upper with h | h <;> rw [h] <;> rfl
  have hwork₃ : volume₃ ["work".toList] = none ∨ volume₃ ["work".toList] = some .dir := by
    rw [hvolume₃, Nodes.created_of_not_above (by decide)]
    exact hintact.work
  have huse : InUse (Nodes.created volume₃ ["work".toList]) := by
    refine ⟨Nodes.created_of_some hroot₃, Nodes.created_of_some hupper₃, ?_⟩
    rw [Nodes.created_of_above List.prefix_rfl]
    rcases hwork₃ with h | h <;> rw [h] <;> rfl
  have hmarker := removeMarker_eq hplain hmounted (Nodes.created volume₃ ["work".toList])
  have hprepared : prepared volume = unmarked (Nodes.created volume₃ ["work".toList]) := by
    rw [prepared, hvolume₃]
  rw [hprepared]
  refine ⟨tree₁.put (imagePath login.user)
    (.file (.ext4 (unmarked (Nodes.created volume₃ ["work".toList])))), ?_,
    hready₁.put_image huse.unmarked.intact, Nodes.put_self _, huse.unmarked, ?_⟩
  · have hupper :
        assertSuccessfull glob login ["mkdir".toList, "-p".toList, upperDir login.user] s₂ =
        .ok (s₂.withVolume login.user volume₃) := by
      rw [hvolume₃]
      refine (congrArg _ hs₂').trans (mkdir_volume hmounted habove
        ((leftAlone_persistent hplain).append (by decide)) (components_upper hplain) (by decide)
        hintact.root hintact.upper)
    have hwork : assertSuccessfull glob login ["mkdir".toList, "-p".toList, workDir login.user]
        (s₂.withVolume login.user volume₃) =
          .ok (s₂.withVolume login.user (Nodes.created volume₃ ["work".toList])) :=
      mkdir_volume hmounted habove ((leftAlone_persistent hplain).append (by decide))
        (components_work hplain) (by decide) hroot₃ hwork₃
    have hchown : chownUser glob login (userPersistentMountDir login.user)
        (s₂.withVolume login.user (Nodes.created volume₃ ["work".toList])) =
          .ok (s₂.withVolume login.user (Nodes.created volume₃ ["work".toList])) := by
      refine chownUser_eq hlogin (leftAlone_persistent hplain) ?_
      have hlook := hmounted.look_withVolume (Nodes.created volume₃ ["work".toList]) []
      rw [List.append_nil, huse.root] at hlook
      rw [components_persistent hplain, hlook]
      rfl
    unfold mountImage
    rw [if_pos hgrep]
    refine (bind_of_ok hmkdir _).trans ((bind_of_ok hmount _).trans ((bind_of_ok hupper _).trans
      ((bind_of_ok hwork _).trans ((bind_of_ok hchown _).trans ?_))))
    rw [hmarker, hs₂]
    rfl
  · exact (htree₁ ▸ sameImages_created hmade).trans (sameImages_put _ _)

theorem InUse.marked {volume : Nodes Str (Content Str)} (h : InUse volume) :
    InUse (Guest.marked volume) :=
  ⟨(marked_of_ne (by decide)).trans h.root, (marked_of_ne (by decide)).trans h.upper,
    (marked_of_ne (by decide)).trans h.work⟩

theorem touch_eq (hplain : PlainName login.user) (hs : MountedAt login.user s)
    {volume : Nodes Str (Content Str)} (huse : InUse volume) :
    (s.withVolume login.user volume).touch (components (keepApplied login.user)) =
      s.withVolume login.user (marked volume) := by
  have hlook : (s.withVolume login.user volume).look (persistentPath login.user ++ marker) =
      volume marker := hs.look_withVolume volume marker
  have hupper : (s.withVolume login.user volume).isdir
      (persistentPath login.user ++ marker).dropLast = true := by
    rw [List.dropLast_append_of_ne_nil (by decide)]
    exact System.isdir_iff.mpr ((hs.look_withVolume volume _).trans huse.upper)
  have hname : System.takesName (persistentPath login.user ++ marker) = true := by
    rw [System.takesName, List.getLast?_append_of_ne_nil _ (by decide)]
    decide
  rw [components_keepApplied hplain]
  change System.touch _ (persistentPath login.user ++ marker) = _
  unfold System.touch marked
  rw [hlook]
  cases hmarker : volume marker with
  | some node => rfl
  | none =>
    simp only [System.create, hupper, hname]
    refine (System.modify_image (s := s.withVolume login.user volume) (hs _)
      (Nodes.put_self _)).trans ?_
    exact System.withVolume_withVolume ..

theorem swept_inUse (keepEngine : KeepEngine) {volume : Nodes Str (Content Str)}
    (huse : InUse volume) : InUse (System.swept keepEngine volume ["upper".toList]) := by
  refine ⟨(if_neg (by decide)).trans huse.root, ?_, (if_neg (by decide)).trans huse.work⟩
  refine (if_pos List.prefix_rfl).trans ?_
  rw [List.drop_length, keepEngine.clean_nil]
  exact huse.upper

variable (glob) in
theorem applyKeep_eq (hlogin : login.Regular) (hready : Ready s.tree)
    (hs : MountedAt login.user s)
    (hrules : s.locate (basePath login.user ++ [".keep".toList]) =
      .tree (homeBasePath ++ [".keep".toList]))
    {volume : Nodes Str (Content Str)}
    (hvolume : s.tree (imagePath login.user) = some (.file (.ext4 volume))) (huse : InUse volume)
    (hkept : isMarked volume = true →
      .image (imagePath login.user) ["upper".toList] ∈ s.kept) :
    ∃ tree kept, applyKeep glob login s = .ok { s with tree := tree, kept := kept } ∧ Ready tree ∧
      tree (imagePath login.user) =
        some (.file (.ext4 (sweptOnce login.keepEngine volume))) ∧
      InUse (sweptOnce login.keepEngine volume) ∧
      SameImages login.user s.tree tree ∧ s.kept ⊆ kept ∧
      .image (imagePath login.user) ["upper".toList] ∈ kept := by
  have hplain := hlogin.plain
  -- the marker is looked for in the image that is mounted
  have hlook : s.look (components (keepApplied login.user)) = volume marker := by
    rw [components_keepApplied hplain]
    exact System.look_of_locate_image (hs marker) hvolume
  have hmarked : s.isfile (components (keepApplied login.user)) = isMarked volume := by
    rw [System.isfile, hlook]
    rfl
  unfold applyKeep sweptOnce
  rw [hmarked]
  split
  · next hmarker =>
    exact ⟨s.tree, s.kept, rfl, hready, hvolume, huse, fun _ _ => rfl, List.Subset.refl _,
      hkept hmarker⟩
  · obtain ⟨s', hs'⟩ : ∃ s' : System, s' = { s with
        kept := .image (imagePath login.user) ["upper".toList] :: s.kept } := ⟨_, rfl⟩
    -- what has been cleaned is put down in `kept`, which no path depends on
    have hmounted : MountedAt login.user s' := hs' ▸ hs
    have hkeep : assertSuccessfull glob login ["/lapas/keepEngine".toList, "user".toList,
        userBaseMountDir login.user ++ "/.keep".toList, upperDir login.user] s =
          .ok (s'.withVolume login.user
            (System.swept login.keepEngine volume ["upper".toList])) := by
      refine assertSuccessfull_of_exec ?_ ?_
      · exact ⟨by decide, by decide, (leftAlone_base hplain).append (by decide),
          (leftAlone_persistent hplain).append (by decide)⟩
      · obtain ⟨content, hcontent⟩ := hready.rules
        have hlook := (System.look_of_locate hrules).trans hcontent
        have hupper := (System.look_of_locate_image (hs _) hvolume).trans huse.upper
        rw [System.exec_keepEngine, System.keep, components_rules hplain, components_upper hplain,
          System.isfile_iff.mpr ⟨_, hlook⟩, System.isdir_iff.mpr hupper,
          System.modify_image (hs _) hvolume, hs, hs']
        rfl
    -- the marker is made in the image that has been cleaned
    have huse' := (swept_inUse login.keepEngine huse).marked
    refine ⟨s.tree.put (imagePath login.user) (.file (.ext4 (marked
      (System.swept login.keepEngine volume ["upper".toList])))), _, ?_,
      hready.put_image huse'.intact, Nodes.put_self _, huse', sameImages_put _ _,
      List.subset_cons_self _ _, List.mem_cons_self⟩
    refine (bind_of_ok hkeep _).trans ?_
    rw [touch_eq hplain hmounted (swept_inUse login.keepEngine huse), hs']
    rfl

/-- Nothing is mounted in this stage. -/
theorem applyKeep_mounts (hplain : PlainName login.user) {s' : System}
    (h : applyKeep glob login s = .ok s') : s'.mounts = s.mounts := by
  have htouch : ∀ (s : System) (path : List Str), (s.touch path).mounts = s.mounts := by
    intro s path
    unfold System.touch System.create
    split
    · rfl
    · split <;> rfl
  unfold applyKeep at h
  split at h
  · cases h
    rfl
  · obtain ⟨s₁, hkeep, hrest⟩ := exists_of_bind_ok h
    have hargs : List.Forall (LeftAlone ifs) ["/lapas/keepEngine".toList, "user".toList,
        userBaseMountDir login.user ++ "/.keep".toList, upperDir login.user] :=
      ⟨by decide, by decide, (leftAlone_base hplain).append (by decide),
        (leftAlone_persistent hplain).append (by decide)⟩
    have hexec := exec_of_assertSuccessfull hargs hkeep
    rw [System.exec_keepEngine, System.keep] at hexec
    split at hexec
    · cases hexec
      cases hrest
      exact htouch _ _
    · cases hexec

theorem optionValue_append (name : String) (value : Str) :
    System.optionValue name (name.toList ++ value) = some value := by
  rw [System.optionValue, if_pos (List.prefix_append _ _), List.drop_left]

theorem splitOn_overlayOptions (hplain : PlainName login.user) :
    login.overlayOptions.splitOn ',' = ["lowerdir=".toList ++ userBaseMountDir login.user,
      "upperdir=".toList ++ upperDir login.user, "workdir=".toList ++ workDir login.user] := by
  have hcomma : ',' ∉ login.user := hplain.notMem rfl
  refine Eq.trans ?_ (List.splitOn_intercalate ',' ?_ (List.cons_ne_nil _ _))
  · unfold Login.overlayOptions
    simp only [List.intercalate_cons_cons, List.intercalate_singleton, String.reduceToList,
      List.cons_append, List.nil_append, List.append_assoc]
  · unfold userBaseMountDir upperDir workDir userPersistentMountDir userMountDir
    simp [hcomma]

variable (glob) in
theorem mountHomeOverlay_eq (hlogin : login.Regular) (hready : Ready s.tree)
    (hgrep : grep s (home login.user) = 0)
    (hloc : ∀ p, p <+: homePath login.user → s.locate p = .tree p)
    (hbase : s.locate (basePath login.user) = .tree homeBasePath) (hs : MountedAt login.user s)
    {volume : Nodes Str (Content Str)}
    (hvolume : s.tree (imagePath login.user) = some (.file (.ext4 volume))) (huse : InUse volume) :
    mountHomeOverlay grep glob login s = .ok { s with
      mounts := overlayMount login.user :: s.mounts
      tree := s.tree.created (homePath login.user) } := by
  have hplain := hlogin.plain
  have hmade : homePath login.user ∈ madeFor login.user := by simp [madeFor]
  have hargs := leftAlone_home hplain
  -- the home is made, if it is not there, and belongs to the user
  have hdir := (System.look_with_tree (hloc _ List.prefix_rfl) _).trans
    (madeFor_dir hready hplain hmade List.prefix_rfl)
  have hchown : chownUser glob login (home login.user)
      { s with tree := s.tree.created (homePath login.user) } =
        .ok { s with tree := s.tree.created (homePath login.user) } := by
    refine chownUser_eq hlogin hargs ?_
    rw [components_home hplain, hdir]
    rfl
  unfold mountHomeOverlay
  rw [hlogin.loginuserHome, if_pos hgrep]
  refine (bind_of_ok (mkdir_eq hready hplain hargs (components_home hplain) hmade hloc) _).trans
    ((bind_of_ok hchown _).trans (assertSuccessfull_of_exec ?_ ?_))
  · -- the options are one word
    have hpersistent := leftAlone_persistent hplain
    have hoptions : LeftAlone ifs login.overlayOptions := by
      unfold Login.overlayOptions
      exact (((((by decide : LeftAlone ifs "lowerdir=".toList).append
        (leftAlone_base hplain)).append (by decide)).append
        (hpersistent.append (by decide))).append (by decide)).append
        (hpersistent.append (by decide))
    exact ⟨by decide, by decide, by decide, by decide, by decide, hoptions, hargs⟩
  · -- all four directories of the overlay are there
    have hlower := (System.look_with_tree hbase (s.tree.created (homePath login.user))).trans
      (Nodes.created_of_some hready.homeBase)
    have hfile : s.tree.created (homePath login.user) (imagePath login.user) =
        some (.file (.ext4 volume)) := Nodes.created_of_some hvolume
    have hinside : ∀ rest, System.look { s with tree := s.tree.created (homePath login.user) }
        (persistentPath login.user ++ rest) = volume rest := fun rest =>
      System.look_of_locate_image (s := { s with tree := s.tree.created (homePath login.user) })
        (hs rest) hfile
    have hcolon : (userBaseMountDir login.user).contains ':' = false := by
      have hnot : ':' ∉ login.user := hplain.notMem rfl
      unfold userBaseMountDir userMountDir
      simp [hnot]
    rw [System.exec_overlay, System.mountOverlay, splitOn_overlayOptions hplain]
    simp only [optionValue_append, Option.bind_eq_bind, Option.bind_some, hcolon]
    rw [components_base hplain, components_upper hplain, components_work hplain,
      components_home hplain, System.isdir_iff.mpr hlower,
      System.isdir_iff.mpr ((hinside _).trans huse.upper),
      System.isdir_iff.mpr ((hinside _).trans huse.work), System.isdir_iff.mpr hdir]
    rfl

end

end Guest
end Lapas
