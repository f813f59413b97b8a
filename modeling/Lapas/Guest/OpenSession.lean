import Lapas.Guest.MountLines

/-!
# The commands of a session

What the commands of `mountHome.sh` do for a player with a plain name: the words are left alone,
the user is found, and every command works on the path that it is meant for.

## Main definitions

* `Login.Regular` — the sessions of players.
* `imagePath`, `basePath`, `persistentPath`, `homePath` — the paths of a user, by their names.

## Main results

* `Login.Regular.gid`, `Login.Regular.loginuserHome` — what is looked up of a player.
* `System.mkdirs_tree`, `System.mkdirs_of_dirs`, `System.mkdir_image` — `mkdir -p`.
* `assertSuccessfull_of_exec`, `exec_of_assertSuccessfull` — a command is run as it is written.
-/

namespace Lapas
namespace Guest

open Shell Proto

/-! ### The user -/

theorem NameService.id_of_start {nss : NameService} {name : Str}
    (hstart : name.head? ≠ some '-' ∧ name.head? ≠ some '+') :
    nss.id name = (nss.getpwnam name).or ((number? name).bind nss.getpwuid) := by
  unfold NameService.id
  split
  · exact absurd rfl hstart.1
  · exact absurd rfl hstart.2
  · rfl

theorem NameService.getent_of_start {nss : NameService} {name : Str}
    (hstart : name.head? ≠ some '-' ∧ name.head? ≠ some '+') (hnumber : number? name = none) :
    nss.getent name = nss.getpwnam name := by
  unfold NameService.getent
  split
  · exact absurd rfl hstart.1
  · exact absurd rfl hstart.2
  · rw [hnumber]

theorem notMem_decimal {c : Char} (hc : c.isDigit = false) (n : ℕ) : c ∉ decimal n := by
  intro hmem
  have hdigits : decimal n = Nat.toDigits 10 n := Nat.toList_repr
  rw [hdigits] at hmem
  have hdigit := Nat.isDigit_of_mem_toDigits (by decide) (by decide) hmem
  exact absurd (hc.symm.trans hdigit) Bool.false_ne_true

/-- The home directory is the sixth field, when no field has a colon in it. -/
theorem cutSixth_userToPasswd {user : LapasUserPasswd} (h : ':' ∉ user.name.toList) :
    cutSixth (userToPasswd user).line = home user.name.toList := by
  unfold cutSixth Passwd.line userToPasswd home
  rw [List.splitOn_intercalate ':' ?_ (List.cons_ne_nil _ _)]
  · rfl
  · simp [h, notMem_decimal (c := ':') rfl]

/-- A player that is in the database of the server, under a name of his own. -/
structure Login.Regular (login : Login) : Prop where
  plain : PlainName login.user
  registered : ∃ user ∈ login.nss.lapas, user.name.toList = login.user
  /-- No account of the guest has the name. -/
  foreign : ∀ entry ∈ login.nss.files, entry.name ≠ login.user
  /-- The base user is in the group `lanparty`. -/
  base : ∃ entry, login.nss.files.find? (·.name = baseuserName) = some entry ∧ entry.gid = 1000

namespace Login.Regular

variable {login : Login}

/-- Who is asked for the files does not matter. -/
theorem withEngine (h : login.Regular) (keepEngine : KeepEngine) :
    Login.Regular { login with keepEngine := keepEngine } :=
  ⟨h.plain, h.registered, h.foreign, h.base⟩

theorem getpwnam (h : login.Regular) : ∃ user,
    login.nss.getpwnam login.user = some (userToPasswd user) ∧ user.name.toList = login.user := by
  have hfiles : login.nss.files.find? (·.name = login.user) = none := by
    rw [List.find?_eq_none]
    intro entry hentry
    simpa using h.foreign entry hentry
  obtain ⟨user, hmem, hname⟩ := h.registered
  cases hfind : login.nss.lapas.find? (·.name.toList = login.user) with
  | none =>
    rw [List.find?_eq_none] at hfind
    exact absurd (decide_eq_true hname) (hfind user hmem)
  | some found =>
    refine ⟨found, ?_, by simpa using List.find?_some hfind⟩
    rw [NameService.getpwnam, hfiles, hfind]
    rfl

theorem ne_baseuserName (h : login.Regular) : login.user ≠ baseuserName := by
  intro heq
  obtain ⟨entry, hentry, -⟩ := h.base
  refine h.foreign entry (List.mem_of_find?_eq_some hentry) ?_
  rw [heq]
  simpa using List.find?_some hentry

/-- The player is in the group of the base user. -/
theorem gid (h : login.Regular) :
    (login.nss.id login.user).map (·.gid) = (login.nss.id baseuserName).map (·.gid) := by
  obtain ⟨user, huser, -⟩ := h.getpwnam
  obtain ⟨entry, hentry, hgid⟩ := h.base
  rw [NameService.id_of_start h.plain.start, huser, NameService.id_of_start (by decide),
    NameService.getpwnam, hentry]
  exact congrArg some hgid.symm

theorem loginuserHome (h : login.Regular) : login.loginuserHome = home login.user := by
  obtain ⟨user, huser, hname⟩ := h.getpwnam
  unfold Login.loginuserHome
  rw [NameService.getent_of_start h.plain.start h.plain.number, huser, ← hname]
  exact cutSixth_userToPasswd (hname ▸ h.plain.notMem rfl)

end Login.Regular

/-! ### Paths and words -/

/-- The path of the homes, by its names, below which the homes of the players are. -/
def homesPath : List Str := ["mnt".toList, "homes".toList]

/-- The names of the path to the home of the base user. -/
def homeBasePath : List Str := ["mnt".toList, "homeBase".toList]

/-- The names of the path to the directory with the mounts of a user. -/
def mountPath (user : Str) : List Str := ["mnt".toList, ".mounts".toList, user]

/-- The names of the path at which the user has the home of the base user. -/
def basePath (user : Str) : List Str := mountPath user ++ ["base".toList]

/-- The names of the path at which the image of the user is mounted. -/
def persistentPath (user : Str) : List Str := mountPath user ++ ["overlay".toList]

/-- The names of the path to the image of a user. -/
def imagePath (user : Str) : List Str := homesPath ++ [user]

/-- The names of the path to the home of a user. -/
def homePath (user : Str) : List Str := ["home".toList, user]

theorem components_homeBase : components userBaseDir = homeBasePath := rfl

section

variable {user : Str} (h : PlainName user)
include h

theorem PlainName.ne_nil : user ≠ [] := by
  rintro rfl
  exact absurd h.length.1 (by decide)

theorem PlainName.components : components user = [user] := by
  refine components_of_notMem (h.notMem rfl) h.ne_nil ?_
  rintro rfl
  exact absurd h.length.1 (by decide)

theorem components_image : components (userPersistentImage user) = imagePath user := by
  have hpath : userPersistentImage user = "/mnt/homes".toList ++ '/' :: user := by
    unfold userPersistentImage
    simp
  rw [hpath, components_append, h.components]
  rfl

theorem components_base : components (userBaseMountDir user) = basePath user := by
  have hpath : userBaseMountDir user =
      "/mnt/.mounts".toList ++ '/' :: (user ++ '/' :: "base".toList) := by
    unfold userBaseMountDir userMountDir
    simp
  rw [hpath, components_append, components_append, h.components]
  rfl

theorem components_persistent : components (userPersistentMountDir user) = persistentPath user := by
  have hpath : userPersistentMountDir user =
      "/mnt/.mounts".toList ++ '/' :: (user ++ '/' :: "overlay".toList) := by
    unfold userPersistentMountDir userMountDir
    simp
  rw [hpath, components_append, components_append, h.components]
  rfl

theorem components_home : components (home user) = homePath user := by
  have hpath : home user = "/home".toList ++ '/' :: user := by
    unfold home
    simp
  rw [hpath, components_append, h.components]
  rfl

theorem components_rules :
    components (userBaseMountDir user ++ "/.keep".toList) = basePath user ++ [".keep".toList] := by
  have hrules : "/.keep".toList = '/' :: ".keep".toList := by decide +kernel
  rw [hrules, components_append, components_base h]
  rfl

theorem components_upper :
    components (upperDir user) = persistentPath user ++ ["upper".toList] := by
  have hpath : upperDir user = userPersistentMountDir user ++ '/' :: "upper".toList := by
    unfold upperDir
    simp
  rw [hpath, components_append, components_persistent h]
  rfl

theorem components_work : components (workDir user) = persistentPath user ++ ["work".toList] := by
  have hpath : workDir user = userPersistentMountDir user ++ '/' :: "work".toList := by
    unfold workDir
    simp
  rw [hpath, components_append, components_persistent h]
  rfl

theorem components_keepApplied : components (keepApplied user) =
    persistentPath user ++ ["upper".toList, ".keepApplied".toList] := by
  have hpath : keepApplied user = upperDir user ++ '/' :: ".keepApplied".toList := by
    unfold keepApplied
    simp
  rw [hpath, components_append, components_upper h, List.append_assoc]
  rfl

theorem leftAlone_user : LeftAlone ifs user := by
  refine ⟨h.ne_nil, fun c hc => ?_⟩
  have hchar := h.chars c hc
  simp only [isSpecial, Bool.or_eq_false_iff] at hchar
  exact hchar.1

theorem leftAlone_image : LeftAlone ifs (userPersistentImage user) := by
  unfold userPersistentImage
  exact (by decide : LeftAlone ifs "/mnt/homes/".toList).append (leftAlone_user h)

theorem leftAlone_mountDir : LeftAlone ifs (userMountDir user) := by
  unfold userMountDir
  exact (by decide : LeftAlone ifs "/mnt/.mounts/".toList).append (leftAlone_user h)

theorem leftAlone_base : LeftAlone ifs (userBaseMountDir user) := by
  unfold userBaseMountDir
  exact (leftAlone_mountDir h).append (by decide)

theorem leftAlone_persistent : LeftAlone ifs (userPersistentMountDir user) := by
  unfold userPersistentMountDir
  exact (leftAlone_mountDir h).append (by decide)

theorem leftAlone_home : LeftAlone ifs (home user) := by
  unfold home
  exact (by decide : LeftAlone ifs "/home/".toList).append (leftAlone_user h)

end

theorem leftAlone_decimal (n : ℕ) : ∀ c ∈ decimal n, ifs c = false ∧ isPattern c = false := by
  intro c hc
  refine ⟨?_, ?_⟩ <;>
  · rw [← Bool.not_eq_true]
    intro hchar
    simp only [ifs, isPattern, Bool.or_eq_true, decide_eq_true_eq] at hchar
    rcases hchar with (rfl | rfl) | rfl <;> exact notMem_decimal rfl n hc

theorem Login.leftAlone_map (login : Login) : LeftAlone ifs login.map := by
  have huid : ∀ user, ∀ c ∈ login.uid user, ifs c = false ∧ isPattern c = false := by
    intro user c hc
    unfold uid at hc
    split at hc
    · exact leftAlone_decimal _ c hc
    · cases hc
  have hslash : LeftAlone ifs "/".toList := by decide
  have hmap : LeftAlone ifs "--map=".toList := by decide
  unfold Login.map
  refine ⟨by simp, fun c hc => ?_⟩
  simp only [List.mem_append] at hc
  rcases hc with ((hc | hc) | hc) | hc
  · exact hmap.2 c hc
  · exact huid _ c hc
  · exact hslash.2 c hc
  · exact huid _ c hc

/-! ### Commands in the tree -/

namespace System

variable {s : System} {path : List Str}

theorem isdir_iff : s.isdir path = true ↔ s.look path = some .dir := by
  unfold isdir
  split
  · exact iff_of_true rfl ‹_›
  · exact iff_of_false Bool.false_ne_true ‹_›

theorem isfile_iff : s.isfile path = true ↔ ∃ content, s.look path = some (.file content) := by
  unfold isfile
  split
  · exact iff_of_true rfl ⟨_, ‹_›⟩
  · next hfile => exact iff_of_false Bool.false_ne_true fun ⟨content, hcontent⟩ => hfile _ hcontent

theorem look_of_locate {p : List Str} (h : s.locate path = .tree p) : s.look path = s.tree p := by
  rw [look, h]
  rfl

/-- The same, of other files below the same mounts. -/
theorem look_with_tree {p : List Str} (h : s.locate path = .tree p)
    (tree : Nodes Str (Content Str)) : look { s with tree := tree } path = tree p :=
  look_of_locate (s := { s with tree := tree }) h

theorem takesName_concat {above : List Str} {name : Str}
    (h : (String.ofList name).utf8ByteSize ≤ 255) : takesName (above ++ [name]) = true := by
  rw [takesName, List.getLast?_concat]
  exact decide_eq_true h

theorem create_tree {above : List Str} {name : Str}
    (hname : (String.ofList name).utf8ByteSize ≤ 255) (hdir : s.look above = some .dir)
    (hloc : s.locate (above ++ [name]) = .tree (above ++ [name])) (node : Node Str (Content Str)) :
    s.create (above ++ [name]) node =
      some { s with tree := s.tree.put (above ++ [name]) node } := by
  rw [create, List.dropLast_concat, isdir_iff.mpr hdir, takesName_concat hname, put, modify, hloc]
  rfl

theorem mkdirs_tree {above names : List Str}
    (hnames : ∀ name ∈ names, (String.ofList name).utf8ByteSize ≤ 255)
    (hloc : ∀ p, p <+: above ++ names → s.locate p = .tree p)
    (habove : ∀ p, p <+: above → s.tree p = some .dir)
    (hfree : ∀ p, p <+: above ++ names → s.tree p = none ∨ s.tree p = some .dir) :
    s.mkdirs above names = some { s with tree := s.tree.created (above ++ names) } := by
  induction names generalizing s above with
  | nil =>
    rw [List.append_nil, Nodes.created_eq_self fun p hp => by
      rw [habove p hp]
      exact fun heq => nomatch heq]
    rfl
  | cons name names ih =>
    have hassoc : above ++ name :: names = above ++ [name] ++ names := by simp
    have hpath : above ++ [name] <+: above ++ name :: names := hassoc ▸ List.prefix_append _ _
    have hlook := look_of_locate (hloc _ hpath)
    have hnames' := fun n hn => hnames n (List.mem_cons_of_mem _ hn)
    rw [hassoc] at hloc hfree ⊢
    -- the directory is there, or it is made
    rw [mkdirs, mkdir, hlook]
    rcases hfree _ (List.prefix_append _ _) with hnone | hdir
    · have hparent : s.look above = some .dir := by
        rw [look_of_locate (hloc above ((List.prefix_append _ _).trans (List.prefix_append _ _)))]
        exact habove above List.prefix_rfl
      have hput : ∀ p, s.tree.put (above ++ [name]) .dir p = if p = above ++ [name] then some .dir
          else s.tree p := fun p => Function.update_apply ..
      rw [hnone]
      change (s.create (above ++ [name]) .dir).bind _ = _
      rw [create_tree (hnames name List.mem_cons_self) hparent (hloc _ (List.prefix_append _ _))]
      refine (ih (s := { s with tree := s.tree.put (above ++ [name]) .dir }) hnames' hloc
        (fun p hp => ?_) fun p hp => ?_).trans ?_
      · change s.tree.put (above ++ [name]) .dir p = _
        rw [hput]
        split
        · rfl
        · next hne => exact habove p ((List.prefix_concat_iff.mp hp).resolve_left hne)
      · change s.tree.put (above ++ [name]) .dir p = _ ∨ s.tree.put (above ++ [name]) .dir p = _
        rw [hput]
        split
        · exact Or.inr rfl
        · exact hfree p hp
      · change some { s with tree := (s.tree.put (above ++ [name]) .dir).created _ } = _
        rw [Nodes.created_put (List.prefix_append _ _) hnone]
    · rw [hdir]
      refine ih hnames' hloc (fun p hp => ?_) hfree
      rcases List.prefix_concat_iff.mp hp with rfl | hp
      · exact hdir
      · exact habove p hp

/-- Directories that are there are passed. -/
theorem mkdirs_of_dirs {above names : List Str} (rest : List Str)
    (h : ∀ p, p <+: above ++ names → s.look p = some .dir) :
    s.mkdirs above (names ++ rest) = s.mkdirs (above ++ names) rest := by
  induction names generalizing above with
  | nil => rw [List.nil_append, List.append_nil]
  | cons name names ih =>
    have hassoc : above ++ name :: names = above ++ [name] ++ names := by simp
    rw [hassoc] at h ⊢
    rw [List.cons_append, mkdirs, mkdir, h _ (List.prefix_append _ _)]
    exact ih h

/-! ### Commands in an image -/

section

variable {file : List Str} {volume : Nodes Str (Content Str)}

theorem look_of_locate_image {rest : List Str} (hloc : s.locate path = .image file rest)
    (hfile : s.tree file = some (.file (.ext4 volume))) : s.look path = volume rest := by
  rw [look, hloc]
  exact Nodes.look_image hfile rest

theorem modify_image {rest : List Str}
    {change : Nodes Str (Content Str) → List Str → Nodes Str (Content Str)}
    (hloc : s.locate path = .image file rest) (hfile : s.tree file = some (.file (.ext4 volume))) :
    s.modify path change =
      { s with tree := s.tree.put file (.file (.ext4 (change volume rest))) } := by
  rw [modify, hloc, Nodes.modify_image hfile]

/-- A directory is made at the root of an image. -/
theorem mkdir_image {above : List Str} {name : Str}
    (hname : (String.ofList name).utf8ByteSize ≤ 255)
    (hloc : ∀ rest, s.locate (above ++ rest) = .image file rest)
    (hfile : s.tree file = some (.file (.ext4 volume))) (hroot : volume [] = some .dir)
    (hfree : volume [name] = none ∨ volume [name] = some .dir) :
    s.mkdir (above ++ [name]) =
      some { s with tree := s.tree.put file (.file (.ext4 (volume.created [name]))) } := by
  rw [mkdir, look_of_locate_image (hloc [name]) hfile]
  rcases hfree with hnone | hdir
  · have habove : s.look above = some .dir := by
      have hlook := look_of_locate_image (hloc []) hfile
      rw [List.append_nil, hroot] at hlook
      exact hlook
    have hcreated : volume.put [name] .dir = volume.created [name] := by
      rw [← Nodes.created_put List.prefix_rfl hnone]
      refine (Nodes.created_eq_self fun p hp => ?_).symm
      rcases List.prefix_concat_iff.mp (show p <+: [] ++ [name] from hp) with rfl | hp
      · rw [List.nil_append, Nodes.put_self]
        exact fun heq => nomatch heq
      · rw [List.prefix_nil.mp hp, Nodes.put_of_ne (List.cons_ne_nil _ _).symm, hroot]
        exact fun heq => nomatch heq
    rw [hnone, ← hcreated]
    change s.create (above ++ [name]) .dir = _
    rw [create, List.dropLast_concat, isdir_iff.mpr habove, takesName_concat hname, put,
      modify_image (hloc [name]) hfile]
    rfl
  · have hcreated : volume.created [name] = volume := by
      refine Nodes.created_eq_self fun p hp => ?_
      rcases List.prefix_concat_iff.mp (show p <+: [] ++ [name] from hp) with rfl | hp
      · rw [List.nil_append, hdir]
        exact fun heq => nomatch heq
      · rw [List.prefix_nil.mp hp, hroot]
        exact fun heq => nomatch heq
    have hput : s.tree.put file (.file (.ext4 volume)) = s.tree := by
      rw [Nodes.put, ← hfile]
      exact Function.update_eq_self file s.tree
    rw [hdir, hcreated, hput]

end

end System

/-! ### Commands of the script -/

section

variable {glob : System → Str → List Str} {login : Login} {s s' : System}

theorem assertSuccessfull_of_exec {args : List Str} (hargs : args.Forall (LeftAlone ifs))
    (h : s.exec login args = some s') : assertSuccessfull glob login args s = .ok s' := by
  unfold assertSuccessfull
  rw [flatMap_expand _ (List.forall_iff_forall_mem.mp hargs), h]

theorem exec_of_assertSuccessfull {args : List Str} (hargs : args.Forall (LeftAlone ifs))
    (h : assertSuccessfull glob login args s = .ok s') : s.exec login args = some s' := by
  unfold assertSuccessfull at h
  rw [flatMap_expand _ (List.forall_iff_forall_mem.mp hargs)] at h
  split at h
  · next hexec =>
    cases h
    exact hexec
  · cases h

theorem chownUser_eq (hlogin : login.Regular) {path : Str} (hpath : LeftAlone ifs path)
    (h : (s.look (components path)).isSome = true) : chownUser glob login path s = .ok s := by
  have howner : LeftAlone ifs login.owner := (leftAlone_user hlogin.plain).append (by decide)
  have hsplit : login.owner.splitOn ':' = [login.user, "lanparty".toList] := by
    have heq : login.owner = login.user ++ ':' :: "lanparty".toList := by
      unfold Login.owner
      simp
    rw [heq, List.splitOn_append_cons_self_of_not_mem (hlogin.plain.notMem rfl)]
    rfl
  obtain ⟨user, huser, -⟩ := hlogin.getpwnam
  unfold chownUser
  rw [expand_of_leftAlone _ howner]
  change assertSuccessfull glob login ["chown".toList, "-R".toList, login.owner, path] s = .ok s
  refine assertSuccessfull_of_exec ?_ ?_
  · exact ⟨by decide, by decide, howner, hpath⟩
  · rw [System.exec_chown, System.chown, hsplit]
    simp [huser, h]

end

end Guest
end Lapas
