import Lapas.Library.MountTable
import Lapas.Library.Shell
import Lapas.Proto.Models

/-!
# Mounting the home of a player

PAM runs `mountHome.sh` when a session is opened.  A command succeeds when the files that it
needs are there, and its failure ends the script.  No path of the script goes through a link.

## Main definitions

* `Passwd`, `NameService` — the users that the guest knows.
* `Mount`, `System` — the mounts of the sessions, and the files below them.
* `System.exec` — the commands.
* `assertSuccessfull`, `mountHome` — the script.
* `LoggedIn` — what a login is for.
-/

namespace Lapas
namespace Guest

open Shell Proto

/-! ### Users -/

/-- An entry of the user database, with all of its fields, since `getent` prints them and `cut`
takes the sixth. -/
structure Passwd where
  name : Str
  passwd : Str
  uid : ℕ
  gid : ℕ
  gecos : Str
  dir : Str
  shell : Str

/-- `user_to_passwd` of the plugin for the name service. -/
def userToPasswd (user : LapasUserPasswd) : Passwd where
  name := user.name.toList
  passwd := "x".toList
  uid := user.id.toNat % 2 ^ 32
  gid := 1000
  gecos := user.name.toList
  dir := "/home/".toList ++ user.name.toList
  shell := "/bin/bash".toList

/-- Where users are looked up: in the guest first, and then on the server. -/
structure NameService where
  files : List Passwd
  lapas : List LapasUserPasswd

/-- The number that is written in decimal digits. -/
def number? (text : Str) : Option ℕ :=
  if text ≠ [] ∧ text.all Char.isDigit then
    some (text.foldl (fun n c => 10 * n + (c.toNat - '0'.toNat)) 0)
  else none

/-- A number in decimal digits, as `id -u` and the lines of the database write it. -/
def decimal (n : ℕ) : Str := (toString n).toList

namespace NameService

variable (nss : NameService)

/-- `getpwnam`: the accounts of the guest come first, and then the users that the plugin has from
the server. -/
def getpwnam (name : Str) : Option Passwd :=
  (nss.files.find? (·.name = name)).or
    ((nss.lapas.find? (·.name.toList = name)).map userToPasswd)

/-- `getpwuid`, in the same order.  The plugin compares all 64 bits of the id with the number that
it is asked for. -/
def getpwuid (uid : ℕ) : Option Passwd :=
  (nss.files.find? (·.uid = uid)).or ((nss.lapas.find? (·.id.toNat = uid)).map userToPasswd)

/-- The user that `id` is about: a name of the database, else a number, which may have a plus sign
in front. -/
def id : Str → Option Passwd
  | '-' :: _ => none
  | '+' :: digits => (number? digits).bind nss.getpwuid
  | user => (nss.getpwnam user).or ((number? user).bind nss.getpwuid)

/-- `getent passwd`, which takes a number as one of a user. -/
def getent : Str → Option Passwd
  | '-' :: _ => none
  | '+' :: digits => ((number? digits).bind nss.getpwuid).or (nss.getpwnam ('+' :: digits))
  | key =>
    match number? key with
    | some uid => nss.getpwuid uid
    | none => nss.getpwnam key

end NameService

/-- A line of the database, as `getent passwd` prints it: the seven fields with colons in
between. -/
def Passwd.line (entry : Passwd) : Str :=
  List.intercalate [':'] [entry.name, entry.passwd, decimal entry.uid, decimal entry.gid,
    entry.gecos, entry.dir, entry.shell]

/-- `cut -d: -f6` of a line: the home directory, unless an earlier field has a colon in it. -/
def cutSixth (line : Str) : Str := (line.splitOn ':').getD 5 []

/-! ### The guest -/

/-- The names of a path; empty ones and single dots lead nowhere, as for the kernel. -/
def components (path : Str) : List Str :=
  (path.splitOn '/').filter fun name => name ≠ [] && name ≠ ['.']

theorem components_append (path path' : Str) :
    components (path ++ '/' :: path') = components path ++ components path' := by
  unfold components
  rw [List.splitOn_append_cons_self, List.filter_append]

theorem components_of_notMem {name : Str} (h : '/' ∉ name) (hne : name ≠ [])
    (hdot : name ≠ ['.']) : components name = [name] := by
  unfold components
  rw [List.splitOn_eq_singleton h]
  simp [hne, hdot]

/-- What has been mounted, with the directories of an overlay. -/
inductive Filesystem
  | ext4
  | bindfs
  | overlay (lower upper work : Str)
  deriving DecidableEq

/-- A mount that the script has made: what has been mounted, the directory it is mounted at, and the
kind of the file system. -/
structure Mount where
  device : Str
  target : Str
  filesystem : Filesystem
  deriving DecidableEq

namespace Mount

/-- What `mount` prints of the kind of a mount, and in the parentheses. -/
def description : Filesystem → Str × Str
  | .ext4 => ("ext4".toList, "rw,relatime".toList)
  | .bindfs => ("fuse".toList, "ro,noatime".toList)
  | .overlay lower upper work =>
    ("overlay".toList, "rw,relatime,lowerdir=".toList ++ lower ++ ",upperdir=".toList ++ upper ++
      ",workdir=".toList ++ work)

/-- The line that `mount` prints for a mounted file system: device, target, type and options. -/
def line (m : Mount) : Str :=
  m.device ++ " on ".toList ++ m.target ++ " type ".toList ++ (description m.filesystem).1 ++
    " (".toList ++ (description m.filesystem).2 ++ ")".toList

/-- The mount as the table of mounts has it, with paths as lists of names: an image and a directory
bring their own files, and an overlay merges two directories. -/
def mountPoint (m : Mount) : MountPoint Str where
  target := components m.target
  source :=
    match m.filesystem with
    | .ext4 => .image (components m.device)
    | .bindfs => .bind (components m.device)
    | .overlay lower upper _ => .overlay (components lower) (components upper)

end Mount

/-- The files of the guest, and what it has mounted over them since it has been booted. -/
structure System where
  /-- What `mount` prints of the mounts that the system has made. -/
  bootLines : List Str
  /-- The last one first. -/
  mounts : List Mount
  tree : Nodes Str (Content Str)
  /-- The directories that `keepEngine` has cleaned since the file systems that they are in
  have been mounted. -/
  kept : List (Location Str)

/-- What `keepEngine` does with what is below a directory. -/
structure KeepEngine where
  clean : Nodes Str (Content Str) → Nodes Str (Content Str)
  /-- The directory itself is left in place. -/
  clean_nil : ∀ files, clean files [] = files []

/-- An `open_session` of `pam_exec`: the user `PAM_USER`, the database and the `keepEngine` that
this run of the script meets. -/
structure Login where
  user : Str
  nss : NameService
  keepEngine : KeepEngine

namespace System

variable (s : System) (path : List Str)

/-- What `mount` prints, the lines of the boot in front and then one line for each mount, the oldest
first. -/
def printed : List Str := s.bootLines ++ s.mounts.reverse.map Mount.line

/-- `mount | grep pattern | wc -l`, where `grep` looks for the text of the pattern. -/
def grep (pattern : Str) : ℕ := (s.printed.filter (contains pattern)).length

/-- The same command, where the pattern is a basic regular expression without special characters
other than dots. -/
def grepBasic (pattern : Str) : ℕ := (s.printed.filter (grepMatches pattern)).length

/-- Where the files of a path are, seen through all mounts that are above it. -/
def locate : Location Str := Lapas.locate (s.mounts.map Mount.mountPoint) path

/-- What is found at a path: a file, a directory, a link, or nothing. -/
def look : Option (Node Str (Content Str)) := s.tree.look (s.locate path)

/-- Whether a directory is at the path.  No path of the script goes through a link, and so none is
followed. -/
def isdir : Bool :=
  match s.look path with
  | some .dir => true
  | _ => false

/-- `[ -f path ]`, which is right about paths that do not end in a link. -/
def isfile : Bool :=
  match s.look path with
  | some (.file _) => true
  | _ => false

/-- A change of the files in the place that the path leads to, with the path inside of that
place. -/
def modify (change : Nodes Str (Content Str) → List Str → Nodes Str (Content Str)) : System :=
  { s with tree := s.tree.modify change (s.locate path) }

/-- A node is put in the place that a path leads to. -/
def put (node : Node Str (Content Str)) : System := s.modify path fun files p => files.put p node

/-- A file system takes names of up to 255 bytes. -/
def takesName : Bool :=
  match path.getLast? with
  | some name => (String.ofList name).utf8ByteSize ≤ 255
  | none => false

/-! ### Commands -/

/-- A file or a directory is made, in a directory. -/
def create (node : Node Str (Content Str)) : Option System :=
  if s.isdir path.dropLast && takesName path then some (s.put path node) else none

/-- One directory of `mkdir -p`: it is made where nothing is, and a directory that is there is left
alone. -/
def mkdir : Option System :=
  match s.look path with
  | some .dir => some s
  | some _ => none
  | none => s.create path .dir

/-- `mkdir -p`, where the directories `above` are there. -/
def mkdirs (s : System) (above : List Str) : List Str → Option System
  | [] => some s
  | name :: names => (s.mkdir (above ++ [name])).bind (·.mkdirs (above ++ [name]) names)

/-- `truncate -s`, which makes the file when it is not there.  Of its size nothing is kept in the
model. -/
def truncate : Option System :=
  match s.look path with
  | some (.file _) => some s
  | some _ => none
  | none => s.create path (.file .data)

/-- An empty file system has a directory for what is found of lost files. -/
def blank : Nodes Str (Content Str) := fun path =>
  if path = [] ∨ path = ["lost+found".toList] then some .dir else none

/-- `mkfs.ext4 -m0`, on a file that exists: whatever has been in it is replaced by an empty file
system. -/
def mkfs : Option System := if s.isfile path then some (s.put path (.file (.ext4 blank))) else none

/-- The table of mounts with one more, which hides what is below its directory. -/
def mount (m : Mount) : System := { s with mounts := m :: s.mounts }

/-- `bindfs`, which shows one directory in the place of another one.  Both have to be there. -/
def bindfs (src dst : Str) : Option System :=
  if s.isdir (components src) && s.isdir (components dst) then some (s.mount ⟨src, dst, .bindfs⟩)
  else none

/-- Whether a location is in the image of that path. -/
def inImage (file : List Str) : Location Str → Bool
  | .image file' _ => file' = file
  | _ => false

/-- `mount image dir`: the file has to hold a file system.  What has been cleaned of that image
before does not count for the new mount. -/
def mountExt4 (image dir : Str) : Option System :=
  match s.look (components image) with
  | some (.file (.ext4 _)) =>
    if s.isdir (components dir) then
      some { s.mount ⟨image, dir, .ext4⟩ with
        kept := s.kept.filter fun location => !inImage (components image) location }
    else none
  | _ => none

/-- The value of an option: the text behind the name, which includes the equals sign, or nothing for
another option. -/
def optionValue (name : String) (text : Str) : Option Str :=
  if name.toList <+: text then some (text.drop name.toList.length) else none

/-- `mount -t overlay`; colons would separate several lower directories. -/
def mountOverlay (options dir : Str) : Option System :=
  match options.splitOn ',' with
  | [lowerdir, upperdir, workdir] => do
    let lower ← optionValue "lowerdir=" lowerdir
    let upper ← optionValue "upperdir=" upperdir
    let work ← optionValue "workdir=" workdir
    if lower.contains ':' then none
    else if s.isdir (components lower) && s.isdir (components upper) && s.isdir (components work) &&
        s.isdir (components dir) then
      some (s.mount ⟨"overlay".toList, dir, .overlay lower upper work⟩)
    else none
  | _ => none

/-- `chown -R`; who owns a file is not a part of the state. -/
def chown (nss : NameService) (owner : Str) (paths : List Str) : Option System :=
  match owner.splitOn ':' with
  | [user, group] =>
    if (nss.getpwnam user).isSome && group = "lanparty".toList &&
        paths.all fun path => (s.look (components path)).isSome then
      some s
    else none
  | _ => none

/-- `files` with what is below a path replaced by what is left of it. -/
def swept (keepEngine : KeepEngine) (files : Nodes Str (Content Str)) (path : List Str) :
    Nodes Str (Content Str) := fun p =>
  if path <+: p then keepEngine.clean (files.below path) (p.drop path.length) else files p

/-- `keepEngine user rules folder`: without the rules or the folder it fails; else the folder is
swept and the run is recorded. -/
def keep (keepEngine : KeepEngine) (rules folder : List Str) : Option System :=
  if s.isfile rules && s.isdir folder then
    some { s.modify folder (swept keepEngine) with kept := s.locate folder :: s.kept }
  else none

/-- `rm` of the marker, which is known to be a file: the path has no node afterwards. -/
def rm : System := s.modify path fun files p => Function.update files p none

/-- `touch`: an existing node stays as it is, and else there is an empty file. A folder that is
missing leaves all as before. -/
def touch : System :=
  match s.look path with
  | some _ => s
  | none => (s.create path (.file .data)).getD s

/-- The commands that the script runs; `none` is a failure. -/
def exec (login : Login) (s : System) (argv : List Str) : Option System :=
  match argv.map String.ofList with
  | "truncate" :: "-s" :: _ :: file :: files =>
    (file :: files).foldlM (fun s file => s.truncate (components file.toList)) s
  | ["/usr/sbin/mkfs.ext4", "-m0", file] => s.mkfs (components file.toList)
  | "mkdir" :: "-p" :: dir :: dirs =>
    (dir :: dirs).foldlM (fun s dir => s.mkdirs [] (components dir.toList)) s
  | ["bindfs", _, "-o", "ro,noatime", "--multithreaded", src, dst] => s.bindfs src.toList dst.toList
  | ["mount", image, dir] => s.mountExt4 image.toList dir.toList
  | ["mount", "-t", "overlay", "overlay", "-o", options, dir] =>
    s.mountOverlay options.toList dir.toList
  | "chown" :: "-R" :: owner :: path :: paths =>
    s.chown login.nss owner.toList ((path :: paths).map String.toList)
  | ["/lapas/keepEngine", "user", rules, folder] =>
    s.keep login.keepEngine (components rules.toList) (components folder.toList)
  | _ => none

section

variable {s : System} {login : Login}

theorem exec_truncate (size file : Str) :
    s.exec login ["truncate".toList, "-s".toList, size, file] = s.truncate (components file) := by
  unfold exec
  simp only [List.map_cons, List.map_nil, String.ofList_toList, String.toList_ofList,
    List.foldlM_cons, List.foldlM_nil]
  exact bind_pure _

theorem exec_mkfs (file : Str) :
    s.exec login ["/usr/sbin/mkfs.ext4".toList, "-m0".toList, file] = s.mkfs (components file) := by
  unfold exec
  simp only [List.map_cons, List.map_nil, String.ofList_toList, String.toList_ofList]

theorem exec_mkdir (dir : Str) :
    s.exec login ["mkdir".toList, "-p".toList, dir] = s.mkdirs [] (components dir) := by
  unfold exec
  simp only [List.map_cons, List.map_nil, String.ofList_toList, String.toList_ofList,
    List.foldlM_cons, List.foldlM_nil]
  exact bind_pure _

theorem exec_bindfs (map src dst : Str) :
    s.exec login ["bindfs".toList, map, "-o".toList, "ro,noatime".toList, "--multithreaded".toList,
      src, dst] = s.bindfs src dst := by
  unfold exec
  simp only [List.map_cons, List.map_nil, String.ofList_toList, String.toList_ofList]

theorem exec_mount (image dir : Str) :
    s.exec login ["mount".toList, image, dir] = s.mountExt4 image dir := by
  unfold exec
  simp only [List.map_cons, List.map_nil, String.ofList_toList, String.toList_ofList]

theorem exec_overlay (options dir : Str) :
    s.exec login ["mount".toList, "-t".toList, "overlay".toList, "overlay".toList, "-o".toList,
      options, dir] = s.mountOverlay options dir := by
  unfold exec
  simp only [List.map_cons, List.map_nil, String.ofList_toList, String.toList_ofList]

theorem exec_chown (owner path : Str) :
    s.exec login ["chown".toList, "-R".toList, owner, path] = s.chown login.nss owner [path] := by
  unfold exec
  simp only [List.map_cons, List.map_nil, String.ofList_toList, String.toList_ofList]

theorem exec_keepEngine (rules folder : Str) :
    s.exec login ["/lapas/keepEngine".toList, "user".toList, rules, folder] =
      s.keep login.keepEngine (components rules) (components folder) := by
  unfold exec
  simp only [List.map_cons, List.map_nil, String.ofList_toList, String.toList_ofList]

end

end System

/-! ### The script -/

/-- Spaces, tabs and line breaks separate words. -/
def ifs (c : Char) : Bool := c = ' ' || c = '\t' || c = '\n'

/-- `BASEUSER_NAME`, the account that the guest itself is set up with. -/
def baseuserName : Str := "lapas".toList

/-- `USER_BASE_DIR`, the home of the base user, which all homes are laid over. -/
def userBaseDir : Str := "/mnt/homeBase".toList

/-- `USER_MOUNT_DIR`, below which the mounts of one user are. -/
def userMountDir (user : Str) : Str := "/mnt/.mounts/".toList ++ user

/-- `USER_PERSISTENT_MOUNT_DIR`, where the image of the user is mounted. -/
def userPersistentMountDir (user : Str) : Str := userMountDir user ++ "/overlay".toList

/-- `USER_BASE_MOUNT_DIR`, where the home of the base user is mounted with the ids of the user. -/
def userBaseMountDir (user : Str) : Str := userMountDir user ++ "/base".toList

/-- `USER_PERSISTENT_IMAGE`, the file with the file system that keeps what the user changes. -/
def userPersistentImage (user : Str) : Str := "/mnt/homes/".toList ++ user

/-- The upper directory of the overlay, in the image of the user. -/
def upperDir (user : Str) : Str := userPersistentMountDir user ++ "/upper".toList

/-- The directory that the overlay needs for its work, next to the upper one. -/
def workDir (user : Str) : Str := userPersistentMountDir user ++ "/work".toList

/-- The marker that the cleanup has been done since the image has been mounted. -/
def keepApplied (user : Str) : Str := upperDir user ++ "/.keepApplied".toList

namespace Login

variable (login : Login)

/-- `LOGINUSER_HOME`: the sixth field of the line of `getent`, and the empty text for an unknown
user. -/
def loginuserHome : Str :=
  match login.nss.getent login.user with
  | some entry => cutSixth entry.line
  | none => []

/-- `id -u`; nothing is printed of a user that does not exist. -/
def uid (user : Str) : Str :=
  match login.nss.id user with
  | some entry => decimal entry.uid
  | none => []

/-- `--map=${BASEUSER_UID}/${LOGINUSER_UID}`, the option of `bindfs` that shows files of the base
user as files of the player. -/
def map : Str :=
  "--map=".toList ++ login.uid baseuserName ++ "/".toList ++ login.uid login.user

/-- The owner of what is the player's. -/
def owner : Str := login.user ++ ":lanparty".toList

/-- The options of the overlay: the home of the base user is the lower directory, and the image of
the user has the upper one. -/
def overlayOptions : Str :=
  "lowerdir=".toList ++ userBaseMountDir login.user ++ ",upperdir=".toList ++ upperDir login.user ++
    ",workdir=".toList ++ workDir login.user

end Login

section

variable (grep : System → Str → ℕ) (glob : System → Str → List Str) (login : Login)

/-- `$@` is not quoted.  The `error` is the guest after a script that has been aborted. -/
def assertSuccessfull (args : List Str) (s : System) : Except System System :=
  match s.exec login (args.flatMap (expand ifs (glob s))) with
  | some s' => .ok s'
  | none => .error s

/-- `chown -R` to `$PAM_USER:lanparty`, neither part of which is quoted; the owner is what the
expansion leaves of it. -/
def chownUser (path : Str) (s : System) : Except System System :=
  assertSuccessfull glob login
    (["chown".toList, "-R".toList] ++ expand ifs (glob s) login.owner ++ [path]) s

/-- Create and format user persistence (ext4) image if it doesn't exist yet. -/
def createImage (s : System) : Except System System :=
  if s.isfile (components (userPersistentImage login.user)) then .ok s
  else do
    let s ← assertSuccessfull glob login
      ["truncate".toList, "-s".toList, "16G".toList, userPersistentImage login.user] s
    assertSuccessfull glob login
      ["/usr/sbin/mkfs.ext4".toList, "-m0".toList, userPersistentImage login.user] s

/-- Mount /mnt/homeBase idmapped for the user that is currently logging in. -/
def mountBase (s : System) : Except System System :=
  if grep s (userBaseMountDir login.user) = 0 then do
    let s ← assertSuccessfull glob login
      ["mkdir".toList, "-p".toList, userBaseMountDir login.user] s
    assertSuccessfull glob login
      ["bindfs".toList, login.map, "-o".toList, "ro,noatime".toList, "--multithreaded".toList,
        userBaseDir, userBaseMountDir login.user] s
  else .ok s

/-- Remove cleanup marker from user's upper dir on every mount (once per boot). -/
def removeMarker (s : System) : System :=
  if s.isfile (components (keepApplied login.user)) then s.rm (components (keepApplied login.user))
  else s

/-- Mount the image of the user, unless `mount` already lists it, and make the directories that the
overlay needs. -/
def mountImage (s : System) : Except System System :=
  if grep s (userPersistentImage login.user) = 0 then do
    let s ← assertSuccessfull glob login
      ["mkdir".toList, "-p".toList, userPersistentMountDir login.user] s
    let s ← assertSuccessfull glob login
      ["mount".toList, userPersistentImage login.user, userPersistentMountDir login.user] s
    let s ← assertSuccessfull glob login ["mkdir".toList, "-p".toList, upperDir login.user] s
    let s ← assertSuccessfull glob login ["mkdir".toList, "-p".toList, workDir login.user] s
    let s ← chownUser glob login (userPersistentMountDir login.user) s
    return removeMarker login s
  else .ok s

/-- Cleanup has not yet run on this boot, run it now. -/
def applyKeep (s : System) : Except System System :=
  if s.isfile (components (keepApplied login.user)) then .ok s
  else do
    let s ← assertSuccessfull glob login
      ["/lapas/keepEngine".toList, "user".toList,
        userBaseMountDir login.user ++ "/.keep".toList, upperDir login.user] s
    return s.touch (components (keepApplied login.user))

/-- Mount the home of the user, unless `mount` prints a line in which it occurs. -/
def mountHomeOverlay (s : System) : Except System System :=
  if grep s login.loginuserHome = 0 then do
    let s ← assertSuccessfull glob login ["mkdir".toList, "-p".toList, login.loginuserHome] s
    let s ← chownUser glob login login.loginuserHome s
    assertSuccessfull glob login
      ["mount".toList, "-t".toList, "overlay".toList, "overlay".toList, "-o".toList,
        login.overlayOptions, login.loginuserHome] s
  else .ok s

/-- `mountHome.sh`, when a session is opened; `grep` counts the mounts.  What the client answers to
`add-dns-mapping` is not looked at. -/
def mountHome (s : System) : Except System System := do
  if !s.isfile (components "/lapas/common.sh".toList) ||
      !s.isfile (components "/lapas/lapas-api.env".toList) then
    throw s
  if (login.nss.id login.user).map (·.gid) ≠ (login.nss.id baseuserName).map (·.gid) then
    return s
  if !s.isfile (components "/.lapasUser".toList) && login.user ≠ baseuserName then
    throw s
  if login.user ≠ baseuserName then
    let s ← createImage glob login s
    let s ← mountBase grep glob login s
    let s ← mountImage grep glob login s
    let s ← applyKeep glob login s
    mountHomeOverlay grep glob login s
  else return s

end

/-! ### What a login is for -/

/-- The home of the user is an overlay with the upper directory in the image of that user, which
is mounted in its place and has been cleaned since. -/
structure LoggedIn (user : Str) (s : System) : Prop where
  image : s.locate (components (userPersistentMountDir user)) =
    .image (components (userPersistentImage user)) []
  kept : .image (components (userPersistentImage user)) ["upper".toList] ∈ s.kept
  home : ∃ lower, s.locate (components ("/home/".toList ++ user)) =
    .merged (.image (components (userPersistentImage user)) ["upper".toList]) lower

end Guest
end Lapas
