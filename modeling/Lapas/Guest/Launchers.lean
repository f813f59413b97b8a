import Mathlib.Data.Set.Function
import Lapas.Library.Inserts
import Lapas.Guest.DesktopEntry
import Lapas.Guest.ExecLine

/-!
# Launchers of shortcuts

`updateDesktopFiles` removes the launchers that are there, and writes one for each visible
shortcut of each bottle.  The name of the file joins the two names with a character that both
may hold, and the folder of a bottle is taken for a pattern.

## Main definitions

* `Shortcut`, `Bottle`, `UmuRepo`, `Env` — what is read.
* `getShortcuts`, `cmdUpdateDesktopFiles` — the functions of these names.
* `startNames` — the shortcut that a launcher starts.
* `OneToOne` — the launchers are those of the visible shortcuts.
* `Suitable` — nothing is raised, and each visible shortcut keeps its file.

## Main results

* `cmdUpdateDesktopFiles_eq_ok_iff` — what a run leaves.
* `oneToOne_iff` — **the launchers match exactly then.**
-/

namespace Lapas
namespace Guest
namespace Launchers

/-! ### Bottles -/

/-- What a folder of the file system can hold under a name: no slash, no null, neither of the two
dots, and at most 255 bytes. -/
structure IsFileName (name : PyStr) : Prop where
  ne_nil : name ≠ []
  ne_dot : name ≠ lit "."
  ne_dots : name ≠ lit ".."
  slash_notMem : .char '/' ∉ name
  nul_notMem : .char '\x00' ∉ name
  length_le : fsLength name ≤ 255

instance (name : PyStr) : Decidable (IsFileName name) :=
  decidable_of_iff (name ≠ [] ∧ name ≠ lit "." ∧ name ≠ lit ".." ∧ .char '/' ∉ name ∧
      .char '\x00' ∉ name ∧ fsLength name ≤ 255)
    ⟨fun ⟨hnil, hdot, hdots, hslash, hnul, hlength⟩ => ⟨hnil, hdot, hdots, hslash, hnul, hlength⟩,
      fun ⟨hnil, hdot, hdots, hslash, hnul, hlength⟩ => ⟨hnil, hdot, hdots, hslash, hnul, hlength⟩⟩

/-- The table `shortcut` of a file, with the entries that the launcher is made of; an entry that may
be missing is an option. -/
structure Settings where
  name : Value
  comment : Value
  visible : Option Bool
  keywords : Option Value

/-- A file that `*.shortcut` takes, together with the icons beside it. Its name is one that the
folder can hold and that the pattern matches. -/
structure Shortcut where
  /-- Without the extension. -/
  name : PyStr
  settings : Settings
  /-- The extensions with which there is a file of this name. -/
  icons : List String
  isFileName : IsFileName (name ++ lit ".shortcut")
  taken : glob1 (name ++ lit ".shortcut") (lit "*.shortcut") = true

/-- A bottle of the `lapasUmuManager`: a directory with this name, and the shortcuts in it, which
are files and so have different names. -/
structure Bottle where
  name : PyStr
  shortcuts : List Shortcut
  isFileName : IsFileName name
  nodup : (shortcuts.map Shortcut.name).Nodup

/-- The repository of the bottles.  Its path is no pattern, so that `glob` takes it literally, and
the bottles in it have different names. -/
structure UmuRepo where
  bottlesPath : PyStr
  bottles : List Bottle
  plain : hasMagic bottlesPath = false
  nodup : (bottles.map Bottle.name).Nodup

/-- A shortcut is visible unless its settings say that it is not. -/
def Shortcut.isVisible (shortcut : Shortcut) : Bool := shortcut.settings.visible.getD true

/-- A shortcut that a bottle finds, and the bottle where it lies. -/
structure Launch where
  bottle : Bottle
  place : Bottle
  shortcut : Shortcut

/-- The folder of the bottle is part of the pattern. -/
def getShortcuts (repo : UmuRepo) (bottle : Bottle) : List Launch :=
  let places := if hasMagic bottle.name then repo.bottles.filter (glob1 ·.name bottle.name)
    else [bottle]
  places.flatMap fun place => place.shortcuts.map fun shortcut => ⟨bottle, place, shortcut⟩

namespace Launch

variable (repo : UmuRepo) (launch : Launch)

/-- The names of the bottle and of the shortcut. -/
def names : PyStr × PyStr := (launch.bottle.name, launch.shortcut.name)

/-- The directory of the bottle, which stands in for an icon that is not there. -/
def baseFolder : PyStr := repo.bottlesPath ++ lit "/" ++ launch.bottle.name

/-- The endings of icons, in the order in which they are tried. -/
def iconExts : List String := ["svg", "png", "xpm", "tga", "jpg", "ico"]

/-- `try_find_icon`: the path of the first icon that is there for the shortcut, or the default when
there is none. -/
def tryFindIcon (default : PyStr) : PyStr :=
  match iconExts.find? (· ∈ launch.shortcut.icons) with
  | some e => repo.bottlesPath ++ lit "/" ++ launch.place.name ++ lit "/" ++
      launch.shortcut.name ++ lit "." ++ lit e
  | none => default

end Launch

/-! ### The command -/

/-- The terminal, the order of sets, and what `argparse` takes for a number. -/
structure Env where
  /-- The characters that standard output can encode. -/
  stdout : PyChar → Bool
  stdout_ascii : ∀ c : Char, c.toNat < 128 → stdout (.char c) = true
  setOrder : List PyStr → List PyStr
  /-- An argument that looks like a negative number, and so like no option. -/
  negativeNumber : PyStr → Bool

/-- What the directory of the launchers holds: files with their text, and directories. -/
inductive Entry
  | file (content : PyStr)
  | dir
  deriving DecidableEq

/-- The directory of the launchers, by the names of what is in it. -/
abbrev Folder := AList fun _ : PyStr => Entry

/-- The errors of the file system that a run can end with. -/
inductive OsError
  | fileNotFoundError
  | isADirectoryError
  /-- The name is too long. -/
  | osError
  | unicodeEncodeError
  deriving DecidableEq

/-- `print` of a text, which raises when the encoding of the terminal does not have one of its
characters. -/
def print (env : Env) (text : PyStr) : Except OsError Unit :=
  if text.all env.stdout then .ok () else .error .unicodeEncodeError

/-- `os.remove` of an entry of the folder, which is no link: a file is removed, a folder or a
missing name raises. -/
def remove (folder : Folder) (name : PyStr) : Except OsError Folder :=
  match folder.lookup name with
  | some (.file _) => .ok (folder.erase name)
  | some .dir => .error .isADirectoryError
  | none => .error .fileNotFoundError

/-- `open(path, "w")` and `f.write(content)`: the name must not be that of a folder nor too long for
the file system, and the content has to be encodable. -/
def writeFile (folder : Folder) (name content : PyStr) : Except OsError Folder :=
  if folder.lookup name = some .dir then .error .isADirectoryError
  else if 255 < fsLength name then .error .osError
  else if encodable content then .ok (folder.insert name (.file content))
  else .error .unicodeEncodeError

/-- What the pattern for launchers takes; `removeLaunchers` removes every name of the folder for
which it holds. -/
def isLauncher (name : PyStr) : Bool := glob1 name (lit "umu_*.desktop")

/-- The name of the desktop file of a bottle and a shortcut. -/
def launcherName (names : PyStr × PyStr) : PyStr :=
  lit "umu_" ++ names.1 ++ lit "_" ++ names.2 ++ lit ".desktop"

/-- The command of a launcher: the script splits it into words when it is run, and no name is quoted
in it. -/
def startCmd (names : PyStr × PyStr) : PyStr :=
  lit "/mnt/homeBase/.lapas/bin/lapasUmuManager start " ++ names.1 ++ lit " " ++ names.2

section

variable (env : Env) (repo : UmuRepo)

/-- All files that are called like launchers are removed, whoever has made them. -/
def removeLaunchers (folder : Folder) : Except OsError Folder :=
  (folder.keys.filter isLauncher).foldlM remove folder

namespace Launch

variable (launch : Launch)

/-- The icon of a launcher, for which the directory of the bottle stands in when the shortcut has
none. -/
def icon : Value := .text (launch.tryFindIcon repo (launch.baseFolder repo))

/-- The keywords of a launcher, an empty list when the settings have none. -/
def keywords : Value := launch.shortcut.settings.keywords.getD (.list [])

/-- What is written to the file of a launcher: the desktop entry with the command, the icon and the
texts of its shortcut. -/
def content : PyStr :=
  generate env.setOrder (startCmd launch.names)
    (launcherArgs launch.shortcut.settings.name (launch.icon repo)
      launch.shortcut.settings.comment launch.keywords)

/-- The loop over the shortcuts of a bottle. -/
def update (folder : Folder) : Except OsError Folder := do
  print env (lit "      - \x1b[1;97m" ++ launch.shortcut.name ++ lit "\x1b[0m" ++
    if launch.shortcut.isVisible then [] else lit " [hidden]")
  if launch.shortcut.isVisible then
    writeFile folder (launcherName launch.names) (launch.content env repo)
  else pure folder

end Launch

/-- The loop over the shortcuts of one bottle, behind the line that it prints; the first exception
ends it. -/
def Bottle.update (bottle : Bottle) (folder : Folder) : Except OsError Folder := do
  print env (lit "  - Bottle: \x1b[1;97m" ++ bottle.name ++ lit "\x1b[0m")
  (getShortcuts repo bottle).foldlM (fun folder launch => launch.update env repo folder) folder

/-- `cmd_update_desktop_files`: the old launchers are removed, and then those of all bottles are
written.  A run that fails leaves the directory half way. -/
def cmdUpdateDesktopFiles (folder : Folder) : Except OsError Folder := do
  print env (lit "Updating Desktop Launchers...")
  let folder ← removeLaunchers folder
  repo.bottles.foldlM (fun folder bottle => bottle.update env repo folder) folder

end

/-! ### The property -/

section

variable (env : Env) (repo : UmuRepo)

/-- `argparse` takes an argument for an option. -/
def isOption (arg : PyStr) : Bool :=
  arg.head? = some (.char '-') && arg ≠ lit "-" && !env.negativeNumber arg

/-- The bottle and the shortcut that a command line starts: it calls `lapasUmuManager` with the
command `start`, whose parser takes two arguments that are no options. -/
def startNames (line : PyStr) : Option (PyStr × PyStr) :=
  match readExec line with
  | some [program, command, bottle, shortcut] =>
    if program = lit "/mnt/homeBase/.lapas/bin/lapasUmuManager" ∧ command = lit "start" ∧
        isOption env bottle = false ∧ isOption env shortcut = false then some (bottle, shortcut)
    else none
  | _ => none

/-- The visible shortcuts of all bottles, each as the name of its bottle and its own name, which is
what a launcher is for. -/
def visibleShortcuts : List (PyStr × PyStr) :=
  repo.bottles.flatMap fun bottle =>
    (bottle.shortcuts.filter Shortcut.isVisible).map fun shortcut => (bottle.name, shortcut.name)

/-- Each visible shortcut has a launcher of its own that starts it, and there are no others. -/
structure OneToOne (folder : Folder) : Prop where
  bijOn : Set.BijOn launcherName {names | names ∈ visibleShortcuts repo}
    {name | isLauncher name ∧ name ∈ folder}
  exec : ∀ names ∈ visibleShortcuts repo, ∃ content line,
    folder.lookup (launcherName names) = some (.file content) ∧
      execs content = [lit "Exec=" ++ line] ∧ startNames env line = some names

/-- The names are plain arguments, and neither is an option. -/
def Startable (names : PyStr × PyStr) : Prop :=
  (IsPlainArg names.1 ∧ IsPlainArg names.2) ∧
    isOption env names.1 = false ∧ isOption env names.2 = false

/-- What the loops come across: every shortcut of every bottle, the invisible ones included, in the
order of the loops. -/
def found : List Launch := repo.bottles.flatMap (getShortcuts repo)

/-- The launchers that are written: those of the visible shortcuts, in the order in which the loops
come across them. -/
def launched : List Launch := (found repo).filter (·.shortcut.isVisible)

namespace Launch

variable (launch : Launch)

/-- The name of the desktop file of a launcher. -/
def fileName : PyStr := launcherName launch.names

/-- What a launcher takes from its shortcut and the settings of it. -/
def values : List Value :=
  [launch.shortcut.settings.name, launch.icon repo, launch.shortcut.settings.comment,
    launch.keywords]

/-- The launcher can be written: its file name fits into the file system, and the command and all
values can be encoded. -/
def Writable : Prop :=
  fsLength launch.fileName ≤ 255 ∧ encodable (startCmd launch.names) = true ∧
    ∀ value ∈ launch.values repo, value.encodable env.setOrder = true

/-- Its names can stand in a command line as they are, and no value has a line that is read for
the command. -/
def Quiet : Prop :=
  Startable env launch.names ∧ ∀ value ∈ launch.values repo, value.further env.setOrder = []

end Launch

/-- No directory has the name of a launcher. -/
def NoDirs (folder : Folder) : Prop :=
  ∀ name, isLauncher name = true → folder.lookup name ≠ some .dir

/-- All names can be printed, all launchers can be written, and those that are not overwritten
are those of the visible shortcuts. -/
structure Suitable (folder : Folder) : Prop where
  noDirs : NoDirs folder
  bottle_printable : ∀ bottle ∈ repo.bottles, bottle.name.all env.stdout
  shortcut_printable : ∀ launch ∈ found repo, launch.shortcut.name.all env.stdout
  writable : ∀ launch ∈ launched repo, launch.Writable env repo
  kept : ∀ names, names ∈ visibleShortcuts repo ↔
    ∃ launch, Kept Launch.fileName (launched repo) launch ∧ launch.names = names
  quiet : ∀ launch, Kept Launch.fileName (launched repo) launch → launch.Quiet env repo

end

/-! ### One round -/

section

variable {env : Env} {repo : UmuRepo} {folder folder' : Folder}

theorem isLauncher_launcherName (names : PyStr × PyStr) :
    isLauncher (launcherName names) = true := by
  have hpieces : translate (lit "umu_*.desktop").length (lit "umu_*.desktop") =
      (lit "umu_").map .one ++ .star :: (lit ".desktop").map .one := by decide
  have hname : launcherName names =
      lit "umu_" ++ ((names.1 ++ lit "_" ++ names.2) ++ lit ".desktop") := by
    simp only [launcherName, List.append_assoc]
  have hhidden : isHidden (launcherName names) = false := rfl
  rw [isLauncher, glob1, hhidden, fnmatch, hpieces, hname, matchPieces_star, Bool.not_false,
    Bool.or_true]
  rfl

theorem all_lit {text : String} (h : text.toList.all (·.toNat < 128) = true) :
    (lit text).all env.stdout = true := by
  rw [lit, List.all_map]
  refine List.all_eq_true.mpr fun c hc => env.stdout_ascii c ?_
  exact of_decide_eq_true (List.all_eq_true.mp h c hc)

theorem print_bind_eq_ok_iff {text : PyStr} {rest : Except OsError Folder} :
    (do print env text; rest) = .ok folder' ↔ text.all env.stdout = true ∧ rest = .ok folder' := by
  unfold print
  split
  · next h => exact (and_iff_right h).symm
  · next h =>
    constructor
    · intro hraised
      cases hraised
    · exact fun hok => absurd hok.1 h

theorem writeFile_eq_ok_iff {name content : PyStr} (hdir : folder.lookup name ≠ some .dir) :
    writeFile folder name content = .ok folder' ↔
      (fsLength name ≤ 255 ∧ encodable content = true) ∧
        folder' = folder.insert name (.file content) := by
  rw [writeFile, if_neg hdir]
  by_cases hlength : 255 < fsLength name
  · rw [if_pos hlength]
    simp [hlength]
  · rw [if_neg hlength]
    by_cases hcontent : encodable content = true
    · rw [if_pos hcontent, Except.ok.injEq]
      simp [hcontent, not_lt.mp hlength, eq_comm]
    · rw [if_neg hcontent]
      simp [hcontent]

namespace Launch

/-- Nothing is raised in this round: the name can be printed, and a visible shortcut has a launcher
that can be written. -/
def Ok (env : Env) (repo : UmuRepo) (launch : Launch) : Prop :=
  launch.shortcut.name.all env.stdout = true ∧
    (launch.shortcut.isVisible = true → launch.Writable env repo)

/-- What a round leaves of the folder: a visible shortcut has its file, an invisible one leaves
everything as it is. -/
def next (env : Env) (repo : UmuRepo) (folder : Folder) (launch : Launch) : Folder :=
  if launch.shortcut.isVisible then
    folder.insert launch.fileName (.file (launch.content env repo))
  else folder

theorem update_eq_ok_iff {launch : Launch} (hdirs : NoDirs folder) :
    launch.update env repo folder = .ok folder' ↔
      launch.Ok env repo ∧ folder' = launch.next env repo folder := by
  have hline : (lit "      - \x1b[1;97m" ++ launch.shortcut.name ++ lit "\x1b[0m" ++
      if launch.shortcut.isVisible then [] else lit " [hidden]").all env.stdout = true ↔
        launch.shortcut.name.all env.stdout = true := by
    rw [List.all_append, List.all_append, List.all_append, all_lit (by decide),
      all_lit (by decide)]
    split
    · simp
    · rw [all_lit (by decide)]
      simp
  rw [update, print_bind_eq_ok_iff, hline, Ok, next, and_assoc]
  refine and_congr_right' ?_
  by_cases hvisible : launch.shortcut.isVisible = true
  · rw [if_pos hvisible, if_pos hvisible,
      writeFile_eq_ok_iff (hdirs _ (isLauncher_launcherName launch.names)), content,
      encodable_generate, forall_prop_of_true hvisible]
    rfl
  · rw [if_neg hvisible, if_neg hvisible]
    constructor
    · rintro ⟨⟩
      exact ⟨fun h => absurd h hvisible, rfl⟩
    · rintro ⟨-, rfl⟩
      rfl

theorem noDirs_next {launch : Launch} (hdirs : NoDirs folder) :
    NoDirs (launch.next env repo folder) := by
  intro name hname
  rw [next]
  split
  · by_cases heq : name = launch.fileName
    · rw [heq, AList.lookup_insert]
      exact fun h => nomatch h
    · rw [AList.lookup_insert_ne heq]
      exact hdirs name hname
  · exact hdirs name hname

end Launch

/-! ### The loops -/

theorem Bottle.update_eq_ok_iff {bottle : Bottle} (hdirs : NoDirs folder) :
    bottle.update env repo folder = .ok folder' ↔
      (bottle.name.all env.stdout = true ∧ ∀ launch ∈ getShortcuts repo bottle,
        launch.Ok env repo) ∧
      folder' = (getShortcuts repo bottle).foldl (Launch.next env repo) folder := by
  have hline : (lit "  - Bottle: \x1b[1;97m" ++ bottle.name ++ lit "\x1b[0m").all env.stdout =
      true ↔ bottle.name.all env.stdout = true := by
    rw [List.all_append, List.all_append, all_lit (by decide), all_lit (by decide)]
    simp
  have hround : ∀ folder, NoDirs folder → ∀ (launch : Launch) folder',
      launch.update env repo folder = .ok folder' ↔
        launch.Ok env repo ∧ folder' = Launch.next env repo folder launch :=
    fun _ hdirs _ _ => Launch.update_eq_ok_iff hdirs
  have hnext : ∀ folder, NoDirs folder → ∀ launch : Launch, launch.Ok env repo →
      NoDirs (Launch.next env repo folder launch) :=
    fun _ hdirs _ _ => Launch.noDirs_next hdirs
  rw [update, print_bind_eq_ok_iff, hline, and_assoc, foldlM_eq_ok_iff hround hnext _ hdirs]

/-- The loop that removes. -/
theorem foldlM_remove_eq_ok_iff {names : List PyStr} (hnodup : names.Nodup)
    (hmem : ∀ name ∈ names, name ∈ folder) :
    names.foldlM remove folder = .ok folder' ↔
      (∀ name ∈ names, folder.lookup name ≠ some .dir) ∧
        folder' = names.foldl (fun folder name => folder.erase name) folder := by
  induction names generalizing folder with
  | nil => simp [pure, Except.pure, eq_comm]
  | cons name names ih =>
    obtain ⟨hname, hnodup⟩ := List.nodup_cons.mp hnodup
    rw [List.forall_mem_cons] at hmem
    rw [List.foldlM_cons, List.forall_mem_cons, List.foldl_cons]
    have hne : ∀ name' ∈ names, name' ≠ name := fun name' hmem' heq => hname (heq ▸ hmem')
    cases hlookup : folder.lookup name with
    | none => exact absurd hmem.1 (AList.lookup_eq_none.mp hlookup)
    | some entry =>
      cases entry with
      | dir =>
        constructor
        · intro h
          rw [remove, hlookup] at h
          cases h
        · exact fun h => absurd rfl h.1.1
      | file content =>
        have hremove : remove folder name = .ok (folder.erase name) := by rw [remove, hlookup]
        have hrest : (∀ name' ∈ names, (folder.erase name).lookup name' ≠ some .dir) ↔
            ∀ name' ∈ names, folder.lookup name' ≠ some .dir :=
          forall₂_congr fun name' hmem' => by rw [AList.lookup_erase_ne (hne name' hmem')]
        have hmem_erase : ∀ name' ∈ names, name' ∈ folder.erase name := fun name' hmem' =>
          AList.mem_erase.mpr ⟨hne name' hmem', hmem.2 name' hmem'⟩
        rw [hremove, and_iff_right (fun h => nomatch h), ← hrest, ← ih hnodup hmem_erase]
        rfl

theorem removeLaunchers_eq_ok_iff :
    removeLaunchers folder = .ok folder' ↔ NoDirs folder ∧
      folder' = (folder.keys.filter isLauncher).foldl (fun folder name => folder.erase name)
        folder := by
  have hmem : ∀ name ∈ folder.keys.filter isLauncher, name ∈ folder := fun name h =>
    AList.mem_keys.mpr (List.mem_of_mem_filter h)
  rw [removeLaunchers, foldlM_remove_eq_ok_iff (folder.keys_nodup.filter _) hmem]
  refine and_congr_left' ⟨fun h name hname hdir => ?_, fun h name hname => ?_⟩
  · have hin : name ∈ folder := AList.lookup_isSome.mp (by rw [hdir]; rfl)
    exact h name (List.mem_filter.mpr ⟨AList.mem_keys.mp hin, hname⟩) hdir
  · exact h name (List.mem_filter.mp hname).2

/-- The folder without its launchers. -/
theorem lookup_removed {name : PyStr} (hname : isLauncher name = true) :
    ((folder.keys.filter isLauncher).foldl (fun folder name => folder.erase name) folder).lookup
      name = none := by
  rw [lookup_foldl_erase]
  split
  · rfl
  · next h =>
    refine AList.lookup_eq_none.mpr fun hmem => h ?_
    exact List.mem_filter.mpr ⟨AList.mem_keys.mp hmem, hname⟩

/-- **What a run leaves.** -/
theorem cmdUpdateDesktopFiles_eq_ok_iff :
    cmdUpdateDesktopFiles env repo folder = .ok folder' ↔
      (NoDirs folder ∧ (∀ bottle ∈ repo.bottles, bottle.name.all env.stdout = true) ∧
        ∀ launch ∈ found repo, launch.Ok env repo) ∧
      folder' = (launched repo).foldl (fun folder launch =>
        folder.insert launch.fileName (.file (launch.content env repo)))
        ((folder.keys.filter isLauncher).foldl (fun folder name => folder.erase name) folder) := by
  -- each bottle adds its launchers to a directory without directories in it
  have hround : ∀ folder, NoDirs folder → ∀ (bottle : Bottle) folder',
      bottle.update env repo folder = .ok folder' ↔
        (bottle.name.all env.stdout = true ∧ ∀ launch ∈ getShortcuts repo bottle,
          launch.Ok env repo) ∧
        folder' = (getShortcuts repo bottle).foldl (Launch.next env repo) folder :=
    fun _ hdirs _ _ => Bottle.update_eq_ok_iff hdirs
  have hnext : ∀ folder, NoDirs folder → ∀ bottle : Bottle, (bottle.name.all env.stdout = true ∧
      ∀ launch ∈ getShortcuts repo bottle, launch.Ok env repo) →
      NoDirs ((getShortcuts repo bottle).foldl (Launch.next env repo) folder) :=
    fun _ hdirs _ hok => invariant_foldl (fun _ hdirs _ _ => Launch.noDirs_next hdirs) _ hok.2 hdirs
  -- all rounds together insert the launchers that are visible
  have hloop : (repo.bottles.foldl (fun folder bottle =>
      (getShortcuts repo bottle).foldl (Launch.next env repo) folder)) =
      fun folder => (launched repo).foldl (fun folder launch =>
        folder.insert launch.fileName (.file (launch.content env repo))) folder := by
    funext folder
    rw [launched, List.foldl_filter, found, List.foldl_flatMap]
    rfl
  rw [cmdUpdateDesktopFiles, print_bind_eq_ok_iff, and_iff_right (all_lit (by decide))]
  cases hremoved : removeLaunchers folder with
  | error e =>
    constructor
    · intro h
      cases h
    · intro h
      rw [removeLaunchers_eq_ok_iff.mpr ⟨h.1.1, rfl⟩] at hremoved
      cases hremoved
  | ok folder₁ =>
    obtain ⟨hdirs, rfl⟩ := removeLaunchers_eq_ok_iff.mp hremoved
    have hdirs' : NoDirs ((folder.keys.filter isLauncher).foldl
        (fun folder name => folder.erase name) folder) := by
      intro name hname
      rw [lookup_removed hname]
      exact fun h => nomatch h
    have hall : (∀ bottle ∈ repo.bottles, bottle.name.all env.stdout = true ∧
        ∀ launch ∈ getShortcuts repo bottle, launch.Ok env repo) ↔
        (∀ bottle ∈ repo.bottles, bottle.name.all env.stdout = true) ∧
          ∀ launch ∈ found repo, launch.Ok env repo := by
      rw [found, List.forall_mem_flatMap]
      exact forall₂_and
    rw [and_iff_right hdirs, ← hall, ← congrFun hloop]
    exact foldlM_eq_ok_iff hround hnext _ hdirs'

/-- The launchers that a run leaves. -/
theorem lookup_updated {name : PyStr} (hname : isLauncher name = true) {entry : Entry}
    (hrun : cmdUpdateDesktopFiles env repo folder = .ok folder') :
    folder'.lookup name = some entry ↔ ∃ launch, Kept Launch.fileName (launched repo) launch ∧
      launch.fileName = name ∧ .file (launch.content env repo) = entry := by
  rw [(cmdUpdateDesktopFiles_eq_ok_iff.mp hrun).2, lookup_foldl_insert_eq_some_iff,
    lookup_removed hname]
  exact or_iff_left fun h => nomatch h.2

theorem mem_updated {name : PyStr} (hname : isLauncher name = true)
    (hrun : cmdUpdateDesktopFiles env repo folder = .ok folder') :
    name ∈ folder' ↔
      ∃ launch, Kept Launch.fileName (launched repo) launch ∧ launch.fileName = name := by
  rw [← AList.lookup_isSome, Option.isSome_iff_exists]
  constructor
  · rintro ⟨entry, hentry⟩
    obtain ⟨launch, hkept, heq, -⟩ := (lookup_updated hname hrun).mp hentry
    exact ⟨launch, hkept, heq⟩
  · rintro ⟨launch, hkept, heq⟩
    exact ⟨_, (lookup_updated hname hrun).mpr ⟨launch, hkept, heq, rfl⟩⟩

/-! ### One to one -/

/-- Two characters between two texts tell where the first one ends. -/
theorem append_cons_inj_of_ne {c d : PyChar} (hne : c ≠ d) {start start' rest rest' : PyStr}
    (hc : start ++ c :: rest = start' ++ c :: rest')
    (hd : start ++ d :: rest = start' ++ d :: rest') : start = start' ∧ rest = rest' := by
  induction start generalizing start' with
  | nil =>
    cases start' with
    | nil => exact ⟨rfl, (List.cons.inj hc).2⟩
    | cons c' start' => exact absurd ((List.cons.inj hc).1.trans (List.cons.inj hd).1.symm) hne
  | cons c' start ih =>
    cases start' with
    | nil => exact absurd ((List.cons.inj hc).1.symm.trans (List.cons.inj hd).1) hne
    | cons c'' start' =>
      obtain ⟨rfl, hrest⟩ := List.cons.inj hc
      obtain ⟨rfl, heq⟩ := ih hrest (List.cons.inj hd).2
      exact ⟨rfl, heq⟩

/-- The name of the file and the command together tell the two names. -/
theorem eq_of_launcherName {names names' : PyStr × PyStr}
    (hname : launcherName names = launcherName names') (hcmd : startCmd names = startCmd names') :
    names = names' := by
  have hunderscore : names.1 ++ .char '_' :: names.2 = names'.1 ++ .char '_' :: names'.2 := by
    have h := List.append_cancel_right hname
    rw [List.append_assoc, List.append_assoc, List.append_assoc, List.append_assoc] at h
    exact List.append_cancel_left h
  have hspace : names.1 ++ .char ' ' :: names.2 = names'.1 ++ .char ' ' :: names'.2 := by
    rw [startCmd, startCmd, List.append_assoc, List.append_assoc, List.append_assoc,
      List.append_assoc] at hcmd
    exact List.append_cancel_left hcmd
  exact Prod.ext_iff.mpr (append_cons_inj_of_ne (by decide) hunderscore hspace)

theorem length_startCmd {names names' : PyStr × PyStr}
    (hname : launcherName names = launcherName names') :
    (startCmd names).length = (startCmd names').length := by
  have h := congrArg List.length hname
  simp only [launcherName, startCmd, List.length_append] at h ⊢
  omega

/-- The arguments of the command that starts a shortcut, before they are joined to the text of
`Exec`. -/
def startArgs (names : PyStr × PyStr) : List PyStr :=
  [lit "/mnt/homeBase/.lapas/bin/lapasUmuManager", lit "start", names.1, names.2]

theorem intercalate_startArgs (names : PyStr × PyStr) :
    (lit " ").intercalate (startArgs names) = startCmd names := by
  have hstart : lit "/mnt/homeBase/.lapas/bin/lapasUmuManager start " =
      lit "/mnt/homeBase/.lapas/bin/lapasUmuManager" ++ lit " " ++ lit "start" ++ lit " " := by
    decide
  rw [startArgs, startCmd, hstart]
  simp only [List.intercalate_cons_cons, List.intercalate_singleton, List.append_assoc]

theorem size_startArgs (names : PyStr × PyStr) :
    size (startArgs names) = (startCmd names).length + 1 := by
  have hspace : (lit " ").length = 1 := rfl
  rw [← intercalate_startArgs, startArgs]
  simp only [size_cons, size_nil, List.intercalate_cons_cons, List.intercalate_singleton,
    List.length_append, hspace]
  omega

theorem startNames_eq_some_iff {line : PyStr} {names : PyStr × PyStr} :
    startNames env line = some names ↔ readExec line = some (startArgs names) ∧
      isOption env names.1 = false ∧ isOption env names.2 = false := by
  rw [startNames]
  constructor
  · intro h
    split at h
    · next program command bottle shortcut hread =>
      split_ifs at h with hargs
      obtain ⟨rfl, rfl, hbottle, hshortcut⟩ := hargs
      cases h
      exact ⟨hread, hbottle, hshortcut⟩
    · cases h
  · rintro ⟨hread, hbottle, hshortcut⟩
    rw [hread]
    exact if_pos ⟨rfl, rfl, hbottle, hshortcut⟩

/-- **A line that is no longer than the command starts the shortcut** exactly when it is the
command, and its names are plain. -/
theorem startNames_iff {line : PyStr} {names : PyStr × PyStr}
    (hlength : line.length ≤ (startCmd names).length) :
    startNames env line = some names ↔ line = startCmd names ∧ Startable env names := by
  rw [startNames_eq_some_iff]
  constructor
  · rintro ⟨hread, hoptions⟩
    have hle := size_le_of_readExec hread
    rw [size_startArgs] at hle
    have hsize : size (startArgs names) = line.length + 1 := by
      rw [size_startArgs]
      omega
    obtain ⟨hline, hplain⟩ := eq_of_readExec hread hsize
    rw [intercalate_startArgs] at hline
    exact ⟨hline, ⟨hplain _ (by simp [startArgs]), hplain _ (by simp [startArgs])⟩, hoptions⟩
  · rintro ⟨rfl, ⟨hbottle, hshortcut⟩, hoptions⟩
    have hplain : ∀ arg ∈ startArgs names, IsPlainArg arg := by
      simp only [startArgs, List.forall_mem_cons]
      exact ⟨by decide, by decide, hbottle, hshortcut, List.forall_mem_nil _⟩
    rw [← intercalate_startArgs]
    exact ⟨readExec_intercalate hplain, hoptions⟩

theorem newline_notMem_startCmd {names : PyStr × PyStr} (h : Startable env names) :
    newline ∉ startCmd names := by
  have hname : ∀ {name : PyStr}, IsPlainArg name → newline ∉ name := by
    intro name hplain hmem
    exact absurd (hplain.2 _ hmem).1 (by decide)
  have hstart : newline ∉ lit "/mnt/homeBase/.lapas/bin/lapasUmuManager start " := by decide
  have hspace : newline ∉ lit " " := by decide
  simp only [startCmd, List.mem_append, hstart, hspace, hname h.1.1, hname h.1.2, or_self,
    not_false_eq_true]

/-- What a launcher starts, when its file has the name for `names`. -/
theorem starts_content_iff {launch : Launch} {names : PyStr × PyStr}
    (hname : launch.fileName = launcherName names) :
    (∃ line, execs (launch.content env repo) = [lit "Exec=" ++ line] ∧
      startNames env line = some names) ↔ launch.names = names ∧ launch.Quiet env repo := by
  simp only [Launch.content, execs_generate_iff]
  constructor
  · rintro ⟨line, ⟨⟨pieces, hpieces⟩, -, hvalues⟩, hstart⟩
    -- the first line of the command is no longer than the command for `names`
    obtain ⟨hfront, -⟩ := piece_of_splitOn hpieces
    have hlength : line.length ≤ (startCmd names).length :=
      length_startCmd hname ▸ hfront.length_le
    obtain ⟨hline, hstartable⟩ := (startNames_iff hlength).mp hstart
    have hcmd : line = startCmd launch.names :=
      hfront.eq_of_length (by rw [hline, length_startCmd hname])
    obtain rfl : launch.names = names := eq_of_launcherName hname (hcmd.symm.trans hline)
    exact ⟨rfl, hstartable, hvalues⟩
  · rintro ⟨rfl, hstartable, hvalues⟩
    have hsingle := List.splitOn_eq_singleton (newline_notMem_startCmd hstartable)
    refine ⟨startCmd launch.names, ⟨⟨[], hsingle⟩, ?_, hvalues⟩, ?_⟩
    · rw [further, hsingle]
      rfl
    · exact (startNames_iff le_rfl).mpr ⟨rfl, hstartable⟩

theorem getShortcuts_of_plain {bottle : Bottle} (hplain : hasMagic bottle.name = false) :
    getShortcuts repo bottle =
      bottle.shortcuts.map fun shortcut => ⟨bottle, bottle, shortcut⟩ := by
  rw [getShortcuts, if_neg (by rw [hplain]; exact Bool.false_ne_true), List.flatMap_singleton]

/-- Where no bottle is taken for a pattern, the visible shortcuts keep their files exactly when
these have different names. -/
theorem kept_iff_injOn (hplain : ∀ bottle ∈ repo.bottles, hasMagic bottle.name = false) :
    (∀ names, names ∈ visibleShortcuts repo ↔
      ∃ launch, Kept Launch.fileName (launched repo) launch ∧ launch.names = names) ↔
      Set.InjOn launcherName {names | names ∈ visibleShortcuts repo} := by
  have hlaunched : ∀ names, names ∈ visibleShortcuts repo ↔
      ∃ launch ∈ launched repo, launch.names = names := by
    intro names
    simp only [visibleShortcuts, launched, found, List.mem_filter, List.mem_flatMap, List.mem_map]
    constructor
    · rintro ⟨bottle, hbottle, shortcut, ⟨hmem, hvisible⟩, rfl⟩
      have hget : ⟨bottle, bottle, shortcut⟩ ∈ getShortcuts repo bottle := by
        rw [getShortcuts_of_plain (hplain bottle hbottle)]
        exact List.mem_map_of_mem hmem
      exact ⟨_, ⟨⟨bottle, hbottle, hget⟩, hvisible⟩, rfl⟩
    · rintro ⟨launch, ⟨⟨bottle, hbottle, hget⟩, hvisible⟩, rfl⟩
      rw [getShortcuts_of_plain (hplain bottle hbottle)] at hget
      obtain ⟨shortcut, hmem, rfl⟩ := List.mem_map.mp hget
      exact ⟨bottle, hbottle, shortcut, ⟨hmem, hvisible⟩, rfl⟩
  constructor
  · intro h names hnames names' hnames' heq
    obtain ⟨launch, hkept, rfl⟩ := (h names).mp hnames
    obtain ⟨launch', hkept', rfl⟩ := (h names').mp hnames'
    rw [hkept.unique hkept' heq]
  · intro hinj names
    constructor
    · intro hnames
      obtain ⟨launch, hmem, rfl⟩ := (hlaunched names).mp hnames
      obtain ⟨launch', hkept, heq⟩ := exists_kept Launch.fileName hmem
      have hnames' := (hlaunched _).mpr ⟨launch', hkept.mem, rfl⟩
      exact ⟨launch', hkept, hinj hnames' hnames heq⟩
    · rintro ⟨launch, hkept, heq⟩
      exact (hlaunched names).mpr ⟨launch, hkept.mem, heq⟩

end

/-! ### Two shortcuts with one file -/

/-- A terminal with ASCII only, sets that print in their order, and the pattern for negative numbers
of `argparse` in a simple form. -/
def asciiEnv : Env where
  stdout := fun c => c.ord < 128
  stdout_ascii := fun _ h => decide_eq_true h
  setOrder := id
  negativeNumber arg := arg.head? = some (.char '-') && arg.tail ≠ [] &&
    arg.tail.all (lit "0123456789").contains

/-- Settings that only have a name, with an empty comment. -/
def gameSettings : Settings := ⟨.text (lit "Game"), .text [], none, none⟩

/-- A bottle `a_b` with a shortcut `c`, and a bottle `a` with a shortcut `b_c`. -/
def underscoreRepo : UmuRepo where
  bottlesPath := lit "/home/player/.umuManager/bottles"
  bottles := [
    { name := lit "a_b"
      shortcuts := [⟨lit "c", gameSettings, [], by decide, by decide⟩]
      isFileName := by decide
      nodup := by decide },
    { name := lit "a"
      shortcuts := [⟨lit "b_c", gameSettings, [], by decide, by decide⟩]
      isFileName := by decide
      nodup := by decide }]
  plain := by decide
  nodup := by decide

end Launchers
end Guest
end Lapas
