import Lapas.Library.FileSystem
import Lapas.Library.Shell
import Lapas.Server.ApiServer

/-!
# The hosts of the players

`create_mapping` writes a file for a player into the directory that `dnsmasq` reads.  The username
is pushed to the path of the directory and written into the line, as it is: an absolute name or
one with `..` leads elsewhere, and one with white space makes other lines.

## Main definitions

* `openDir`, `createFile` — `File::create` and `write_all`.
* `createMapping` — the service.
* `hosts` — the lines that `dnsmasq` finds in a file.
* `ClearUsername` — a username without slashes and without white space.
* `MapsHosts` — the files of the directory map every username to its latest address.

## Main results

* `createMapping_eq` — what a call with a clear username does.
* `mapsHosts_of_reach` — while all usernames are clear, the directory is such a map.
-/

namespace Lapas
namespace Server

open Proto Shell

/-! ### Files -/

section

variable (fs : Nodes Str Str)

/-- Where a name leads to from a directory. -/
def enter (dir : List Str) (name : Str) : List Str :=
  if name = [] ∨ name = ".".toList then dir
  else if name = "..".toList then dir.dropLast
  else fs.resolve (dir ++ [name])

/-- The directory that names lead to, one after another from the root. -/
def openDir (names : List Str) : Option (List Str) :=
  names.foldlM (fun dir name =>
    if fs (enter fs dir name) = some .dir then some (enter fs dir name) else none) []

/-- `File::create`, and writing a text to the file.  `none` is a path that cannot be opened. -/
def createFile (path text : Str) : Option (Nodes Str Str) :=
  let names := path.splitOn '/'
  match openDir fs names.dropLast, names.getLast? with
  | some dir, some name =>
    if name = [] ∨ name = ".".toList ∨ name = "..".toList then none
    else if '\x00' ∈ path ∨ 255 < (String.ofList name).utf8ByteSize then none
    else
      let file := fs.resolve (dir ++ [name])
      match fs file with
      | some .dir | some (.link _) => none
      | _ => if fs file.dropLast = some .dir then some (fs.put file (.file text)) else none
  | _, _ => none

end

/-! ### The service -/

/-- What separates words, and with the newline also lines, for the reader of the mappings. -/
def isSpace (c : Char) : Bool :=
  c = ' ' || c = '\t' || c = '\n' || c = '\x0b' || c = '\x0c' || c = '\r'

/-- An address, by the text that `to_string` gives. -/
structure IpAddr where
  text : Str
  ne_nil : text ≠ []
  noSpace : ∀ c ∈ text, isSpace c = false

/-- The service of the mappings: the domain of the guests, and the directory that `dnsmasq`
reads. -/
structure DnsService where
  dnsDomain : Str
  hostsDir : String

namespace DnsService

variable (service : DnsService)

/-- `username.domain`, the name under which the address of a player is found. -/
def hostName (username : String) : Str := username.toList ++ '.' :: service.dnsDomain

/-- The line for a player, which is all that the file of that player holds. -/
def mapping (username : String) (addr : IpAddr) : Str :=
  addr.text ++ ' ' :: (service.hostName username ++ ['\n'])

/-- The files after a call that succeeds. -/
def createMapping (username : String) (addr : IpAddr) (fs : Nodes Str Str) :
    Option (Nodes Str Str) :=
  createFile fs (pushPath service.hostsDir username).toList (service.mapping username addr)

end DnsService

/-- The line is the one that the server writes. -/
theorem hostMapping_eq {ι : Type} (setup : Setup ι) (client : ι) (username : String) (addr : IpAddr)
    (haddr : addr.text = (setup.ip client).toList) :
    hostMapping setup client username = utf8Bytes (String.ofList
      (DnsService.mapping ⟨setup.dnsDomain.toList, setup.hostsDir⟩ username addr)) := by
  rw [hostMapping]
  congr 1
  rw [← String.toList_inj, String.toList_ofList, DnsService.mapping, DnsService.hostName, haddr]
  simp

/-! ### What `dnsmasq` reads -/

/-- The names in a line, with the address in front of them. -/
def hostsLine (line : Str) : List (Str × Str) :=
  match splitWords isSpace line with
  | [] => []
  | ip :: names => names.map (ip, ·)

/-- The pairs of an address and a name that `dnsmasq` takes from the text of a file of hosts. -/
def hosts (text : Str) : List (Str × Str) := (text.splitOn '\n').flatMap hostsLine

section

variable {service : DnsService} {username : String}

/-- A username without slashes and without white space. -/
def ClearUsername (username : String) : Prop :=
  '/' ∉ username.toList ∧ ∀ c ∈ username.toList, isSpace c = false

theorem noSpace_hostName (hdomain : ∀ c ∈ service.dnsDomain, isSpace c = false)
    (huser : ∀ c ∈ username.toList, isSpace c = false) :
    ∀ c ∈ service.hostName username, isSpace c = false := by
  intro c hc
  rcases List.mem_append.mp hc with hc | hc
  · exact huser c hc
  · rcases List.mem_cons.mp hc with rfl | hc
    · decide
    · exact hdomain c hc

theorem splitWords_pair {first second : Str} (hfirst : ∀ c ∈ first, isSpace c = false)
    (hsecond : ∀ c ∈ second, isSpace c = false) (hne : first ≠ []) (hne' : second ≠ []) :
    splitWords isSpace (first ++ ' ' :: second) = [first, second] := by
  rw [splitWords, List.splitOnP_append_cons_of_forall_mem hfirst ' ' (by decide),
    List.splitOnP_eq_singleton hsecond]
  simp [hne, hne']

/-- `dnsmasq` reads the line as one mapping. -/
theorem hosts_mapping (hdomain : ∀ c ∈ service.dnsDomain, isSpace c = false)
    (huser : ∀ c ∈ username.toList, isSpace c = false) (addr : IpAddr) :
    hosts (service.mapping username addr) = [(addr.text, service.hostName username)] := by
  have hname := noSpace_hostName hdomain huser
  have hline : '\n' ∉ addr.text ++ ' ' :: service.hostName username := by
    intro hmem
    rcases List.mem_append.mp hmem with hmem | hmem
    · exact absurd (addr.noSpace _ hmem) (by decide)
    · exact absurd (hname _ (List.mem_of_ne_of_mem (by decide) hmem)) (by decide)
  have htext : service.mapping username addr =
      (addr.text ++ ' ' :: service.hostName username) ++ '\n' :: [] := by
    rw [DnsService.mapping, List.append_assoc, List.cons_append]
  have hne : service.hostName username ≠ [] := List.append_ne_nil_of_right_ne_nil _ (by simp)
  rw [hosts, htext, List.splitOn_append_cons_self_of_not_mem hline, List.flatMap_cons, hostsLine,
    splitWords_pair addr.noSpace hname addr.ne_nil hne]
  rfl

end

/-! ### Paths -/

section

variable {fs : Nodes Str Str} {dir : List Str}

theorem openDir_concat (names : List Str) (name : Str) :
    openDir fs (names ++ [name]) = (openDir fs names).bind fun dir =>
      if fs (enter fs dir name) = some .dir then some (enter fs dir name) else none := by
  simp only [openDir, List.foldlM_append, List.foldlM_cons, List.foldlM_nil, bind_pure]
  rfl

/-- What has been opened is a directory. -/
theorem dir_of_openDir {names : List Str} (hne : names ≠ []) (h : openDir fs names = some dir) :
    fs dir = some .dir := by
  rw [← List.dropLast_append_getLast hne, openDir_concat] at h
  obtain ⟨above, -, hdir⟩ := Option.bind_eq_some_iff.mp h
  split at hdir
  · next hfs =>
    cases hdir
    exact hfs
  · cases hdir

/-- A trailing slash leads to the same directory. -/
theorem openDir_slash (path : Str) :
    openDir fs ((path ++ ['/']).splitOn '/') = openDir fs (path.splitOn '/') := by
  rw [List.splitOn_append_cons_self, List.splitOn_nil, openDir_concat]
  cases h : openDir fs (path.splitOn '/') with
  | none => rfl
  | some dir => exact if_pos (dir_of_openDir (List.splitOn_ne_nil '/' path) h)

theorem endsWith_slash_iff (s : String) : s.endsWith "/" = true ↔ ∃ t, s.toList = t ++ ['/'] := by
  have h : s.endsWith "/" = s.toSlice.endsWith "/" := rfl
  rw [h, String.Slice.endsWith_string_iff, String.copy_toSlice]
  exact ⟨fun ⟨t, ht⟩ => ⟨t, ht.symm⟩, fun ⟨t, ht⟩ => ⟨t, ht.symm⟩⟩

/-- The path of a name without slashes: the directory, and the name. -/
theorem names_pushPath {hostsDir name : String} (hname : '/' ∉ name.toList)
    (hdir : openDir fs (hostsDir.toList.splitOn '/') = some dir) : ∃ names,
      (pushPath hostsDir name).toList.splitOn '/' = names ++ [name.toList] ∧
        openDir fs names = some dir := by
  have hrelative : name.startsWith "/" = false := by
    rw [Bool.eq_false_iff, ne_eq, String.startsWith_string_iff]
    intro hstart
    exact hname (hstart.subset (List.mem_singleton_self '/'))
  rw [pushPath, if_neg (by rw [hrelative]; decide)]
  by_cases hempty : hostsDir = ""
  · subst hempty
    refine ⟨[], by simpa using List.splitOn_eq_singleton hname, ?_⟩
    change openDir fs ([] ++ [[]]) = some dir at hdir
    rw [openDir_concat] at hdir
    obtain ⟨root, hroot, hdir⟩ := Option.bind_eq_some_iff.mp hdir
    split at hdir
    · cases hdir
      exact hroot
    · cases hdir
  by_cases hslash : hostsDir.endsWith "/" = true
  · obtain ⟨t, ht⟩ := (endsWith_slash_iff hostsDir).mp hslash
    rw [if_pos (by rw [hslash, Bool.or_true])]
    rw [ht, openDir_slash] at hdir
    refine ⟨t.splitOn '/', ?_, hdir⟩
    rw [String.toList_append, ht, List.append_assoc, List.singleton_append,
      List.splitOn_append_cons_self, List.splitOn_eq_singleton hname]
  · have hneg : (hostsDir.isEmpty || hostsDir.endsWith "/") = false := by
      rw [Bool.or_eq_false_iff]
      exact ⟨by simpa [Bool.eq_false_iff] using hempty, by simpa using hslash⟩
    rw [if_neg (by rw [hneg]; decide)]
    refine ⟨_, ?_, hdir⟩
    have hpath : (hostsDir ++ "/" ++ name).toList = hostsDir.toList ++ '/' :: name.toList := by
      simp
    rw [hpath, List.splitOn_append_cons_self, List.splitOn_eq_singleton hname]

/-- A file that is put where no directory and no link was changes no path. -/
theorem openDir_put {file : List Str} {text : Str} (hdir : fs file ≠ some .dir)
    (hlink : fs.islink file = false) (names : List Str) :
    openDir (fs.put file (.file text)) names = openDir fs names := by
  have hresolve : ∀ path, (fs.put file (.file text)).resolve path = fs.resolve path := by
    refine fun path => Nodes.resolve_congr fun p target => ?_
    by_cases hp : p = file
    · subst hp
      rw [Nodes.put_self]
      refine iff_of_false (fun h => by cases h) fun h => ?_
      rw [Nodes.islink, h] at hlink
      cases hlink
    · rw [Nodes.put_of_ne hp]
  have hdirs : ∀ path, (fs.put file (.file text)) path = some .dir ↔ fs path = some .dir := by
    intro path
    by_cases hp : path = file
    · subst hp
      rw [Nodes.put_self]
      exact iff_of_false (fun h => by cases h) hdir
    · rw [Nodes.put_of_ne hp]
  unfold openDir enter
  simp only [hresolve, hdirs]

/-- What a call with a username without slashes does, where the directory holds no directories
and no links. -/
theorem createMapping_eq {service : DnsService} {username : String} {addr : IpAddr}
    {fs' : Nodes Str Str} (hname : '/' ∉ username.toList)
    (hdir : openDir fs (service.hostsDir.toList.splitOn '/') = some dir)
    (hlink : fs.islink (dir ++ [username.toList]) = false)
    (h : service.createMapping username addr fs = some fs') :
    fs (dir ++ [username.toList]) ≠ some .dir ∧
      fs' = fs.put (dir ++ [username.toList]) (.file (service.mapping username addr)) := by
  obtain ⟨names, hnames, hopen⟩ := names_pushPath hname hdir
  rw [DnsService.createMapping, createFile] at h
  simp only [hnames, List.dropLast_concat, List.getLast?_concat, hopen,
    Nodes.resolve_of_not_link hlink] at h
  split at h
  · cases h
  split at h
  · cases h
  split at h
  · cases h
  · cases h
  · next hnotDir _ =>
    split at h
    · cases h
      exact ⟨hnotDir, rfl⟩
    · cases h

end

/-! ### Runs -/

/-- The files of the server, and the calls that have succeeded, the last one first. -/
structure DnsState where
  fs : Nodes Str Str
  calls : List (String × IpAddr)

/-- The address of the latest call for a username. -/
def latest (calls : List (String × IpAddr)) (username : String) : Option IpAddr :=
  (calls.find? (·.1 = username)).map (·.2)

/-- The service, call after call that succeeds. -/
def dnsMachine (service : DnsService) (fs : Nodes Str Str) :
    Machine DnsState (String × IpAddr) where
  start s := s = ⟨fs, []⟩
  step s call := (service.createMapping call.1 call.2 s.fs).map fun fs => ⟨fs, call :: s.calls⟩

theorem latest_cons_self (username : String) (addr : IpAddr) (calls : List (String × IpAddr)) :
    latest ((username, addr) :: calls) username = some addr := by
  simp [latest]

theorem latest_cons_of_ne {username other : String} (h : other ≠ username) (addr : IpAddr)
    (calls : List (String × IpAddr)) :
    latest ((username, addr) :: calls) other = latest calls other := by
  rw [latest, List.find?_cons_of_neg (by simpa using Ne.symm h), latest]

/-- The files of a directory map every username to the address of its latest call, each by the
only line of its own file, and everything else is as it was. -/
structure MapsHosts (service : DnsService) (dir : List Str) (before : Nodes Str Str)
    (s : DnsState) : Prop where
  mapped : ∀ username addr, latest s.calls username = some addr → ∃ text,
    s.fs (dir ++ [username.toList]) = some (.file text) ∧
      hosts text = [(addr.text, service.hostName username)]
  unused : ∀ file, (∀ username, latest s.calls username ≠ none → file ≠ [username.toList]) →
    s.fs (dir ++ file) = before (dir ++ file)
  outside : ∀ path, ¬ dir <+: path → s.fs path = before path

/-- The path of the directory leads to it. -/
structure Serving (service : DnsService) (dir : List Str) (before : Nodes Str Str) (s : DnsState) :
    Prop where
  maps : MapsHosts service dir before s
  opened : openDir s.fs (service.hostsDir.toList.splitOn '/') = some dir

section

variable {service : DnsService} {dir : List Str} {before : Nodes Str Str} {s s' : DnsState}

/-- A file of the directory, before a call: it is missing, or holds a mapping. -/
theorem MapsHosts.file (h : MapsHosts service dir before s)
    (hempty : ∀ file, file ≠ [] → before (dir ++ file) = none) (username : String) :
    s.fs (dir ++ [username.toList]) = none ∨
      ∃ text, s.fs (dir ++ [username.toList]) = some (.file text) := by
  cases hlatest : latest s.calls username with
  | none =>
    refine .inl ?_
    rw [h.unused [username.toList], hempty _ (List.cons_ne_nil _ _)]
    intro other hother heq
    rw [String.toList_inj.mp (List.cons.inj heq).1] at hlatest
    exact hother hlatest
  | some addr =>
    obtain ⟨text, htext, -⟩ := h.mapped username addr hlatest
    exact .inr ⟨text, htext⟩

/-- **One call.** -/
theorem Serving.step (h : Serving service dir before s)
    (hdomain : ∀ c ∈ service.dnsDomain, isSpace c = false)
    (hempty : ∀ file, file ≠ [] → before (dir ++ file) = none)
    {username : String} {addr : IpAddr} (hclear : ClearUsername username)
    (hstep : (dnsMachine service before).step s (username, addr) = some s') :
    Serving service dir before s' ∧
      ∀ path, path ≠ dir ++ [username.toList] → s'.fs path = s.fs path := by
  obtain ⟨h, hopen⟩ := h
  obtain ⟨fs', hcall, rfl⟩ := Option.map_eq_some_iff.mp hstep
  have hlink : s.fs.islink (dir ++ [username.toList]) = false := by
    rcases h.file hempty username with hfile | ⟨text, hfile⟩ <;> simp [hfile]
  -- the call puts one file, that of its own user
  obtain ⟨hnotDir, rfl⟩ := createMapping_eq hclear.1 hopen hlink hcall
  refine ⟨⟨⟨fun other addr' hlatest => ?_, fun file hfile => ?_, fun path hpath => ?_⟩, ?_⟩,
    fun path hpath => Nodes.put_of_ne hpath _⟩
  · by_cases hother : other = username
    · subst hother
      rw [latest_cons_self] at hlatest
      cases hlatest
      exact ⟨_, Nodes.put_self _, hosts_mapping hdomain hclear.2 addr⟩
    · rw [latest_cons_of_ne hother] at hlatest
      obtain ⟨text, htext, hhosts⟩ := h.mapped other addr' hlatest
      -- the file of another user has another name
      have hne : dir ++ [other.toList] ≠ dir ++ [username.toList] := by
        simpa [String.toList_inj] using hother
      exact ⟨text, (Nodes.put_of_ne hne _).trans htext, hhosts⟩
  · have hne : file ≠ [username.toList] := hfile username (by
      rw [latest_cons_self]
      exact fun heq => nomatch heq)
    refine (Nodes.put_of_ne (fun heq => hne (List.append_cancel_left heq)) _).trans ?_
    refine h.unused file fun other hother => ?_
    by_cases heq : other = username
    · rw [heq]
      exact hne
    · exact hfile other (by rwa [latest_cons_of_ne heq])
  · refine (Nodes.put_of_ne (fun heq => hpath ?_) _).trans (h.outside path hpath)
    rw [heq]
    exact List.prefix_append dir _
  · exact (openDir_put hnotDir hlink _).trans hopen

/-- A name that a file can have. -/
structure FileName (hostsDir username : String) : Prop where
  ne_nil : username.toList ≠ []
  ne_dot : username.toList ≠ ".".toList
  ne_dots : username.toList ≠ "..".toList
  noNul : '\x00' ∉ (pushPath hostsDir username).toList
  size_le : username.utf8ByteSize ≤ 255

/-- A call with a clear username that a file can have succeeds. -/
theorem Serving.exists_step (h : Serving service dir before s)
    (hempty : ∀ file, file ≠ [] → before (dir ++ file) = none) {username : String}
    (hclear : ClearUsername username) (hname : FileName service.hostsDir username)
    (addr : IpAddr) :
    ∃ s', (dnsMachine service before).step s (username, addr) = some s' ∧
      s'.calls = (username, addr) :: s.calls := by
  obtain ⟨names, hnames, hopen⟩ := names_pushPath hclear.1 h.opened
  have hdir : s.fs dir = some .dir :=
    dir_of_openDir (List.splitOn_ne_nil '/' service.hostsDir.toList) h.opened
  have hfile := h.maps.file hempty username
  have hlink : s.fs.islink (dir ++ [username.toList]) = false := by
    rcases hfile with hfile | ⟨text, hfile⟩ <;> simp [hfile]
  have hcall : ∃ fs', service.createMapping username addr s.fs = some fs' := by
    have hspecial : ¬ (username.toList = [] ∨ username.toList = ".".toList ∨
        username.toList = "..".toList) := by
      rintro (heq | heq | heq)
      · exact hname.ne_nil heq
      · exact hname.ne_dot heq
      · exact hname.ne_dots heq
    have hlong : ¬ ('\x00' ∈ (pushPath service.hostsDir username).toList ∨
        255 < (String.ofList username.toList).utf8ByteSize) := by
      rw [String.ofList_toList, not_or, not_lt]
      exact ⟨hname.noNul, hname.size_le⟩
    rw [DnsService.createMapping, createFile]
    simp only [hnames, List.dropLast_concat, List.getLast?_concat, hopen,
      Nodes.resolve_of_not_link hlink, if_neg hspecial, if_neg hlong, if_pos hdir]
    rcases hfile with hfile | ⟨text, hfile⟩ <;> rw [hfile] <;> exact ⟨_, rfl⟩
  obtain ⟨fs', hcall⟩ := hcall
  refine ⟨⟨fs', (username, addr) :: s.calls⟩, ?_, rfl⟩
  change (service.createMapping username addr s.fs).map _ = _
  rw [hcall]
  rfl

/-- **The map of the hosts.**  The directory is there and empty at the start.  While all usernames
are clear, its files map every username that has been used to the address of its latest call; and
a call changes the file of its username alone. -/
theorem mapsHosts_of_reach (hdomain : ∀ c ∈ service.dnsDomain, isSpace c = false)
    (hdir : openDir before (service.hostsDir.toList.splitOn '/') = some dir)
    (hempty : ∀ file, file ≠ [] → before (dir ++ file) = none)
    (h : (dnsMachine service before).Reach (fun _ call => ClearUsername call.1) s) :
    MapsHosts service dir before s ∧
      ∀ username addr s', ClearUsername username →
        (dnsMachine service before).step s (username, addr) = some s' →
        ∀ path, path ≠ dir ++ [username.toList] → s'.fs path = s.fs path := by
  have hserving : Serving service dir before s := by
    refine h.invariant (fun s hs => ?_) fun s call s' hs hclear hstep => ?_
    · cases hs
      exact ⟨⟨fun _ _ hlatest => (nomatch hlatest), fun _ _ => rfl, fun _ _ => rfl⟩, hdir⟩
    · exact (hs.step hdomain hempty hclear hstep).1
  refine ⟨hserving.maps, fun username addr s' hclear hstep => ?_⟩
  exact (hserving.step hdomain hempty hclear hstep).2

end

/-! ### A server -/

/-- An address of a guest from its text, with the proof that it is one word. -/
def guestAddr (text : String) (hne : text.toList ≠ []) (h : text.toList.all (!isSpace ·) = true) :
    IpAddr := ⟨text.toList, hne, all_eq_false_iff.mp h⟩

/-- A service that writes below `/tmp`, for the runs of the examples. -/
def hostsService : DnsService := ⟨"lapas".toList, "/tmp/hosts"⟩

/-- The directory for the hosts, and the users of the server itself. -/
def serverFiles : Nodes Str Str := fun path =>
  if path = [] ∨ path = ["tmp".toList] ∨ path = ["tmp".toList, "hosts".toList] ∨
      path = ["etc".toList] then some .dir
  else if path = ["etc".toList, "passwd".toList] then some (.file "root:x:0:0".toList)
  else none

theorem pushPath_hosts {name : String} (hname : '/' ∉ name.toList) :
    pushPath "/tmp/hosts" name = "/tmp/hosts/" ++ name := by
  have hstart : ¬ name.startsWith "/" = true := by
    rw [String.startsWith_string_iff]
    exact fun hpre => hname (hpre.subset (by decide))
  have hdir : ¬ "/tmp/hosts".endsWith "/" = true := by
    have h : "/tmp/hosts".endsWith "/" = "/tmp/hosts".toSlice.endsWith "/" := rfl
    rw [h, String.Slice.endsWith_string_iff, String.copy_toSlice]
    decide
  rw [pushPath, if_neg hstart, if_neg]
  · rfl
  · rw [Bool.or_eq_true, not_or]
    exact ⟨by decide, hdir⟩

theorem pushPath_passwd : pushPath "/tmp/hosts" "/etc/passwd" = "/etc/passwd" :=
  if_pos (String.startsWith_string_iff.mpr (by decide))

theorem fileName_hosts {name : String} (hname : '/' ∉ name.toList) (hne : name.toList ≠ [])
    (hdot : name.toList ≠ ".".toList) (hdots : name.toList ≠ "..".toList)
    (hnul : '\x00' ∉ name.toList) (hsize : name.utf8ByteSize ≤ 255) :
    FileName "/tmp/hosts" name where
  ne_nil := hne
  ne_dot := hdot
  ne_dots := hdots
  noNul := by
    rw [pushPath_hosts hname, String.toList_append, List.mem_append]
    rintro (h | h)
    · exact absurd h (by decide)
    · exact hnul h
  size_le := hsize

/-- `bob` and `alice` log in, and then `bob` does at another guest. -/
theorem mapsHosts_of_reach_bob : ∃ (s : DnsState) (text text' : Str),
    (dnsMachine hostsService serverFiles).Reach (fun _ call => ClearUsername call.1) s ∧
    s.calls.map (·.1) = ["bob", "alice", "bob"] ∧
    MapsHosts hostsService ["tmp".toList, "hosts".toList] serverFiles s ∧
    (s.fs ["tmp".toList, "hosts".toList, "bob".toList] = some (.file text) ∧
      hosts text = [("10.0.0.9".toList, "bob.lapas".toList)]) ∧
    s.fs ["tmp".toList, "hosts".toList, "alice".toList] = some (.file text') ∧
      hosts text' = [("10.0.0.8".toList, "alice.lapas".toList)] := by
  have hbob : ClearUsername "bob" := ⟨by decide, all_eq_false_iff.mp (by decide)⟩
  have halice : ClearUsername "alice" := ⟨by decide, all_eq_false_iff.mp (by decide)⟩
  have hbobFile : FileName "/tmp/hosts" "bob" := fileName_hosts hbob.1 (by decide) (by decide)
    (by decide) (by decide) (by decide)
  have haliceFile : FileName "/tmp/hosts" "alice" := fileName_hosts halice.1 (by decide)
    (by decide) (by decide) (by decide) (by decide)
  have hdomain : ∀ c ∈ hostsService.dnsDomain, isSpace c = false :=
    all_eq_false_iff.mp (by decide)
  have hempty : ∀ file, file ≠ [] →
      serverFiles (["tmp".toList, "hosts".toList] ++ file) = none := by
    intro file hne
    cases file with
    | nil => exact absurd rfl hne
    | cons name file => simp [serverFiles]
  have hopen : openDir serverFiles ("/tmp/hosts".toList.splitOn '/') =
      some ["tmp".toList, "hosts".toList] := by rfl
  let first := guestAddr "10.0.0.7" (by decide) (by decide)
  let second := guestAddr "10.0.0.8" (by decide) (by decide)
  let third := guestAddr "10.0.0.9" (by decide) (by decide)
  -- each call succeeds, as the ones before it have left the directory in order
  have hserving : Serving hostsService ["tmp".toList, "hosts".toList] serverFiles
      ⟨serverFiles, []⟩ :=
    ⟨⟨fun _ _ hlatest => (nomatch hlatest), fun _ _ => rfl, fun _ _ => rfl⟩, hopen⟩
  obtain ⟨s₁, h₁, hcalls₁⟩ := hserving.exists_step hempty hbob hbobFile first
  have hserving₁ := (hserving.step hdomain hempty hbob h₁).1
  obtain ⟨s₂, h₂, hcalls₂⟩ := hserving₁.exists_step hempty halice haliceFile second
  have hserving₂ := (hserving₁.step hdomain hempty halice h₂).1
  obtain ⟨s₃, h₃, hcalls₃⟩ := hserving₂.exists_step hempty hbob hbobFile third
  have hreach : (dnsMachine hostsService serverFiles).Reach (fun _ call => ClearUsername call.1)
      s₃ := .step (.step (.step (.start rfl) hbob h₁) halice h₂) hbob h₃
  have hcalls : s₃.calls = [("bob", third), ("alice", second), ("bob", first)] := by
    rw [hcalls₃, hcalls₂, hcalls₁]
  have hmaps := (mapsHosts_of_reach hdomain hopen hempty hreach).1
  obtain ⟨text, hfile, htext⟩ := hmaps.mapped "bob" third (by rw [hcalls]; rfl)
  obtain ⟨text', hfile', htext'⟩ := hmaps.mapped "alice" second (by rw [hcalls]; rfl)
  refine ⟨s₃, text, text', hreach, ?_, hmaps, ⟨hfile, htext⟩, hfile', htext'⟩
  rw [hcalls]
  rfl

/-- An absolute username: the users of the server are lost. -/
theorem not_mapsHosts_passwd : ∃ s addr,
    (dnsMachine hostsService serverFiles).Reach (fun _ _ => True) s ∧
    s.calls = [("/etc/passwd", addr)] ∧
    s.fs ["etc".toList, "passwd".toList] =
      some (.file "10.0.0.7 /etc/passwd.lapas\n".toList) ∧
    ¬ MapsHosts hostsService ["tmp".toList, "hosts".toList] serverFiles s := by
  obtain ⟨addr, haddr⟩ : ∃ addr : IpAddr, addr.text = "10.0.0.7".toList :=
    ⟨guestAddr "10.0.0.7" (by decide) (by decide), rfl⟩
  have hmapping : hostsService.mapping "/etc/passwd" addr =
      "10.0.0.7 /etc/passwd.lapas\n".toList := by
    rw [DnsService.mapping, haddr]
    rfl
  have hstep : (dnsMachine hostsService serverFiles).step ⟨serverFiles, []⟩
      ("/etc/passwd", addr) =
      some ⟨serverFiles.put ["etc".toList, "passwd".toList]
        (.file (hostsService.mapping "/etc/passwd" addr)), [("/etc/passwd", addr)]⟩ := by
    change (createFile serverFiles (pushPath "/tmp/hosts" "/etc/passwd").toList _).map _ = _
    rw [pushPath_passwd]
    rfl
  have hpasswd : (serverFiles.put ["etc".toList, "passwd".toList]
      (.file (hostsService.mapping "/etc/passwd" addr))) ["etc".toList, "passwd".toList] =
        some (.file "10.0.0.7 /etc/passwd.lapas\n".toList) := by
    rw [Nodes.put_self, hmapping]
  refine ⟨_, addr, .step (.start rfl) trivial hstep, rfl, hpasswd, fun h => ?_⟩
  have houtside := hpasswd.symm.trans (h.outside ["etc".toList, "passwd".toList] (by decide))
  exact absurd houtside (by decide)

end Server
end Lapas
