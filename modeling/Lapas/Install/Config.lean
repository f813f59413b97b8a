import Lapas.Library.Shell
import Lapas.Server.ApiServer

/-!
# The configuration file

The installer writes its options to a file, one `echo` for each, and the server reads the
file line by line when it starts.

## Main definitions

* `Variables`, `configurationOptions` — what the installer has been told, and its options.
* `runSilentUnfallible`, `configureOptionsToFile`, `writeConfig` — the writer.
* `readConfig`, `init` — the reader.
* `Variables.settings` — what the server should know.
* `Agrees` — the reader takes the file, and finds the settings in it.

## Main results

* `init_of_options` — a file of settings is read.
* `agrees_iff` — **writer and reader agree exactly when there is a single network card.**
* `init_refuses` — most names of further network cards stop the server.
-/

namespace Lapas
namespace Install

open Shell Server Proto

/-! ### The writer -/

/-- The variables of the installer when the setup is over: the cards, which are an array, the
password, of which only a hash is written, and the texts. -/
structure Variables where
  /-- The values of those that are no arrays. -/
  get : String → Str
  lapasNicInternal : List Str
  lapasPassword : Str

/-- The word for one setting, as the installer gives it to `configureOptionsToFile`. -/
def option (name : String) (value : Str) : Str := name.toList ++ '=' :: value

/-- `sha512sum | cut -d' ' -f1`, with the hash as a parameter: the digest in hexadecimal digits. -/
def sha512Hex (sha512 : List UInt8 → List UInt8) (input : Str) : Str :=
  (hexEncode (sha512 (utf8Bytes (String.ofList input)))).toList

/-- The settings of the network, except for the cards on the side of the guests, which are an
array. -/
def networkOptions : List String :=
  ["LAPAS_NET_ADDRESS", "LAPAS_NET_DOMAIN", "LAPAS_NET_SUBNET_BASEADDRESS", "LAPAS_NET_IP",
    "LAPAS_NET_NETMASK", "LAPAS_NIC_UPSTREAM"]

/-- The settings of the server itself, between the cards and the hash of the password. -/
def systemOptions : List String :=
  ["LAPAS_NET_DHCP_ADDRESSES_START", "LAPAS_NET_DHCP_ADDRESSES_END", "LAPAS_TFTP_DIR",
    "LAPAS_GUESTROOT_DIR", "LAPAS_USERHOMES_DIR", "LAPAS_SCRIPTS_DIR", "LAPAS_KEYMAP",
    "LAPAS_PASSWORD_SALT"]

/-- The settings of the guests and of the image that they boot from. -/
def guestOptions : List String :=
  ["LAPAS_NFS_VERSION", "LAPAS_NFS_USER_MOUNTOPTIONS", "LAPAS_DNS_HOSTMAPPINGS_DIR",
    "LAPAS_GUESTIMG_RO_MOUNTPOINT", "LAPAS_GUESTIMG_PATH", "LAPAS_GUESTIMG_SIZE",
    "LAPAS_GUESTIMG_FSUUID", "LAPAS_GUESTIMG_NAME", "LAPAS_GUESTIMG_IQN", "LAPAS_GUESTIMG_LUN"]

section

variable (sha512 : List UInt8 → List UInt8) (v : Variables)

/-- `$(echo -n "${LAPAS_PASSWORD_SALT}${LAPAS_PASSWORD}" | sha512sum | cut -d' ' -f1)`. -/
def Variables.passwordHash : Str :=
  sha512Hex sha512 (echoN (v.get "LAPAS_PASSWORD_SALT" ++ v.lapasPassword))

/-- The options whose values are strings, each as one word `"NAME=${NAME}"`, in the order of the
names. -/
def Variables.options (names : List String) : List Str :=
  names.map fun name => option name (v.get name)

/-- `LAPAS_CONFIGURATION_OPTIONS`, the array that the installer builds; the cards of the internal
network are the element that may be several words. -/
def configurationOptions : List Str :=
  v.options networkOptions ++ quotedAt (option "LAPAS_NIC_INTERNAL" []) v.lapasNicInternal ++
    v.options systemOptions ++ [option "LAPAS_PASSWORD_HASH" (v.passwordHash sha512)] ++
    v.options guestOptions

end

/-- The file that is written, with its content. -/
def configureOptionsToFile : List Str → Option (Str × Str)
  | outputFilePath :: options => some (outputFilePath, options.flatMap echo)
  | [] => none

/-- The installer has set `IFS=' '`, so that only the space separates words; the newline and the tab
do not. -/
def ifs (c : Char) : Bool := c = ' '

/-- `runSilentUnfallible`: `$@` is not quoted, so each argument is split and globbed once more
before the command is run. -/
def runSilentUnfallible {α : Type} (glob : Str → List Str) (run : Str → List Str → Option α)
    (args : List Str) : Option α :=
  match args.flatMap (expand ifs glob) with
  | command :: args => run command args
  | [] => none

/-- The file that the installer writes and that `State::init` reads. -/
def Variables.configPath (v : Variables) : Str := v.get "LAPAS_SCRIPTS_DIR" ++ "/config".toList

/-- The step of the installer that writes the configuration: the path and the text of the file, or
`none` when the command fails. -/
def writeConfig (glob : Str → List Str) (sha512 : List UInt8 → List UInt8) (v : Variables) :
    Option (Str × Str) :=
  runSilentUnfallible glob
    (fun command args =>
      if command = "configureOptionsToFile".toList then configureOptionsToFile args else none)
    ("configureOptionsToFile".toList :: v.configPath :: configurationOptions sha512 v)

/-! ### The reader -/

/-- A configuration as the server has it, by the names of its settings. -/
abbrev Config := Str → Option Str

/-- A value as `State::init` takes it, without the quotes around it: both have to be there, and only
one of each is taken. -/
def unquote (value : Str) : Str :=
  if 1 < value.length ∧ value.head? = some '"' ∧ value.getLast? = some '"' then
    value.tail.dropLast
  else value

/-- The lines of the file are put into the configuration. -/
def readConfig : List Str → Config → Except Failure Config
  | [], config => .ok config
  | line :: lines, config =>
    if line.head? = some '#' then readConfig lines config
    else
      match splitn 2 '=' line with
      | [key, value] => readConfig lines (Function.update config key (some (unquote value)))
      | _ => .error (.err "Invalid config file")

/-- `config.get(name).expect(..)`: the value, or a panic with the message of the source for a
missing parameter. -/
def Config.expect (config : Config) (name : String) : Except Failure Str :=
  match config name.toList with
  | some value => .ok value
  | none => .error (.panic ("Config File missing parameter " ++ name))

/-- `State::init`, from the content of the file on. -/
def init (newUserService : Str → Except Failure Unit)
    (newDnsService : Str → Str → Except Failure Unit) (content : Str) :
    Except Failure Config := do
  let config ← readConfig (lines content) fun _ => none
  let homesDir ← config.expect "LAPAS_USERHOMES_DIR"
  let dnsDomain ← config.expect "LAPAS_NET_DOMAIN"
  let dnsHostmapDir ← config.expect "LAPAS_DNS_HOSTMAPPINGS_DIR"
  newUserService homesDir
  newDnsService dnsDomain dnsHostmapDir
  return config

/-! ### Agreement -/

/-- What the server should find, by name. -/
def Variables.settings (sha512 : List UInt8 → List UInt8) (v : Variables) : List (String × Str) :=
  let strings := fun names : List String => names.map fun name => (name, v.get name)
  strings networkOptions ++ [("LAPAS_NIC_INTERNAL", [' '].intercalate v.lapasNicInternal)] ++
    strings systemOptions ++ [("LAPAS_PASSWORD_HASH", v.passwordHash sha512)] ++
    strings guestOptions

/-- Where the services can be set up, the server starts on the file that has been written at
its place, and knows all settings. -/
def Agrees (glob : Str → List Str) (sha512 : List UInt8 → List UInt8) (v : Variables) : Prop :=
  ∃ content config, writeConfig glob sha512 v = some (v.configPath, content) ∧
    (∀ newUserService newDnsService, (∀ homesDir, newUserService homesDir = .ok ()) →
      (∀ dnsDomain hostsDir, newDnsService dnsDomain hostsDir = .ok ()) →
      init newUserService newDnsService content = .ok config) ∧
    ∀ setting ∈ v.settings sha512, config setting.1.toList = some setting.2

/-- White space, the characters of patterns and quotes: what some step between the installer and the
server may change. -/
def isSpecial (c : Char) : Bool :=
  [' ', '\t', '\n', '\r', '*', '?', '[', '"', '\''].contains c

/-- A value without special characters, which the steps of the shell and of the reader hand on as it
is. -/
def Plain (value : Str) : Prop := ∀ c ∈ value, isSpecial c = false

instance (value : Str) : Decidable (Plain value) := decidable_of_iff _ all_eq_false_iff

/-- All settings have values that neither the shell nor the reader of the server takes apart, and so
do the names of the cards. -/
structure Variables.Plain (v : Variables) : Prop where
  strings : ∀ name ∈ networkOptions ++ systemOptions ++ guestOptions, Install.Plain (v.get name)
  nics : ∀ nic ∈ v.lapasNicInternal, Install.Plain nic

/-! ### What is written -/

section

variable {word : Str}

theorem Plain.notMem (h : Plain word) {c : Char} (hc : isSpecial c = true) : c ∉ word :=
  fun hmem => absurd ((h c hmem).symm.trans hc) Bool.false_ne_true

theorem Plain.append {word' : Str} (h : Plain word) (h' : Plain word') : Plain (word ++ word') :=
  fun c hc => (List.mem_append.mp hc).elim (h c) (h' c)

theorem Plain.expand (h : Plain word) (glob : Str → List Str) (hne : word ≠ []) :
    Shell.expand ifs glob word = [word] := by
  refine expand_of_plain glob (fun c hc => ?_) (fun c hc => ?_) hne
  · refine decide_eq_false fun heq => ?_
    subst heq
    exact h.notMem rfl hc
  · have hpattern : ∀ c, isPattern c = true → isSpecial c = true := by
      intro c hc
      simp only [isPattern, Bool.or_eq_true, decide_eq_true_eq] at hc
      rcases hc with (rfl | rfl) | rfl <;> rfl
    by_contra hpos
    exact h.notMem (hpattern c (Bool.eq_true_of_not_eq_false hpos)) hc

theorem Plain.stripCr (h : Plain word) : stripCr word = word := by
  refine if_neg fun hlast => ?_
  exact h.notMem rfl (List.mem_of_getLast? hlast)

/-- Words that are plain go through `$@`, but for the empty ones. -/
theorem flatMap_expand (glob : Str → List Str) {words : List Str}
    (h : ∀ word ∈ words, Plain word) :
    words.flatMap (Shell.expand ifs glob) = words.filter (· ≠ []) := by
  induction words with
  | nil => rfl
  | cons word words ih =>
    have hrest := ih fun word' hword' => h word' (List.mem_cons_of_mem _ hword')
    rw [List.flatMap_cons, hrest]
    by_cases hne : word = []
    · subst hne
      rw [expand_nil, List.nil_append, List.filter_cons_of_neg (by simp)]
    · rw [(h word List.mem_cons_self).expand glob hne, List.filter_cons_of_pos (by simpa using hne)]
      rfl

/-- The lines that `echo` writes for a word. -/
def echoLines (word : Str) : List Str :=
  if isEchoOption word then if word.contains 'n' then [] else [[]] else [word]

theorem mem_echoLines {line word : Str} (h : line ∈ echoLines word) : line = word ∨ line = [] := by
  unfold echoLines at h
  split at h
  · split at h
    · cases h
    · exact Or.inr (List.mem_singleton.mp h)
  · exact Or.inl (List.mem_singleton.mp h)

theorem lines_flatMap_echo {words : List Str} (h : ∀ word ∈ words, Plain word) :
    lines (words.flatMap echo) = words.flatMap echoLines := by
  induction words with
  | nil => rfl
  | cons word words ih =>
    have hrest := ih fun word' hword' => h word' (List.mem_cons_of_mem _ hword')
    have hword := h word List.mem_cons_self
    rw [List.flatMap_cons, List.flatMap_cons, ← hrest]
    unfold echo echoLines
    split
    · split
      · rfl
      · exact lines_append List.not_mem_nil _
    · rw [List.append_assoc, List.singleton_append, lines_append (hword.notMem rfl), hword.stripCr]
      rfl

/-- What holds of the characters of an option. -/
theorem plain_option {name : String} {value : Str} (hname : Plain name.toList)
    (hvalue : Plain value) : Plain (option name value) := by
  refine hname.append fun c hc => ?_
  rcases List.mem_cons.mp hc with rfl | hc
  · rfl
  · exact hvalue c hc

theorem plain_hexEncode (bytes : List UInt8) : Plain (hexEncode bytes).toList := by
  have hdigit : ∀ n < 16, isSpecial (Nat.digitChar n) = false := by decide
  intro c hc
  rw [hexEncode, String.toList_ofList] at hc
  obtain ⟨byte, -, hc⟩ := List.mem_flatMap.mp hc
  have hbyte := byte.toNat_lt
  rcases List.mem_cons.mp hc with rfl | hc
  · exact hdigit _ (by omega)
  · rw [List.mem_singleton.mp hc]
    exact hdigit _ (by omega)

/-- What the writer and the reader need of a name. -/
structure GoodName (name : String) : Prop where
  plain : Plain name.toList
  notMem : '=' ∉ name.toList
  head : name.toList.head? = some 'L'

theorem goodName_of_mem {name : String} (h : name ∈ networkOptions ++ "LAPAS_NIC_INTERNAL" ::
    systemOptions ++ "LAPAS_PASSWORD_HASH" :: guestOptions) : GoodName name := by
  have hall : ∀ name ∈ networkOptions ++ "LAPAS_NIC_INTERNAL" :: systemOptions ++
      "LAPAS_PASSWORD_HASH" :: guestOptions, Plain name.toList ∧
      '=' ∉ name.toList ∧ name.toList.head? = some 'L' := by decide +kernel
  obtain ⟨hplain, hnotMem, hhead⟩ := hall name h
  exact ⟨hplain, hnotMem, hhead⟩

theorem GoodName.head_option {name : String} (h : GoodName name) (value : Str) :
    (option name value).head? = some 'L' := by
  rw [option, List.head?_append, h.head]
  rfl

/-- `echo` does not take an option for one of its own. -/
theorem GoodName.not_option {name : String} (h : GoodName name) (value : Str) :
    isEchoOption (option name value) = false := by
  obtain ⟨rest, hrest⟩ := List.head?_eq_some_iff.mp (h.head_option value)
  rw [hrest]
  rfl

end

/-! ### What is read -/

section

variable {settings : List (String × Str)} {config : Config}

/-- The configuration with some settings inserted one after another, so that a later one of the same
name wins. -/
def Config.insertAll (config : Config) (settings : List (String × Str)) : Config :=
  settings.foldl (fun config setting => Function.update config setting.1.toList (some setting.2))
    config

theorem Config.insertAll_of_notMem {name : String} (h : name ∉ settings.map Prod.fst) :
    config.insertAll settings name.toList = config name.toList := by
  induction settings generalizing config with
  | nil => rfl
  | cons setting settings ih =>
    obtain ⟨hne, hrest⟩ := not_or.mp (List.mem_cons.not.mp h)
    rw [Config.insertAll, List.foldl_cons]
    refine (ih hrest).trans (Function.update_of_ne (fun heq => hne ?_) _ _)
    exact String.toList_inj.mp heq

theorem Config.insertAll_of_mem (hnodup : (settings.map Prod.fst).Nodup) {setting : String × Str}
    (hmem : setting ∈ settings) : config.insertAll settings setting.1.toList = some setting.2 := by
  induction settings generalizing config with
  | nil => cases hmem
  | cons setting' settings ih =>
    obtain ⟨hnotMem, hnodup⟩ := List.nodup_cons.mp hnodup
    rw [Config.insertAll, List.foldl_cons]
    rcases List.mem_cons.mp hmem with rfl | hmem
    · exact (Config.insertAll_of_notMem hnotMem).trans (Function.update_self _ _ _)
    · exact ih hnodup hmem

theorem unquote_of_plain {value : Str} (h : Plain value) : unquote value = value :=
  if_neg fun hquotes => h.notMem rfl (List.mem_of_mem_head? hquotes.2.1)

/-- A file of settings is read. -/
theorem readConfig_options (h : ∀ setting ∈ settings, GoodName setting.1 ∧ Plain setting.2) :
    readConfig (settings.map fun setting => option setting.1 setting.2) config =
      .ok (config.insertAll settings) := by
  induction settings generalizing config with
  | nil => rfl
  | cons setting settings ih =>
    obtain ⟨hname, hvalue⟩ := h setting List.mem_cons_self
    rw [List.map_cons, readConfig, hname.head_option, if_neg (by decide), option,
      splitn_two hname.notMem]
    dsimp only
    rw [unquote_of_plain hvalue]
    exact ih fun setting' hmem => h setting' (List.mem_cons_of_mem _ hmem)

theorem readConfig_of_init {newUserService : Str → Except Failure Unit}
    {newDnsService : Str → Str → Except Failure Unit} {content : Str}
    (h : init newUserService newDnsService content = .ok config) :
    readConfig (lines content) (fun _ => none) = .ok config := by
  obtain ⟨config', hconfig', h⟩ := exists_of_bind_ok h
  obtain ⟨homesDir, -, h⟩ := exists_of_bind_ok h
  obtain ⟨dnsDomain, -, h⟩ := exists_of_bind_ok h
  obtain ⟨hostsDir, -, h⟩ := exists_of_bind_ok h
  obtain ⟨-, -, h⟩ := exists_of_bind_ok h
  obtain ⟨-, -, h⟩ := exists_of_bind_ok h
  cases h
  exact hconfig'

/-- A line without `=` stops the server. -/
theorem readConfig_eq_error {text : List Str} {line : Str} (hline : line ∈ text)
    (hhash : line.head? ≠ some '#') (heq : '=' ∉ line) :
    readConfig text config = .error (.err "Invalid config file") := by
  induction text generalizing config with
  | nil => cases hline
  | cons line' text ih =>
    rw [readConfig]
    split
    · rename_i hcomment
      refine ih ((List.mem_cons.mp hline).resolve_left fun h => hhash ?_)
      rw [h]
      exact hcomment
    · split
      · rename_i key value hsplit
        refine ih ((List.mem_cons.mp hline).resolve_left fun h => ?_)
        rw [← h, splitn_of_notMem heq] at hsplit
        cases hsplit
      · rfl

/-- What is in the configuration has been in the file. -/
theorem mem_of_readConfig {text : List Str} {config' : Config}
    (h : readConfig text config = .ok config') {key value : Str} (hvalue : config' key = some value)
    {c : Char} (hc : c ∈ value) : config key = some value ∨ ∃ line ∈ text, c ∈ line := by
  induction text generalizing config with
  | nil =>
    cases h
    exact Or.inl hvalue
  | cons line text ih =>
    have hrest : ∀ {config : Config}, readConfig text config = .ok config' →
        config key = some value ∨ ∃ line' ∈ line :: text, c ∈ line' := fun h =>
      (ih h).imp_right fun ⟨line', hline', hc⟩ => ⟨line', List.mem_cons_of_mem _ hline', hc⟩
    rw [readConfig] at h
    split at h
    · exact hrest h
    · split at h
      · rename_i key' value' hsplit
        refine (hrest h).elim (fun hold => ?_) Or.inr
        by_cases hkey : key = key'
        · subst hkey
          rw [Function.update_self] at hold
          cases hold
          have hmem : c ∈ value' := by
            unfold unquote at hc
            split at hc
            · exact List.mem_of_mem_tail (List.mem_of_mem_dropLast hc)
            · exact hc
          have hpiece : value' ∈ splitn 2 '=' line := by
            rw [hsplit]
            exact List.mem_cons_of_mem _ List.mem_cons_self
          exact Or.inr ⟨line, List.mem_cons_self, mem_of_mem_splitn hpiece hmem⟩
        · rw [Function.update_of_ne hkey] at hold
          exact Or.inl hold
      · cases h

end

/-! ### Agreement of the two -/

section

variable {v : Variables} (sha512 : List UInt8 → List UInt8)

theorem nodup_settings : ((v.settings sha512).map Prod.fst).Nodup := by
  have hnames : (v.settings sha512).map Prod.fst = networkOptions ++ "LAPAS_NIC_INTERNAL" ::
      systemOptions ++ "LAPAS_PASSWORD_HASH" :: guestOptions := rfl
  rw [hnames]
  decide +kernel

theorem goodName_of_mem_settings {setting : String × Str} (h : setting ∈ v.settings sha512) :
    GoodName setting.1 :=
  goodName_of_mem (List.mem_map_of_mem h)

/-- With a single network card, the options are the settings. -/
theorem configurationOptions_of_single {nic : Str} (h : v.lapasNicInternal = [nic]) :
    configurationOptions sha512 v =
      (v.settings sha512).map fun setting => option setting.1 setting.2 := by
  have hnic : option "LAPAS_NIC_INTERNAL" [] ++ nic =
      option "LAPAS_NIC_INTERNAL" ([' '].intercalate [nic]) := by simp [option]
  simp only [configurationOptions, Variables.settings, Variables.options, h, quotedAt, hnic,
    List.map_append, List.map_map]
  rfl

theorem Variables.Plain.settings (h : v.Plain) {nic : Str} (hnic : v.lapasNicInternal = [nic])
    {setting : String × Str} (hmem : setting ∈ v.settings sha512) : Install.Plain setting.2 := by
  have hstrings := h.strings
  simp only [List.mem_append] at hstrings
  simp only [Variables.settings, List.mem_append, List.mem_map, List.mem_singleton] at hmem
  rcases hmem with (((⟨name, hname, rfl⟩ | rfl) | ⟨name, hname, rfl⟩) | rfl) | ⟨name, hname, rfl⟩
  · exact hstrings name (Or.inl (Or.inl hname))
  · have hplain := h.nics nic (by rw [hnic]; exact List.mem_singleton_self _)
    simpa [hnic] using hplain
  · exact hstrings name (Or.inl (Or.inr hname))
  · exact plain_hexEncode _
  · exact hstrings name (Or.inr hname)

theorem Variables.Plain.options (h : v.Plain) {word : Str}
    (hword : word ∈ configurationOptions sha512 v) : Install.Plain word := by
  have hstrings : ∀ names, (∀ name ∈ names, GoodName name ∧ Install.Plain (v.get name)) →
      ∀ word ∈ v.options names, Install.Plain word := by
    intro names hnames word hword
    obtain ⟨name, hname, rfl⟩ := List.mem_map.mp hword
    exact plain_option (hnames name hname).1.plain (hnames name hname).2
  have hname : ∀ name ∈ networkOptions ++ systemOptions ++ guestOptions,
      GoodName name ∧ Install.Plain (v.get name) := by
    refine fun name hname => ⟨goodName_of_mem ?_, h.strings name hname⟩
    simp only [List.mem_append, List.mem_cons] at hname ⊢
    tauto
  simp only [List.mem_append] at hname
  have hnic : Install.Plain (option "LAPAS_NIC_INTERNAL" []) :=
    plain_option (goodName_of_mem (by decide +kernel)).plain fun _ hc => nomatch hc
  simp only [configurationOptions, List.mem_append, List.mem_singleton] at hword
  rcases hword with (((hword | hword) | hword) | rfl) | hword
  · exact hstrings _ (fun name hmem => hname name (Or.inl (Or.inl hmem))) word hword
  · rcases mem_quotedAt hword with rfl | ⟨nic, hmem, rfl⟩ | hmem
    · exact hnic
    · exact hnic.append (h.nics nic hmem)
    · exact h.nics word hmem
  · exact hstrings _ (fun name hmem => hname name (Or.inl (Or.inr hmem))) word hword
  · exact plain_option (goodName_of_mem (by decide +kernel)).plain (plain_hexEncode _)
  · exact hstrings _ (fun name hmem => hname name (Or.inr hmem)) word hword

/-- Plain options go into the file, but for the empty ones. -/
theorem writeConfig_of_plain (h : v.Plain) (glob : Str → List Str) :
    writeConfig glob sha512 v =
      some (v.configPath, ((configurationOptions sha512 v).filter (· ≠ [])).flatMap echo) := by
  have hcommand : Install.Plain "configureOptionsToFile".toList := by decide +kernel
  have hpath : Install.Plain v.configPath :=
    (h.strings _ (by decide +kernel)).append (by decide +kernel)
  have hne : v.configPath ≠ [] := List.append_ne_nil_of_right_ne_nil _ (by decide +kernel)
  rw [writeConfig, runSilentUnfallible, List.flatMap_cons, List.flatMap_cons,
    hcommand.expand glob (by decide +kernel), hpath.expand glob hne,
    flatMap_expand glob fun word hword => h.options sha512 hword]
  rfl

/-- The server starts on a file of settings, if the three that it needs are there. -/
theorem init_of_options {settings : List (String × Str)}
    (hsettings : ∀ setting ∈ settings, GoodName setting.1 ∧ Install.Plain setting.2)
    (hnodup : (settings.map Prod.fst).Nodup)
    (hneeded : ∀ name ∈ ["LAPAS_USERHOMES_DIR", "LAPAS_NET_DOMAIN", "LAPAS_DNS_HOSTMAPPINGS_DIR"],
      name ∈ settings.map Prod.fst)
    {newUserService : Str → Except Failure Unit} {newDnsService : Str → Str → Except Failure Unit}
    (huser : ∀ homesDir, newUserService homesDir = .ok ())
    (hdns : ∀ dnsDomain hostsDir, newDnsService dnsDomain hostsDir = .ok ()) :
    init newUserService newDnsService
        ((settings.map fun setting => option setting.1 setting.2).flatMap echo) =
      .ok (Config.insertAll (fun _ => none) settings) := by
  have hexpect : ∀ name ∈ ["LAPAS_USERHOMES_DIR", "LAPAS_NET_DOMAIN", "LAPAS_DNS_HOSTMAPPINGS_DIR"],
      ∃ value, (Config.insertAll (fun _ => none) settings).expect name = .ok value := by
    intro name hname
    obtain ⟨setting, hmem, rfl⟩ := List.mem_map.mp (hneeded name hname)
    refine ⟨setting.2, ?_⟩
    rw [Config.expect, Config.insertAll_of_mem hnodup hmem]
  have hlines : lines ((settings.map fun setting => option setting.1 setting.2).flatMap echo) =
      settings.map fun setting => option setting.1 setting.2 := by
    rw [lines_flatMap_echo]
    · refine (List.flatMap_congr fun word hword => ?_).trans (List.flatMap_singleton' _)
      obtain ⟨setting, hmem, rfl⟩ := List.mem_map.mp hword
      rw [echoLines, (hsettings setting hmem).1.not_option]
      rfl
    · intro word hword
      obtain ⟨setting, hmem, rfl⟩ := List.mem_map.mp hword
      exact plain_option (hsettings setting hmem).1.plain (hsettings setting hmem).2
  obtain ⟨homesDir, hhomesDir⟩ := hexpect "LAPAS_USERHOMES_DIR" (by decide +kernel)
  obtain ⟨dnsDomain, hdnsDomain⟩ := hexpect "LAPAS_NET_DOMAIN" (by decide +kernel)
  obtain ⟨hostsDir, hhostsDir⟩ := hexpect "LAPAS_DNS_HOSTMAPPINGS_DIR" (by decide +kernel)
  rw [init, hlines, readConfig_options hsettings]
  simp only [bind, Except.bind, hhomesDir, hdnsDomain, hhostsDir, huser, hdns]
  rfl

/-- A name of a second network card separates the first from the rest. -/
theorem not_agrees_of_two (hplain : v.Plain) (glob : Str → List Str) {nic nic' : Str}
    {nics : List Str} (hnics : v.lapasNicInternal = nic :: nic' :: nics) :
    ¬ Agrees glob sha512 v := by
  rintro ⟨content, config, hwrite, hinit, hsettings⟩
  have hread : readConfig (lines content) (fun _ => none) = .ok config := by
    have hok := hinit (fun _ => .ok ()) (fun _ _ => .ok ()) (fun _ => rfl) fun _ _ => rfl
    exact readConfig_of_init hok
  -- no line of the file has a blank in it
  have hblank : ∀ line ∈ lines content, ' ' ∉ line := by
    rw [writeConfig_of_plain sha512 hplain] at hwrite
    cases hwrite
    have hwords : ∀ word ∈ (configurationOptions sha512 v).filter (· ≠ []), Install.Plain word :=
      fun word hword => hplain.options sha512 (List.mem_filter.mp hword).1
    rw [lines_flatMap_echo hwords]
    intro line hline
    obtain ⟨word, hword, hline⟩ := List.mem_flatMap.mp hline
    rcases mem_echoLines hline with rfl | rfl
    · exact (hwords line hword).notMem rfl
    · exact List.not_mem_nil
  have hnic := hsettings ("LAPAS_NIC_INTERNAL", [' '].intercalate v.lapasNicInternal)
    (by simp [Variables.settings])
  have hmem : ' ' ∈ [' '].intercalate v.lapasNicInternal := by
    rw [hnics]
    simp
  rcases mem_of_readConfig hread hnic hmem with hnone | ⟨line, hline, hmem⟩
  · cases hnone
  · exact hblank line hline hmem

theorem agrees_of_single (hplain : v.Plain) (glob : Str → List Str) {nic : Str}
    (hnic : v.lapasNicInternal = [nic]) : Agrees glob sha512 v := by
  have hsettings : ∀ setting ∈ v.settings sha512, GoodName setting.1 ∧ Install.Plain setting.2 :=
    fun setting hmem => ⟨goodName_of_mem_settings sha512 hmem, hplain.settings sha512 hnic hmem⟩
  have hnonempty : ∀ word ∈ configurationOptions sha512 v, decide (word ≠ []) = true := by
    rw [configurationOptions_of_single sha512 hnic]
    intro word hword
    obtain ⟨setting, hmem, rfl⟩ := List.mem_map.mp hword
    refine decide_eq_true fun hnil => ?_
    have hhead := (hsettings setting hmem).1.head_option setting.2
    rw [hnil] at hhead
    cases hhead
  refine ⟨_, Config.insertAll (fun _ => none) (v.settings sha512),
    writeConfig_of_plain sha512 hplain glob, fun newUserService newDnsService huser
    hdns => ?_, fun setting hmem => Config.insertAll_of_mem (nodup_settings sha512) hmem⟩
  rw [List.filter_eq_self.mpr hnonempty, configurationOptions_of_single sha512 hnic]
  refine init_of_options hsettings (nodup_settings sha512) ?_ huser hdns
  have hneeded : ∀ name ∈ ["LAPAS_USERHOMES_DIR", "LAPAS_NET_DOMAIN", "LAPAS_DNS_HOSTMAPPINGS_DIR"],
      name ∈ networkOptions ++ "LAPAS_NIC_INTERNAL" :: systemOptions ++
        "LAPAS_PASSWORD_HASH" :: guestOptions := by decide +kernel
  exact hneeded

/-- **Agreement.**  For settings without special characters, the server starts on the file and
knows all settings exactly when there is a single internal network card. -/
theorem agrees_iff (hplain : v.Plain) (hne : v.lapasNicInternal ≠ []) (glob : Str → List Str) :
    Agrees glob sha512 v ↔ v.lapasNicInternal.length = 1 := by
  match hnics : v.lapasNicInternal with
  | [] => exact absurd hnics hne
  | [nic] => exact iff_of_true (agrees_of_single sha512 hplain glob hnics) rfl
  | nic :: nic' :: nics =>
    refine iff_of_false (not_agrees_of_two sha512 hplain glob hnics) fun hlength => ?_
    rw [List.length_cons, List.length_cons] at hlength
    omega

/-- An installation in `/lapas` with these cards for the internal network; the variables that are
not named are empty. -/
def installation (nics : List String) : Variables where
  get name :=
    if name = "LAPAS_NET_DOMAIN" then "lan".toList
    else if name = "LAPAS_SCRIPTS_DIR" then "/lapas/scripts".toList
    else if name = "LAPAS_USERHOMES_DIR" then "/lapas/homes".toList
    else if name = "LAPAS_DNS_HOSTMAPPINGS_DIR" then "/tmp/lapas_dns_hostmappings".toList
    else if name = "LAPAS_PASSWORD_SALT" then "lApAsPaSsWoRdSaLt_".toList
    else []
  lapasNicInternal := nics.map String.toList
  lapasPassword := "lapas".toList

/-- The digest of the salted password of `installation`, so that the examples can be computed
without the hash. -/
def lapasDigest : List UInt8 :=
  [0x0a, 0xf9, 0x32, 0xfc, 0xca, 0xca, 0x3b, 0xee, 0x30, 0x60, 0xae, 0x49, 0xd9, 0xc4, 0x8f, 0xce,
    0x26, 0x85, 0x6a, 0x40, 0xb8, 0x3d, 0x9c, 0xb7, 0x40, 0x7a, 0xba, 0xf1, 0x9d, 0x11, 0x01, 0x78,
    0x26, 0x6d, 0x71, 0xad, 0xaf, 0xbe, 0x97, 0x1f, 0x7b, 0xc2, 0x04, 0x44, 0xc6, 0x6d, 0x45, 0xbf,
    0x34, 0xe2, 0xb3, 0x38, 0x65, 0xfb, 0x33, 0x45, 0xb8, 0x76, 0x4d, 0x60, 0x68, 0xa3, 0x82, 0xb5]

theorem agrees_iff_eth1 :
    Agrees (fun _ => []) (fun _ => lapasDigest) (installation ["eth1"]) :=
  have hstrings : ∀ name ∈ networkOptions ++ systemOptions ++ guestOptions,
      Plain ((installation ["eth1"]).get name) := by decide +kernel
  have hnics : ∀ nic ∈ (installation ["eth1"]).lapasNicInternal, Plain nic := by decide +kernel
  (agrees_iff (fun _ => lapasDigest) ⟨hstrings, hnics⟩ (List.cons_ne_nil _ _) fun _ => []).mpr rfl

/-- With the cards `eth1` and `eth2`, the file has a line `eth2`. -/
theorem not_agrees_eth2 :
    (installation ["eth1", "eth2"]).Plain ∧
      ¬ Agrees (fun _ => []) (fun _ => lapasDigest) (installation ["eth1", "eth2"]) := by
  have hstrings : ∀ name ∈ networkOptions ++ systemOptions ++ guestOptions,
      Plain ((installation ["eth1", "eth2"]).get name) := by decide +kernel
  have hnics : ∀ nic ∈ (installation ["eth1", "eth2"]).lapasNicInternal, Plain nic := by
    decide +kernel
  exact ⟨⟨hstrings, hnics⟩, not_agrees_of_two _ ⟨hstrings, hnics⟩ _ rfl⟩

/-- The name of another network card, unless the shell or the reader takes it for something
else, stops the server. -/
theorem init_refuses (hplain : v.Plain) (glob : Str → List Str) {nic nic' : Str} {nics : List Str}
    (hnics : v.lapasNicInternal = nic :: nics) (hmem : nic' ∈ nics) (hne : nic' ≠ [])
    (hoption : isEchoOption nic' = false) (hcomment : nic'.head? ≠ some '#') (heq : '=' ∉ nic') :
    ∃ content, writeConfig glob sha512 v = some (v.configPath, content) ∧
      ∀ newUserService newDnsService,
        init newUserService newDnsService content = .error (.err "Invalid config file") := by
  refine ⟨_, writeConfig_of_plain sha512 hplain glob, fun newUserService newDnsService => ?_⟩
  have hwords : ∀ word ∈ (configurationOptions sha512 v).filter (· ≠ []), Install.Plain word :=
    fun word hword => hplain.options sha512 (List.mem_filter.mp hword).1
  have hword : nic' ∈ configurationOptions sha512 v := by
    simp only [configurationOptions, hnics, quotedAt, List.mem_append, List.mem_cons]
    tauto
  have hline : nic' ∈ lines (((configurationOptions sha512 v).filter (· ≠ [])).flatMap echo) := by
    rw [lines_flatMap_echo hwords]
    refine List.mem_flatMap.mpr ⟨nic', List.mem_filter.mpr ⟨hword, decide_eq_true hne⟩, ?_⟩
    rw [echoLines, hoption]
    exact List.mem_singleton_self _
  rw [init, readConfig_eq_error hline hcomment heq]
  rfl

end

end Install
end Lapas
