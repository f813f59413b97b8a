import Lapas.Install.Config
import Lapas.Daemon.AuthServer

/-!
# The administration password

The installer writes it into a file of the guest, in double quotes.  The library for name
lookups has a reader of its own for that file; for the daemon it is read by systemd, and
`mountHome.sh` lets the shell read it, which also expands what is in double quotes.

## Main definitions

* `uiTextInput`, `apiEnv` — which passwords the installer takes, and the file.
* `getApiPassword` — the reader of the library.
* `environmentFile`, `sourced` — systemd and the shell.
* `Installed` — the configuration of the server is the installer's.
* `ReadersAgree` — all find the password, and with it they are let in.

## Main results

* `getApiPassword_apiEnv` — the library always finds the password.
* `environmentFile_apiEnv`, `sourced_apiEnv` — when the daemon and `mountHome.sh` do.
* `readersAgree_iff` — **the readers agree exactly on the passwords that stand for themselves in
  double quotes and that the shell does not expand.**
-/

namespace Lapas
namespace Guest

open Shell Server Proto Install

/-! ### The writer -/

/-- The check of `uiTextInput` against `^.+$`: a line of the output is not empty. -/
def uiTextInput (password : Str) : Bool := ((echo password).splitOn '\n').any (· ≠ [])

/-- What the line begins with, up to the opening quote. -/
def apiPasswordStart : Str := "API_PASSWORD=\"".toList

/-- `lapas-api.env` of the guest: one line that assigns the password, which stands between double
quotes just as it was entered. -/
def apiEnv (v : Variables) : Str := echo (apiPasswordStart ++ v.lapasPassword ++ ['"'])

/-! ### The readers -/

/-- `get_api_password`, on the lines of the file.  Where the quote at the end of the line is the
one at the start, the slice is out of range. -/
def getApiPassword : List Str → Except Failure Str
  | [] => .error (.err "Failed to parse lapas-api environment file!")
  | line :: lines =>
    if apiPasswordStart.isPrefixOf line ∧ line.getLast? = some '"' then
      if line.length ≤ 14 then .error (.panic "byte index out of range")
      else .ok (line.drop 14).dropLast
    else getApiPassword lines

/-- What systemd reads behind an opening quote: up to the first quote that is not escaped, and
without the backslashes in front of characters that they escape. -/
def doubleQuoted : Str → Option Str
  | [] => none
  | '"' :: _ => some []
  | '\\' :: c :: text =>
    if c ∈ escapable then (doubleQuoted text).map (c :: ·)
    else (doubleQuoted (c :: text)).map ('\\' :: ·)
  | c :: text => (doubleQuoted text).map (c :: ·)

/-- `API_PASSWORD` in the environment of the daemon, which systemd sets up with
`EnvironmentFile=/lapas/lapas-api.env`. -/
def environmentFile (content : Str) : Option Str :=
  if apiPasswordStart.isPrefixOf content then doubleQuoted (content.drop 14) else none

/-- `API_PASSWORD` in `mountHome.sh`, behind `. "/lapas/lapas-api.env" || exit 1`; `none` where
that fails, or gives a value that the shell has expanded. -/
def sourced (content : Str) : Option Str :=
  if "API_PASSWORD=".toList.isPrefixOf content then assigned .unquoted (content.drop 13) else none

/-! ### Agreement -/

/-- The salt that the installer writes into the configuration of the server. -/
def passwordSalt : Str := "lApAsPaSsWoRdSaLt_".toList

/-- The server has the salt and the hash of the installer. -/
structure Installed {ι : Type} (setup : Setup ι) (v : Variables) : Prop where
  salt : v.get "LAPAS_PASSWORD_SALT" = passwordSalt
  config_salt : setup.config "LAPAS_PASSWORD_SALT" = some (String.ofList passwordSalt)
  config_hash :
    setup.config "LAPAS_PASSWORD_HASH" = some (String.ofList (v.passwordHash setup.sha512))

/-- What is sent with the password that has been read. -/
def apiAuth (password : Str) : ApiAuth := .password (String.ofList password)

/-- The library, the daemon and `mountHome.sh` read the password, the server accepts what each of
them sends, and the daemon accepts the library. -/
structure ReadersAgree {ι : Type} (setup : Setup ι) (v : Variables) (chrono : Chrono) : Prop where
  library : getApiPassword (lines (apiEnv v)) = .ok v.lapasPassword
  daemon : environmentFile (apiEnv v) = some v.lapasPassword
  mountHome : sourced (apiEnv v) = some v.lapasPassword
  checked : ∀ password, getApiPassword (lines (apiEnv v)) = .ok password ∨
    environmentFile (apiEnv v) = some password ∨ sourced (apiEnv v) = some password →
      checkAuth setup (apiAuth password) = some true
  forwarded : ∀ sent own, getApiPassword (lines (apiEnv v)) = .ok sent →
    environmentFile (apiEnv v) = some own →
    Daemon.handleLocalAuthClient (apiAuth own)
      (.shadowGetList (apiAuth sent) : LapasProtocol chrono) = .running .shadowAll

/-! ### The library -/

section

variable {v : Variables}

theorem apiEnv_eq (v : Variables) :
    apiEnv v = apiPasswordStart ++ v.lapasPassword ++ ['"'] ++ ['\n'] := rfl

theorem lines_apiEnv (hline : '\n' ∉ v.lapasPassword) :
    lines (apiEnv v) = [apiPasswordStart ++ v.lapasPassword ++ ['"']] := by
  have hnotMem : '\n' ∉ apiPasswordStart ++ v.lapasPassword ++ ['"'] := by
    rw [List.mem_append, List.mem_append]
    rintro ((h | h) | h)
    · exact absurd h (by decide)
    · exact hline h
    · exact absurd h (by decide)
  rw [apiEnv_eq, lines_append hnotMem, stripCr, if_neg]
  · rfl
  · rw [List.getLast?_concat]
    decide

/-- **The library always finds the password.** -/
theorem getApiPassword_apiEnv (hline : '\n' ∉ v.lapasPassword) :
    getApiPassword (lines (apiEnv v)) = .ok v.lapasPassword := by
  have hstart : apiPasswordStart.isPrefixOf (apiPasswordStart ++ v.lapasPassword ++ ['"']) := by
    rw [List.isPrefixOf_iff_prefix, List.append_assoc]
    exact List.prefix_append _ _
  have hlength : ¬ (apiPasswordStart ++ v.lapasPassword ++ ['"']).length ≤ 14 := by
    have hfourteen : apiPasswordStart.length = 14 := rfl
    rw [List.length_append, List.length_append, hfourteen, List.length_singleton]
    omega
  have hdrop : (apiPasswordStart ++ v.lapasPassword ++ ['"']).drop 14 =
      v.lapasPassword ++ ['"'] := by
    rw [List.append_assoc]
    exact @List.drop_left _ apiPasswordStart _
  rw [lines_apiEnv hline, getApiPassword, if_pos ⟨hstart, List.getLast?_concat⟩, if_neg hlength,
    hdrop, List.dropLast_concat]

end

/-! ### The daemon and `mountHome.sh` -/

section

variable {password rest : Str}

/-- A value ends in front of a quote, and escaping makes nothing longer. -/
theorem exists_of_doubleQuoted {text value : Str} (h : doubleQuoted text = some value) :
    ∃ inner tail, text = inner ++ '"' :: tail ∧ value.length ≤ inner.length := by
  induction text using doubleQuoted.induct generalizing value with
  | case1 => cases h
  | case2 tail =>
    cases h
    exact ⟨[], tail, rfl, Nat.le_refl 0⟩
  | case3 c text hc ih =>
    rw [doubleQuoted, if_pos hc, Option.map_eq_some_iff] at h
    obtain ⟨value, hvalue, rfl⟩ := h
    obtain ⟨inner, tail, rfl, hle⟩ := ih hvalue
    refine ⟨'\\' :: c :: inner, tail, rfl, ?_⟩
    simp only [List.length_cons]
    omega
  | case4 c text hc ih =>
    rw [doubleQuoted, if_neg hc, Option.map_eq_some_iff] at h
    obtain ⟨value, hvalue, rfl⟩ := h
    obtain ⟨inner, tail, htext, hle⟩ := ih hvalue
    exact ⟨'\\' :: inner, tail, by rw [htext]; rfl, Nat.succ_le_succ hle⟩
  | case5 c text hquote hbackslash ih =>
    rw [doubleQuoted.eq_4 _ _ hquote hbackslash, Option.map_eq_some_iff] at h
    obtain ⟨value, hvalue, rfl⟩ := h
    obtain ⟨inner, tail, rfl, hle⟩ := ih hvalue
    exact ⟨c :: inner, tail, rfl, Nat.succ_le_succ hle⟩

/-- No more is read than stands in front of the last quote. -/
theorem length_le_of_doubleQuoted (hrest : '"' ∉ rest) {value : Str}
    (h : doubleQuoted (password ++ '"' :: rest) = some value) :
    value.length ≤ password.length := by
  obtain ⟨inner, tail, htext, hle⟩ := exists_of_doubleQuoted h
  rcases List.append_eq_append_iff.mp htext with ⟨between, hinner, htail⟩ | ⟨between, hpassword, -⟩
  · cases between with
    | nil => rwa [hinner, List.append_nil] at hle
    | cons c between =>
      -- The quote that ends the value would stand in the rest.
      obtain ⟨-, rfl⟩ := List.cons.inj htail
      exact absurd (List.mem_append_right between List.mem_cons_self) hrest
  · rw [hpassword, List.length_append]
    omega

/-- In double quotes systemd finds a password when it stands for itself. -/
theorem doubleQuoted_eq_iff (hrest : '"' ∉ rest) :
    doubleQuoted (password ++ '"' :: rest) = some password ↔ Verbatim password := by
  induction password using doubleQuoted.induct with
  | case1 => exact iff_of_true rfl (by decide)
  | case2 tail =>
    refine iff_of_false (fun h => ?_) fun h => h.1 List.mem_cons_self
    exact List.cons_ne_nil _ _ (Option.some.inj h).symm
  | case3 c text hc ih =>
    refine iff_of_false (fun h => ?_) fun h => ?_
    · -- A character has gone, and nothing behind the closing quote makes up for it.
      rw [List.cons_append, List.cons_append, doubleQuoted, if_pos hc, Option.map_eq_some_iff] at h
      obtain ⟨value, hvalue, heq⟩ := h
      have hle := length_le_of_doubleQuoted hrest hvalue
      rw [(List.cons.inj heq).2, List.length_cons] at hle
      exact absurd hle (Nat.not_succ_le_self _)
    · exact (verbatim_cons.mp h).2.1 rfl c hc rfl
  | case4 c text hc ih =>
    rw [List.cons_append, List.cons_append, doubleQuoted, if_neg hc, map_cons_eq_some_iff,
      ← List.cons_append, ih, @verbatim_cons (c :: text)]
    refine ⟨fun h => ⟨by decide, fun _ d hd hhead => ?_, h⟩, fun h => h.2.2⟩
    exact hc (Option.some.inj hhead ▸ hd)
  | case5 c text hquote hbackslash ih =>
    by_cases hc : c = '\\'
    · cases text with
      | nil =>
        -- The closing quote is escaped.
        subst hc
        refine iff_of_false (fun h => ?_) (by decide)
        rw [List.cons_append, List.nil_append, doubleQuoted, if_pos (by decide),
          Option.map_eq_some_iff] at h
        obtain ⟨value, -, heq⟩ := h
        exact absurd (List.cons.inj heq).1 (by decide)
      | cons d text => exact (hbackslash d text hc rfl).elim
    · rw [List.cons_append, doubleQuoted.eq_4 _ _ hquote fun _ _ h => (hc h).elim,
        map_cons_eq_some_iff, ih, verbatim_cons]
      exact ⟨fun h => ⟨hquote, fun h => (hc h).elim, h⟩, fun h => h.2.2⟩

theorem environmentFile_apiEnv {v : Variables} :
    environmentFile (apiEnv v) = some v.lapasPassword ↔ Verbatim v.lapasPassword := by
  have hstart : apiPasswordStart.isPrefixOf (apiEnv v) := by
    rw [List.isPrefixOf_iff_prefix, apiEnv_eq, List.append_assoc, List.append_assoc]
    exact List.prefix_append _ _
  have hdrop : (apiEnv v).drop 14 = v.lapasPassword ++ '"' :: ['\n'] := by
    rw [apiEnv_eq, List.append_assoc, List.append_assoc]
    exact @List.drop_left _ apiPasswordStart _
  rw [environmentFile, if_pos hstart, hdrop]
  exact doubleQuoted_eq_iff (by decide)

theorem sourced_apiEnv {v : Variables} (hline : '\n' ∉ v.lapasPassword) :
    sourced (apiEnv v) = some v.lapasPassword ↔
      Verbatim v.lapasPassword ∧ Unexpanded v.lapasPassword := by
  have heq : apiEnv v = "API_PASSWORD=".toList ++ '"' :: (v.lapasPassword ++ ['"', '\n']) := by
    rw [apiEnv_eq, List.append_assoc, List.append_assoc]
    rfl
  have hstart : "API_PASSWORD=".toList.isPrefixOf (apiEnv v) := by
    rw [List.isPrefixOf_iff_prefix, heq]
    exact List.prefix_append _ _
  have hdrop : (apiEnv v).drop 13 = '"' :: (v.lapasPassword ++ ['"', '\n']) := by
    rw [heq]
    exact @List.drop_left _ "API_PASSWORD=".toList _
  rw [sourced, if_pos hstart, hdrop]
  exact assigned_double_iff hline

end

/-! ### The servers -/

section

variable {ι : Type} {setup : Setup ι} {v : Variables}

/-- The server accepts the password of the installer. -/
theorem Installed.checkAuth (h : Installed setup v) :
    checkAuth setup (apiAuth v.lapasPassword) = some true := by
  have hecho : echoN (passwordSalt ++ v.lapasPassword) = passwordSalt ++ v.lapasPassword := rfl
  have hhash : v.passwordHash setup.sha512 =
      (hexEncode (setup.sha512 (utf8Bytes
        (String.ofList passwordSalt ++ String.ofList v.lapasPassword)))).toList := by
    rw [Variables.passwordHash, h.salt, hecho, sha512Hex, String.ofList_append]
  simp only [Server.checkAuth, apiAuth, h.config_salt, h.config_hash, hhash, String.ofList_toList]
  simp

/-- **The readers agree exactly on the passwords that stand for themselves in double quotes** and
in which the shell expands nothing. -/
theorem readersAgree_iff (chrono : Chrono) (hinstalled : Installed setup v)
    (hline : '\n' ∉ v.lapasPassword) :
    ReadersAgree setup v chrono ↔ Verbatim v.lapasPassword ∧ Unexpanded v.lapasPassword := by
  refine ⟨fun h => (sourced_apiEnv hline).mp h.mountHome, fun h => ?_⟩
  have hlibrary := getApiPassword_apiEnv hline
  have hdaemon := environmentFile_apiEnv.mpr h.1
  have hmountHome := (sourced_apiEnv hline).mpr h
  refine ⟨hlibrary, hdaemon, hmountHome, ?_, fun sent own hsent hown => ?_⟩
  · rintro password (hpassword | hpassword | hpassword)
    · rw [hlibrary] at hpassword
      exact Except.ok.inj hpassword ▸ hinstalled.checkAuth
    · rw [hdaemon] at hpassword
      exact Option.some.inj hpassword ▸ hinstalled.checkAuth
    · rw [hmountHome] at hpassword
      exact Option.some.inj hpassword ▸ hinstalled.checkAuth
  · rw [hlibrary] at hsent
    rw [hdaemon] at hown
    rw [← Except.ok.inj hsent, ← Option.some.inj hown]
    exact if_pos rfl

end

/-! ### A quote in the password -/

/-- The SHA-512 hash of the salt in front of `a\b$`. -/
def dollarHash : List UInt8 :=
  [91, 192, 71, 110, 82, 252, 6, 22, 103, 23, 9, 12, 164, 56, 49, 207, 244, 56, 24, 232, 82, 154,
   21, 37, 52, 193, 138, 15, 84, 69, 193, 72, 101, 188, 137, 107, 209, 172, 248, 22, 145, 217, 102,
   234, 156, 156, 136, 116, 249, 178, 165, 34, 37, 214, 68, 101, 26, 237, 28, 167, 33, 76, 74, 199]

/-- The SHA-512 hash of the salt in front of `a"b`. -/
def quoteHash : List UInt8 :=
  [235, 96, 159, 187, 139, 129, 71, 0, 7, 196, 56, 131, 189, 30, 196, 59, 119, 248, 241, 192, 233,
   254, 54, 169, 239, 117, 33, 138, 181, 90, 91, 132, 179, 239, 203, 253, 2, 241, 151, 191, 11,
   153, 43, 197, 129, 225, 245, 181, 201, 4, 200, 228, 112, 120, 126, 41, 67, 253, 194, 7, 75, 68,
   1, 148]

/-- The variables of an installer in which this password has been entered; of the others only the
salt is set. -/
def withPassword (password : String) : Variables where
  get name := if name = "LAPAS_PASSWORD_SALT" then passwordSalt else []
  lapasNicInternal := []
  lapasPassword := password.toList

/-- The server of that installer, with the salt and the hash that the installer writes into its
configuration. -/
def setupFor (sha512 : List UInt8 → List UInt8) (password : String) : Setup Unit where
  config name :=
    if name = "LAPAS_PASSWORD_SALT" then some (String.ofList passwordSalt)
    else if name = "LAPAS_PASSWORD_HASH" then
      some (String.ofList ((withPassword password).passwordHash sha512))
    else none
  sha512 := sha512
  sha512Crypt := Server.bobCrypt
  dnsDomain := "lapas"
  hostsDir := "/etc/lapas/dns"
  ip _ := "192.168.0.2"

theorem installed_setupFor (sha512 : List UInt8 → List UInt8) (password : String) :
    Installed (setupFor sha512 password) (withPassword password) :=
  ⟨rfl, rfl, rfl⟩

/-- A backslash that escapes nothing, and a dollar sign in front of the closing quote. -/
theorem readersAgree_dollar :
    ReadersAgree (setupFor (fun _ => dollarHash) "a\\b$") (withPassword "a\\b$") epoch :=
  (readersAgree_iff epoch (installed_setupFor _ _) (by decide)).mpr (by decide)

/-- The library goes on to the end of the line, the daemon stops at the quote. -/
theorem not_readersAgree_quote :
    ¬ ∀ (sha512 : List UInt8 → List UInt8) (password : String),
      password ≠ "" → '\n' ∉ password.toList → uiTextInput password.toList = true →
      ReadersAgree (setupFor sha512 password) (withPassword password) epoch := by
  intro h
  have hdaemon := (h (fun _ => quoteHash) "a\"b" (by decide) (by decide) (by decide)).daemon
  exact absurd hdaemon (by decide)

end Guest
end Lapas
