import Lapas.Guest.MountHome
import Mathlib.Data.List.Nodup

/-!
# The plugin for the name service

The plugin asks for the list of users, and answers from it.  Numbers of users have 64 bits on
the server and 32 bits in the guest: an entry carries the lower bits of the number, and a lookup
compares the whole of it.

## Main definitions

* `Response`, `getAllEntries`, `getEntryByUid`, `getEntryByName` — the plugin.
* `LookupsAgree` — what is listed can be looked up.

## Main results

* `NameService.getpwnam_eq`, `NameService.getpwuid_eq` — how the guest uses the plugin.
* `lookupsAgree_iff` — this is so when all numbers have 32 bits.
-/

namespace Lapas
namespace Guest

open Proto

/-- The answer of a hook of `libnss`, with those cases of the crate that the hooks of the source
return. -/
inductive Response (α : Type)
  | success (value : α)
  | notFound
  | unavail

/-- What has been found, when the plugin has found something. -/
def Response.value? {α : Type} : Response α → Option α
  | .success value => some value
  | _ => none

namespace PasswdHooks

variable (passwdList : Except Failure (List LapasUserPasswd))

/-- `get_all_entries` of the user database.  Whatever the request fails with, the plugin is not
available. -/
def getAllEntries : Response (List Passwd) :=
  match passwdList with
  | .ok users => .success (users.map userToPasswd)
  | .error _ => .unavail

/-- `get_entry_by_uid`: the first user of the list whose id, with all of its 64 bits, is the
number. -/
def getEntryByUid (uid : UInt32) : Response Passwd :=
  match passwdList with
  | .error _ => .unavail
  | .ok users =>
    match users.find? (·.id = uid.toUInt64) with
    | some user => .success (userToPasswd user)
    | none => .notFound

/-- `get_entry_by_name`: the first user of the list that has the name. -/
def getEntryByName (name : String) : Response Passwd :=
  match passwdList with
  | .error _ => .unavail
  | .ok users =>
    match users.find? (·.name = name) with
    | some user => .success (userToPasswd user)
    | none => .notFound

end PasswdHooks

open PasswdHooks

/-! ### Looking users up -/

/-- An element is found by a value that no other one has. -/
theorem find?_of_nodup {α β : Type} [DecidableEq β] {key : α → β} {l : List α}
    (h : (l.map key).Nodup) {a : α} (ha : a ∈ l) {k : β} (hk : key a = k) :
    l.find? (key · = k) = some a := by
  subst hk
  cases hfind : l.find? (key · = key a) with
  | none =>
    have hnot := List.find?_eq_none.mp hfind a ha
    exact absurd (decide_eq_true rfl) hnot
  | some b =>
    have hkey : key b = key a := by simpa using List.find?_some hfind
    rw [List.inj_on_of_nodup_map h (List.mem_of_find?_eq_some hfind) ha hkey]

theorem find?_of_forall_ne {α β : Type} [DecidableEq β] {key : α → β} {l : List α} {k : β}
    (h : ∀ a ∈ l, key a ≠ k) : l.find? (key · = k) = none :=
  List.find?_eq_none.mpr fun a ha heq => h a ha (of_decide_eq_true heq)

/-- The guest asks the plugin for a name that its own files do not have. -/
theorem NameService.getpwnam_eq (nss : NameService) (name : String) :
    nss.getpwnam name.toList = (nss.files.find? (·.name = name.toList)).or
      (getEntryByName (.ok nss.lapas) name).value? := by
  have hname : ∀ user : LapasUserPasswd, user.name.toList = name.toList ↔ user.name = name :=
    fun user => String.toList_inj
  rw [NameService.getpwnam, getEntryByName]
  simp only [hname]
  cases nss.lapas.find? (·.name = name) <;> rfl

theorem NameService.getpwuid_eq (nss : NameService) (uid : UInt32) :
    nss.getpwuid uid.toNat = (nss.files.find? (·.uid = uid.toNat)).or
      (getEntryByUid (.ok nss.lapas) uid).value? := by
  have hid : ∀ user : LapasUserPasswd, user.id.toNat = uid.toNat ↔ user.id = uid.toUInt64 :=
    fun user => by rw [← UInt64.toNat_inj, UInt32.toNat_toUInt64]
  rw [NameService.getpwuid, getEntryByUid]
  simp only [hid]
  cases nss.lapas.find? (·.id = uid.toUInt64) <;> rfl

/-- The entries are those of the users, and each is what a lookup by its number or its name
gives. -/
structure LookupsAgree (users : List LapasUserPasswd) (entries : List Passwd) : Prop where
  names : entries.map (·.name) = users.map (·.name.toList)
  uids : entries.map (·.uid) = users.map (·.id.toNat)
  nodup : (entries.map (·.uid)).Nodup
  byUid : ∀ e ∈ entries, ∀ uid : UInt32, uid.toNat = e.uid →
    getEntryByUid (.ok users) uid = .success e
  byName : ∀ e ∈ entries, getEntryByName (.ok users) (String.ofList e.name) = .success e
  noUid : ∀ uid : UInt32, (∀ user ∈ users, user.id.toNat ≠ uid.toNat) →
    getEntryByUid (.ok users) uid = .notFound
  noName : ∀ name : String, (∀ user ∈ users, user.name ≠ name) →
    getEntryByName (.ok users) name = .notFound

theorem getEntryByUid_of_mem {users : List LapasUserPasswd} (hids : (users.map (·.id)).Nodup)
    {user : LapasUserPasswd} (huser : user ∈ users) {uid : UInt32}
    (h : user.id.toNat = uid.toNat) :
    getEntryByUid (.ok users) uid = .success (userToPasswd user) := by
  have hid : user.id = uid.toUInt64 := by
    rw [← UInt64.toNat_inj, h, UInt32.toNat_toUInt64]
  have hfind := find?_of_nodup hids huser hid
  rw [getEntryByUid, hfind]

theorem getEntryByName_of_mem {users : List LapasUserPasswd}
    (hnames : (users.map (·.name)).Nodup) {user : LapasUserPasswd} (huser : user ∈ users) :
    getEntryByName (.ok users) user.name = .success (userToPasswd user) := by
  have hfind := find?_of_nodup hnames huser rfl
  rw [getEntryByName, hfind]

/-- **Lists and lookups agree** exactly when the number of every user has 32 bits. -/
theorem lookupsAgree_iff {users : List LapasUserPasswd} (hnames : (users.map (·.name)).Nodup)
    (hids : (users.map (·.id)).Nodup) :
    ∃ entries, getAllEntries (.ok users) = .success entries ∧
      (LookupsAgree users entries ↔ ∀ user ∈ users, user.id.toNat < 2 ^ 32) := by
  refine ⟨users.map userToPasswd, rfl, fun h user huser => ?_, fun h => ?_⟩
  · -- the lower bits are the number
    have huid : ∀ user ∈ users, user.id.toNat % 2 ^ 32 = user.id.toNat := by
      have huids := h.uids
      rw [List.map_map] at huids
      exact List.map_inj_left.mp huids
    rw [← huid user huser]
    exact Nat.mod_lt _ (by decide)
  · -- below the bound the conversion loses nothing
    have huid : ∀ user ∈ users, (userToPasswd user).uid = user.id.toNat :=
      fun user huser => Nat.mod_eq_of_lt (h user huser)
    have huids : (users.map userToPasswd).map (·.uid) = users.map (·.id.toNat) := by
      rw [List.map_map]
      exact List.map_congr_left huid
    refine ⟨by rw [List.map_map]; rfl, huids, ?_, ?_, ?_, ?_, ?_⟩
    · have hmap : users.map (·.id.toNat) = (users.map (·.id)).map UInt64.toNat := by
        rw [List.map_map]
        rfl
      rw [huids, hmap]
      exact hids.map fun a b hab => UInt64.toNat_inj.mp hab
    · intro e he uid heq
      obtain ⟨user, huser, rfl⟩ := List.mem_map.mp he
      exact getEntryByUid_of_mem hids huser ((huid user huser).symm.trans heq.symm)
    · intro e he
      obtain ⟨user, huser, rfl⟩ := List.mem_map.mp he
      have hname : String.ofList (userToPasswd user).name = user.name := String.ofList_toList
      rw [hname]
      exact getEntryByName_of_mem hnames huser
    · intro uid hnone
      have hfind : users.find? (·.id = uid.toUInt64) = none :=
        find?_of_forall_ne fun user huser heq =>
          hnone user huser (by rw [heq, UInt32.toNat_toUInt64])
      rw [getEntryByUid, hfind]
    · intro name hnone
      have hfind : users.find? (·.name = name) = none := find?_of_forall_ne hnone
      rw [getEntryByName, hfind]

/-- Two players with numbers that the server gives. -/
theorem lookupsAgree_iff_players :
    LookupsAgree [⟨10000, "alice"⟩, ⟨10001, "bob"⟩]
      ([⟨10000, "alice"⟩, ⟨10001, "bob"⟩].map userToPasswd) := by
  obtain ⟨entries, hentries, hiff⟩ := @lookupsAgree_iff [⟨10000, "alice"⟩, ⟨10001, "bob"⟩]
    (by decide) (by decide)
  cases hentries
  exact hiff.mpr (by decide)

/-- The first number with more than 32 bits is listed as the one of `root`, and is not found. -/
theorem not_lookupsAgree_root : ∃ entry,
    getAllEntries (.ok [⟨4294967296, "bob"⟩]) = .success [entry] ∧ entry.uid = 0 ∧
    getEntryByUid (.ok [⟨4294967296, "bob"⟩]) 0 = .notFound ∧
    ¬ LookupsAgree [⟨4294967296, "bob"⟩] [entry] := by
  refine ⟨userToPasswd ⟨4294967296, "bob"⟩, rfl, rfl, rfl, fun h => ?_⟩
  exact absurd h.uids (by decide)

end Guest
end Lapas
