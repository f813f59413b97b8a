import Lapas.Library.Transition
import Lapas.Proto.Protocol
import Mathlib.Data.List.Nodup
import Mathlib.Logic.Equiv.List

/-!
# The user service

`add_user` holds the lock of the service from its checks until the index file is written,
so a call is two steps: it is refused, or the user is pushed; and then the file is written.
Lists are read, and the server is restarted, while no call holds the lock.

## Main definitions

* `UserIndex`, `UserIndex.addUser`, `UserIndex.passwdAll`, `UserIndex.shadowAll` — the index.
* `readUserIndex` — reloading it.
* `UserService`, `userService` — the service, its file, and the calls that have returned.
* `accepted` — the calls that have pushed a user.

## Main results

* `inv_of_reach` — the index is the list of the accepted calls, numbered from 10000.
* `userIndex_invariant` — what follows for names, numbers, lists and reloading.
-/

namespace Lapas
namespace Server

open Proto

variable {chrono : Chrono}

/-! ### The index -/

/-- A user as the index stores it, with the hash of the password and the two times. -/
structure UserIndexEntry (chrono : Chrono) where
  id : UserId
  name : String
  passwordHash : String
  creationTs : chrono.DateTime
  lastUpdateTs : chrono.DateTime

/-- The index of the users: the id that the next one gets, and the users in the order of their
registration. -/
structure UserIndex (chrono : Chrono) where
  nextId : UserId
  users : List (UserIndexEntry chrono)

/-- `UserIndex::default`: no users, and the first id that a user will get. -/
def UserIndex.default : UserIndex chrono where
  nextId := 10000
  users := []

/-- `sha512_crypt_b64` of a password and a salt. -/
abbrev Sha512Crypt := String → String → String

/-- A call of `add_user`, with the salt and the two times that it draws. -/
structure Registration (chrono : Chrono) where
  username : String
  password : String
  salt : String
  creationTs : chrono.DateTime
  lastUpdateTs : chrono.DateTime

section

variable (sha512Crypt : Sha512Crypt)

/-- `password_to_ghost_random_salt`: the method, the salt and the hash of the password, in the
format of `/etc/shadow`. -/
def passwordToGhostRandomSalt (password salt : String) : String :=
  "$6$" ++ salt ++ "$" ++ sha512Crypt password salt

/-- The new user that `add_user` pushes, with the id that the index has kept for it. -/
def Registration.entry (call : Registration chrono) (id : UserId) : UserIndexEntry chrono where
  id := id
  name := call.username
  passwordHash := passwordToGhostRandomSalt sha512Crypt call.password call.salt
  creationTs := call.creationTs
  lastUpdateTs := call.lastUpdateTs

/-- `add_user`, up to the writing of the file. -/
def UserIndex.addUser (index : UserIndex chrono) (call : Registration chrono) :
    Except String (UserIndex chrono) :=
  if call.username.utf8ByteSize < 3 then .error "Username too short!"
  else if index.users.any (·.name = call.username) then
    .error "User with the requested name already exists!"
  else if call.password.utf8ByteSize = 0 then .error "Password must not be empty!"
  else .ok
    { users := index.users ++ [call.entry sha512Crypt index.nextId]
      nextId := index.nextId + 1 }

end

/-- `passwd_all`: the names and ids of all users, in the order of the index. -/
def UserIndex.passwdAll (index : UserIndex chrono) : List LapasUserPasswd :=
  index.users.map fun usr => { id := usr.id, name := usr.name }

/-- `shadow_all`: the same users with their hashes and the times of their last changes. -/
def UserIndex.shadowAll (index : UserIndex chrono) : List (LapasUserShadow chrono) :=
  index.users.map fun usr =>
    { id := usr.id, name := usr.name, passwordHash := usr.passwordHash,
      lastUpdateTs := usr.lastUpdateTs }

/-- Everything that accepting a call means. -/
theorem UserIndex.addUser_eq_ok {sha512Crypt : Sha512Crypt} {index index' : UserIndex chrono}
    {call : Registration chrono} (h : index.addUser sha512Crypt call = .ok index') :
    3 ≤ call.username.utf8ByteSize ∧ call.username ∉ index.users.map (·.name) ∧
      index' = { users := index.users ++ [call.entry sha512Crypt index.nextId],
                 nextId := index.nextId + 1 } := by
  unfold addUser at h
  split at h
  · cases h
  · next hlen =>
    split at h
    · cases h
    · next hnew =>
      split at h
      · cases h
      · cases h
        refine ⟨by omega, fun hmem => hnew ?_, rfl⟩
        obtain ⟨usr, husr, hname⟩ := List.mem_map.mp hmem
        exact List.any_eq_true.mpr ⟨usr, husr, decide_eq_true hname⟩

/-! ### The file -/

/-- What the server uses of `serde_json`, on its index. -/
structure SerdeJson (chrono : Chrono) where
  toStringPretty : UserIndex chrono → String
  fromStr : String → Except String (UserIndex chrono)

/-- Text that has been written is read back. -/
class SerdeJson.RoundTrips (serde : SerdeJson chrono) : Prop where
  fromStr_toStringPretty : ∀ index, serde.fromStr (serde.toStringPretty index) = .ok index

/-- The bytes that `write_user_index` writes for an index: its pretty JSON text in UTF-8. -/
def SerdeJson.fileData (serde : SerdeJson chrono) (index : UserIndex chrono) : List UInt8 :=
  utf8Bytes (serde.toStringPretty index)

/-- `read_user_index`; `none` is a file that does not exist. -/
def readUserIndex (serde : SerdeJson chrono) :
    Option (List UInt8) → Except String (UserIndex chrono)
  | none => .ok .default
  | some bytes =>
    match String.fromUTF8? ⟨bytes.toArray⟩ with
    | some fileData => serde.fromStr fileData
    | none => .error "stream did not contain valid UTF-8"

theorem readUserIndex_fileData (serde : SerdeJson chrono) [serde.RoundTrips]
    (index : UserIndex chrono) : readUserIndex serde (some (serde.fileData index)) = .ok index := by
  have htext : String.fromUTF8? ⟨(serde.fileData index).toArray⟩ =
      some (serde.toStringPretty index) := fromUTF8?_eq_some_iff.mpr rfl
  rw [readUserIndex, htext]
  exact SerdeJson.RoundTrips.fromStr_toStringPretty index

/-! ### The service -/

/-- The service of the users: the index in memory, the file it is written to, and the call that
holds the lock. -/
structure UserService (chrono : Chrono) where
  index : UserIndex chrono
  /-- The bytes of `USER_INDEX`. -/
  file : Option (List UInt8)
  /-- The call that holds the lock, its user pushed and the file not written. -/
  writing : Option (Registration chrono)
  /-- The calls that have returned, and what. -/
  returned : List (Registration chrono × Except String Unit)

/-- The steps of the service.  Between the push of a user and the end of its writing the lock is
held, and nothing else comes between. -/
inductive UserService.Event (chrono : Chrono)
  /-- `add_user` takes the lock and is refused, or pushes its user. -/
  | addUser (call : Registration chrono)
  /-- The file is written, and the call returns. -/
  | written
  /-- `passwd_all` or `shadow_all`. -/
  | list
  /-- The server is restarted and loads the file. -/
  | restart

section

variable (sha512Crypt : Sha512Crypt) (serde : SerdeJson chrono)

/-- One step of the service.  A call has to wait for the lock, and a restart loads what has been
written. -/
def UserService.step (s : UserService chrono) :
    UserService.Event chrono → Option (UserService chrono)
  | .addUser call =>
    match s.writing with
    | some _ => none
    | none =>
      match s.index.addUser sha512Crypt call with
      | .error e => some { s with returned := s.returned ++ [(call, .error e)] }
      | .ok index => some { s with index, writing := some call }
  | .written =>
    match s.writing with
    | none => none
    | some call =>
      some { s with
        file := some (serde.fileData s.index), writing := none
        returned := s.returned ++ [(call, .ok ())] }
  | .list => if s.writing.isNone then some s else none
  | .restart =>
    match s.writing with
    | some _ => none
    | none =>
      match readUserIndex serde s.file with
      | .ok index => some { s with index }
      | .error _ => none

/-- The service of a server that is started without an index file. -/
def userService : Machine (UserService chrono) (UserService.Event chrono) where
  start s := s = ⟨.default, none, none, []⟩
  step := UserService.step sha512Crypt serde

/-- The calls that have pushed a user, in this order. -/
def UserService.accepted (s : UserService chrono) : List (Registration chrono) :=
  (s.returned.filter (·.2.isOk)).map Prod.fst ++ s.writing.toList

/-- The users of a list of calls, numbered consecutively. -/
def entries : ℕ → List (Registration chrono) → List (UserIndexEntry chrono)
  | _, [] => []
  | id, call :: calls => call.entry sha512Crypt (UInt64.ofNat id) :: entries (id + 1) calls

/-- The index is the list of the accepted calls. -/
structure Inv (s : UserService chrono) : Prop where
  users_eq : s.index.users = entries sha512Crypt 10000 s.accepted
  nextId_eq : s.index.nextId = UInt64.ofNat (10000 + s.accepted.length)
  names_nodup : (s.accepted.map (·.username)).Nodup
  names_long : ∀ call ∈ s.accepted, 3 ≤ call.username.utf8ByteSize
  /-- A restart would load the index. -/
  file_eq : s.writing = none → readUserIndex serde s.file = .ok s.index

end

/-! ### The invariant -/

section

variable {sha512Crypt : Sha512Crypt} {serde : SerdeJson chrono}

theorem length_entries (id : ℕ) (calls : List (Registration chrono)) :
    (entries sha512Crypt id calls).length = calls.length := by
  induction calls generalizing id with
  | nil => rfl
  | cons call calls ih => rw [entries, List.length_cons, List.length_cons, ih]

theorem names_entries (id : ℕ) (calls : List (Registration chrono)) :
    (entries sha512Crypt id calls).map (·.name) = calls.map (·.username) := by
  induction calls generalizing id with
  | nil => rfl
  | cons call calls ih =>
    rw [entries, List.map_cons, List.map_cons, ih]
    rfl

theorem entries_concat (id : ℕ) (calls : List (Registration chrono))
    (call : Registration chrono) :
    entries sha512Crypt id (calls ++ [call]) =
      entries sha512Crypt id calls ++
        [call.entry sha512Crypt (UInt64.ofNat (id + calls.length))] := by
  induction calls generalizing id with
  | nil => rfl
  | cons first calls ih =>
    rw [List.cons_append, entries, entries, ih, List.cons_append, List.length_cons,
      Nat.add_right_comm, Nat.add_assoc]

theorem ids_entries {id : ℕ} {calls : List (Registration chrono)}
    (h : id + calls.length ≤ 2 ^ 64) :
    (entries sha512Crypt id calls).map (·.id.toNat) = List.range' id calls.length := by
  induction calls generalizing id with
  | nil => rfl
  | cons call calls ih =>
    rw [List.length_cons] at h
    have hid : (UInt64.ofNat id).toNat = id := UInt64.toNat_ofNat_of_lt' (by
      show id < 2 ^ 64
      omega)
    rw [entries, List.map_cons, ih (by omega), List.length_cons, List.range'_succ]
    exact congrArg (· :: _) hid

/-- A call that is refused changes nothing, and one that is accepted has pushed its user. -/
theorem UserService.step_addUser {s s' : UserService chrono} {call : Registration chrono}
    (h : s.step sha512Crypt serde (.addUser call) = some s') :
    s.writing = none ∧
      ((∃ e, s' = { s with returned := s.returned ++ [(call, .error e)] }) ∨
        ∃ index, s.index.addUser sha512Crypt call = .ok index ∧
          s' = { s with index, writing := some call }) := by
  rw [step] at h
  split at h
  · cases h
  · next hfree =>
    refine ⟨hfree, ?_⟩
    split at h
    · next e he =>
      cases h
      exact Or.inl ⟨e, rfl⟩
    · next index hindex =>
      cases h
      exact Or.inr ⟨index, hindex, rfl⟩

/-- A restart that can read the file. -/
theorem UserService.step_restart {s : UserService chrono} (hfree : s.writing = none)
    {index : UserIndex chrono} (hread : readUserIndex serde s.file = .ok index) :
    s.step sha512Crypt serde .restart = some { s with index } := by
  rw [step, hfree]
  simp only [hread]

theorem UserService.accepted_refused (s : UserService chrono) (call : Registration chrono)
    (e : String) :
    ({ s with returned := s.returned ++ [(call, .error e)] } : UserService chrono).accepted =
      s.accepted := by
  simp [accepted, List.filter_append, Except.isOk, Except.toBool]

theorem UserService.accepted_written {s : UserService chrono} {call : Registration chrono}
    (h : s.writing = some call) (file : Option (List UInt8)) :
    ({ s with file, writing := none, returned := s.returned ++ [(call, .ok ())] } :
      UserService chrono).accepted = s.accepted := by
  simp [accepted, h, List.filter_append, Except.isOk, Except.toBool]

theorem UserService.accepted_pushed {s : UserService chrono} (h : s.writing = none)
    (call : Registration chrono) (index : UserIndex chrono) :
    ({ s with index, writing := some call } : UserService chrono).accepted =
      s.accepted ++ [call] := by
  simp [accepted, h]

/-- **One step.** -/
theorem inv_step [serde.RoundTrips] {s s' : UserService chrono} {e : UserService.Event chrono}
    (h : Inv sha512Crypt serde s) (hstep : s.step sha512Crypt serde e = some s') :
    Inv sha512Crypt serde s' := by
  cases e with
  | addUser call =>
    obtain ⟨hfree, ⟨e, rfl⟩ | ⟨index, hindex, rfl⟩⟩ := UserService.step_addUser hstep
    · have haccepted := s.accepted_refused call e
      exact ⟨by rw [haccepted]; exact h.users_eq, by rw [haccepted]; exact h.nextId_eq,
        by rw [haccepted]; exact h.names_nodup, by rw [haccepted]; exact h.names_long, h.file_eq⟩
    · have haccepted := UserService.accepted_pushed hfree call index
      obtain ⟨hlong, hnew, rfl⟩ := UserIndex.addUser_eq_ok hindex
      -- the name is not among those of the accepted calls, and it is the only new one
      rw [h.users_eq, names_entries] at hnew
      constructor
      · rw [haccepted, entries_concat, ← h.nextId_eq, ← h.users_eq]
      -- modulo `2 ^ 64`, as `next_id` is a `u64`
      · rw [haccepted, List.length_append, List.length_singleton, ← Nat.add_assoc,
          UInt64.ofNat_add, ← h.nextId_eq]
        rfl
      · rw [haccepted, List.map_append, List.map_singleton]
        exact List.nodup_append.mpr ⟨h.names_nodup, List.nodup_singleton _, by
          intro a ha b hb
          rw [List.mem_singleton.mp hb]
          rintro rfl
          exact hnew ha⟩
      · rw [haccepted]
        intro call' hcall'
        rcases List.mem_append.mp hcall' with hcall' | hcall'
        · exact h.names_long call' hcall'
        · rw [List.mem_singleton.mp hcall']
          exact hlong
      · intro hwriting
        cases hwriting
  | written =>
    rw [UserService.step] at hstep
    split at hstep
    · cases hstep
    · next call hcall =>
      cases hstep
      have haccepted := UserService.accepted_written hcall (some (serde.fileData s.index))
      exact ⟨by rw [haccepted]; exact h.users_eq, by rw [haccepted]; exact h.nextId_eq,
        by rw [haccepted]; exact h.names_nodup, by rw [haccepted]; exact h.names_long,
        fun _ => readUserIndex_fileData serde s.index⟩
  | list =>
    rw [UserService.step] at hstep
    split at hstep
    · cases hstep
      exact h
    · cases hstep
  | restart =>
    rw [UserService.step] at hstep
    split at hstep
    · cases hstep
    · next hfree =>
      -- the file holds the index that the server has
      rw [h.file_eq hfree] at hstep
      cases hstep
      exact h

theorem inv_of_reach [serde.RoundTrips] {s : UserService chrono}
    (h : (userService sha512Crypt serde).Reach (fun _ _ => True) s) : Inv sha512Crypt serde s :=
  h.invariant (fun s hs => by
    rw [hs]
    exact ⟨rfl, rfl, List.nodup_nil, fun _ hcall => absurd hcall List.not_mem_nil, fun _ => rfl⟩)
    fun _ _ _ hs _ hstep => inv_step hs hstep

/-- **The user index.**  With fewer than `2 ^ 64 - 10000` accepted calls, at every point: the
names are distinct and at least three bytes long, and the ids are 10000, 10001, and so on,
with `next_id` behind the last; the users are those of the accepted calls, in this order,
so that a call that returns an error has changed nothing; both lists show the same ids and
names; and a restart loads the index. -/
theorem userIndex_invariant [serde.RoundTrips] {s : UserService chrono}
    (h : (userService sha512Crypt serde).Reach (fun _ _ => True) s)
    (hfew : s.accepted.length < 2 ^ 64 - 10000) :
    (s.index.users.map (·.name)).Nodup ∧
    (∀ usr ∈ s.index.users, 3 ≤ usr.name.utf8ByteSize) ∧
    s.index.users.map (·.id.toNat) = List.range' 10000 s.index.users.length ∧
    s.index.nextId.toNat = 10000 + s.index.users.length ∧
    s.index.users = entries sha512Crypt 10000 s.accepted ∧
    s.index.passwdAll.map (fun usr => (usr.id, usr.name)) =
      s.index.shadowAll.map (fun usr => (usr.id, usr.name)) ∧
    (s.writing = none → readUserIndex serde s.file = .ok s.index) ∧
    ∀ call s', s.step sha512Crypt serde (.addUser call) = some s' →
      (∃ e, s'.returned = s.returned ++ [(call, .error e)] ∧ s'.index = s.index ∧
        s'.file = s.file ∧ s'.writing = none) ∨
      s'.index.users = s.index.users ++ [call.entry sha512Crypt s.index.nextId] ∧
        s'.writing = some call ∧ s'.returned = s.returned := by
  have hinv := inv_of_reach h
  have hlen : s.index.users.length = s.accepted.length := by
    rw [hinv.users_eq, length_entries]
  have hnames : s.index.users.map (·.name) = s.accepted.map (·.username) := by
    rw [hinv.users_eq, names_entries]
  refine ⟨hnames ▸ hinv.names_nodup, ?_, ?_, ?_, hinv.users_eq, ?_, hinv.file_eq, ?_⟩
  · intro usr husr
    have hname : usr.name ∈ s.accepted.map (·.username) :=
      hnames ▸ List.mem_map_of_mem husr
    obtain ⟨call, hcall, heq⟩ := List.mem_map.mp hname
    rw [← heq]
    exact hinv.names_long call hcall
  · rw [hlen, hinv.users_eq]
    exact ids_entries (by omega)
  · rw [hlen, hinv.nextId_eq]
    exact UInt64.toNat_ofNat_of_lt' (by
      show _ < 2 ^ 64
      omega)
  · rw [UserIndex.passwdAll, UserIndex.shadowAll, List.map_map, List.map_map]
    rfl
  · intro call s' hstep
    obtain ⟨hfree, ⟨e, rfl⟩ | ⟨index, hindex, rfl⟩⟩ := UserService.step_addUser hstep
    · exact Or.inl ⟨e, rfl, rfl, rfl, hfree⟩
    · obtain ⟨-, -, rfl⟩ := UserIndex.addUser_eq_ok hindex
      exact Or.inr ⟨rfl, rfl, rfl⟩

end

/-! ### A run -/

/-- The only moment of `epoch`, the calendar of the examples. -/
def epochStart : epoch.DateTime := ()

/-- The index as a number; all times are the same. -/
def indexCode (index : UserIndex epoch) : ℕ :=
  Encodable.encode (index.nextId.toNat, index.users.map fun usr =>
    (usr.id.toNat, usr.name.toList.map Char.toNat, usr.passwordHash.toList.map Char.toNat))

/-- The index that a number stands for, when there is one. -/
def indexOfCode (code : ℕ) : Option (UserIndex epoch) :=
  (Encodable.decode code : Option (ℕ × List (ℕ × List ℕ × List ℕ))).map fun (nextId, users) =>
    { nextId := UInt64.ofNat nextId
      users := users.map fun (id, name, passwordHash) =>
        { id := UInt64.ofNat id, name := String.ofList (name.map Char.ofNat)
          passwordHash := String.ofList (passwordHash.map Char.ofNat)
          creationTs := epochStart, lastUpdateTs := epochStart } }

theorem ofList_map_toNat (s : String) :
    String.ofList ((s.toList.map Char.toNat).map Char.ofNat) = s := by
  rw [List.map_map]
  have hid : Char.ofNat ∘ Char.toNat = id := funext Char.ofNat_toNat
  rw [hid, List.map_id, String.ofList_toList]

theorem indexOfCode_indexCode (index : UserIndex epoch) :
    indexOfCode (indexCode index) = some index := by
  obtain ⟨nextId, users⟩ := index
  rw [indexOfCode, indexCode, Encodable.encodek]
  show some (UserIndex.mk (UInt64.ofNat nextId.toNat) (List.map _ (List.map _ users))) = _
  rw [UInt64.ofNat_toNat, List.map_map]
  have husers : ∀ usr : UserIndexEntry epoch, usr = ⟨UInt64.ofNat usr.id.toNat,
      String.ofList ((usr.name.toList.map Char.toNat).map Char.ofNat),
      String.ofList ((usr.passwordHash.toList.map Char.toNat).map Char.ofNat),
      epochStart, epochStart⟩ := by
    intro usr
    rw [UInt64.ofNat_toNat, ofList_map_toNat, ofList_map_toNat]
    rfl
  exact congrArg (fun users => some (UserIndex.mk nextId users))
    (List.map_id'' (fun usr => (husers usr).symm) users)

/-- The first user of a server, with whom the examples begin. -/
def bob : Registration epoch where
  username := "bob"
  password := "secret"
  salt := "0123456789abcdef"
  creationTs := epochStart
  lastUpdateTs := epochStart

/-- A hash of the length that SHA-512 gives. -/
def bobHash : String :=
  "8CGkKDSyVpVlVNcs5PssRw/Tb8EgfecuA6D/zsRQFumJaU.s8KgTWWc2HfgkB7h2n1qIKiJFeSyUFrwvhILXy."

/-- `sha512_crypt_b64` as far as the examples need it: its value at the password and the salt of
`bob`. -/
def bobCrypt : Sha512Crypt := fun _ _ => bobHash

/-- The index after the first user has been added. -/
def bobIndex : UserIndex epoch where
  nextId := 10001
  users := [bob.entry bobCrypt 10000]

/-- The text of `USER_INDEX` with the one user `bob`, as `serde_json` prints it. -/
def bobText : String :=
  "\x7b\n  \"next_id\": 10001,\n  \"users\": [\n    \x7b\n      \"id\": 10000,\n" ++
    "      \"name\": \"bob\",\n      \"password_hash\": \"$6$0123456789abcdef$" ++ bobHash ++
    "\",\n      \"creation_ts\": \"1970-01-01T00:00:00Z\",\n" ++
    "      \"last_update_ts\": \"1970-01-01T00:00:00Z\"\n    \x7d\n  ]\n\x7d"

/-- A serializer that writes the index with the user `bob` as `serde_json` does. -/
def bobJson : SerdeJson epoch where
  toStringPretty index :=
    if indexCode index = indexCode bobIndex then bobText
    else String.ofList (List.replicate (indexCode index) 'x' ++ ['#'])
  fromStr text :=
    if text = bobText then .ok bobIndex
    else if (utf8Bytes text).getLast? = some 35 then
      match indexOfCode ((utf8Bytes text).length - 1) with
      | some index => .ok index
      | none => .error "invalid value"
    else .error "EOF while parsing a value"

theorem utf8Bytes_code (n : ℕ) :
    utf8Bytes (String.ofList (List.replicate n 'x' ++ ['#'])) = List.replicate n 120 ++ [35] := by
  rw [utf8Bytes_ofList, List.flatMap_append]
  induction n with
  | zero => rfl
  | succ n ih =>
    rw [List.replicate_succ, List.flatMap_cons, List.append_assoc, ih]
    rfl

theorem notMem_utf8Bytes_bobText : (35 : UInt8) ∉ utf8Bytes bobText := by decide +kernel

theorem ofList_ne_bobText (n : ℕ) : String.ofList (List.replicate n 'x' ++ ['#']) ≠ bobText := by
  intro h
  have hmem : (35 : UInt8) ∈ utf8Bytes bobText := by
    rw [← h, utf8Bytes_code]
    exact List.mem_append_right _ (List.mem_singleton_self _)
  exact notMem_utf8Bytes_bobText hmem

theorem indexCode_injective {index index' : UserIndex epoch}
    (h : indexCode index = indexCode index') : index = index' := by
  have hindex := indexOfCode_indexCode index
  rw [h, indexOfCode_indexCode] at hindex
  exact (Option.some.inj hindex).symm

instance : bobJson.RoundTrips where
  fromStr_toStringPretty index := by
    unfold bobJson
    by_cases h : indexCode index = indexCode bobIndex
    · simp only [h, ↓reduceIte]
      rw [indexCode_injective h]
    · simp only [h, ↓reduceIte, ofList_ne_bobText, utf8Bytes_code, List.getLast?_concat,
        List.length_append, List.length_replicate, List.length_singleton, Nat.add_sub_cancel,
        indexOfCode_indexCode]

/-- The user `bob` is added, once and again, and the server is restarted. -/
theorem userIndex_invariant_bob : ∃ s : UserService epoch,
    (userService bobCrypt bobJson).Reach (fun _ _ => True) s ∧
    s.index.users.map (·.id.toNat) = List.range' 10000 1 ∧ s.index.nextId.toNat = 10001 ∧
    s.returned.map (·.2) =
      [.ok (), .error "User with the requested name already exists!"] := by
  obtain ⟨file, hfile⟩ : ∃ file, file = some (bobJson.fileData bobIndex) := ⟨_, rfl⟩
  obtain ⟨error, herror⟩ : ∃ error, error = "User with the requested name already exists!" :=
    ⟨_, rfl⟩
  have hread : readUserIndex bobJson file = .ok bobIndex :=
    hfile ▸ readUserIndex_fileData bobJson bobIndex
  have hpushed : (userService bobCrypt bobJson).Reach (fun _ _ => True)
      ⟨bobIndex, none, some bob, []⟩ := .step (.start rfl) (e := .addUser bob) trivial rfl
  have hwritten : (userService bobCrypt bobJson).Reach (fun _ _ => True)
      ⟨bobIndex, file, none, [(bob, .ok ())]⟩ :=
    .step hpushed (e := .written) trivial (by rw [hfile]; rfl)
  have hrefused : (userService bobCrypt bobJson).Reach (fun _ _ => True)
      ⟨bobIndex, file, none, [(bob, .ok ()), (bob, .error error)]⟩ :=
    .step hwritten (e := .addUser bob) trivial (by rw [herror]; rfl)
  have hrestarted : (userService bobCrypt bobJson).Reach (fun _ _ => True)
      ⟨bobIndex, file, none, [(bob, .ok ()), (bob, .error error)]⟩ :=
    .step hrefused (e := .restart) trivial
      (@UserService.step_restart epoch bobCrypt bobJson
        ⟨bobIndex, file, none, [(bob, .ok ()), (bob, .error error)]⟩ rfl bobIndex hread)
  obtain ⟨-, -, hids, hnext, -⟩ := userIndex_invariant hrestarted (by
    show 1 < 2 ^ 64 - 10000
    decide)
  exact ⟨_, hrestarted, hids, hnext, by rw [herror]; rfl⟩

end Server
end Lapas
