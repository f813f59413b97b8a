import Lapas.Proto.Serde

/-!
# The models of the protocol

`ApiAuth`, `LapasUserPasswd` and `LapasUserShadow`, with their wire formats and the laws of
these.
-/

namespace Lapas
namespace Proto

/-- What a client shows that it may do something. -/
inductive ApiAuth
  /-- Plaintext LAPAS administration password -/
  | password (password : String)
  deriving DecidableEq

instance : ProtoSerde ApiAuth where
  decode := do
    let tag ← readU8
    if tag = 0 then
      let password ← decode
      return .password password
    else .fail "Error while deserializing ApiPassword. Invalid Tag"
  encode | .password password => writeU8 0 :: encode password

/-- The ids of users, the same 64 bits in the index, on the wire and in the lookups of the guest,
until `libnss` cuts them. -/
abbrev UserId := UInt64

/-- What everyone may know of a user: the id and the name. -/
@[ext] structure LapasUserPasswd where
  id : UserId
  name : String
  deriving DecidableEq

instance : ProtoSerde LapasUserPasswd where
  decode := do
    let id ← decode
    let name ← decode
    return { id, name }
  encode user := encode user.id ++ encode user.name

/-- What the guests need for a login: the user, the hash of the password, and when it has been
changed. -/
@[ext] structure LapasUserShadow (chrono : Chrono) where
  id : UserId
  name : String
  passwordHash : String
  lastUpdateTs : chrono.DateTime

instance (chrono : Chrono) : ProtoSerde (LapasUserShadow chrono) where
  decode := do
    let id ← decode
    let name ← decode
    let passwordHash ← decode
    let lastUpdateTs ← decode
    return { id, name, passwordHash, lastUpdateTs }
  encode user :=
    encode user.id ++ encode user.name ++ encode user.passwordHash ++ encode user.lastUpdateTs

/-! ### The laws -/

section

variable (chrono : Chrono)

instance : Contents chrono ApiAuth where
  strings | .password password => [password]
  timestamps _ := []

instance : Contents chrono LapasUserPasswd where
  strings user := [user.name]
  timestamps _ := []

instance : Contents chrono (LapasUserShadow chrono) where
  strings user := [user.name, user.passwordHash]
  timestamps user := [user.lastUpdateTs]

variable {chrono}

instance : LawfulSerde chrono ApiAuth where
  reads_encoded
    | .password password, h => by
      refine (reads_readU8.mpr rfl).bind ?_
      rw [if_pos rfl]
      exact (reads_encoded password ⟨h.strings, h.timestamps⟩).map
  encoded_of_reads auth hnone bs h := by
    obtain ⟨front, back, tag, rfl, hfront, hrest⟩ := Reader.reads_bind.mp h
    obtain rfl := reads_readU8.mp hfront
    split at hrest
    · next htag =>
      obtain ⟨middle, back, password, rfl, hmiddle, hend⟩ := Reader.reads_bind.mp hrest
      obtain ⟨rfl, rfl⟩ := Reader.reads_pure.mp hend
      have hpassword : encoded password = middle :=
        @encoded_of_reads chrono _ _ _ _ password rfl middle hmiddle
      rw [htag, List.append_nil, ← hpassword]
      rfl
    · exact absurd hrest Reader.reads_fail.mp

instance : LawfulSerde chrono LapasUserPasswd :=
  LawfulSerde.of_fields (fun fields : UserId × String => ⟨fields.1, fields.2⟩)
    (fun user => (user.id, user.name)) (fun _ => rfl) (fun _ => rfl) (by simp [decode])
    (fun _ => rfl) (fun _ => rfl) fun _ => rfl

instance [chrono.Documented] : LawfulSerde chrono (LapasUserShadow chrono) :=
  LawfulSerde.of_fields
    (fun fields : UserId × String × String × chrono.DateTime =>
      ⟨fields.1, fields.2.1, fields.2.2.1, fields.2.2.2⟩)
    (fun user => (user.id, user.name, user.passwordHash, user.lastUpdateTs))
    (fun _ => rfl) (fun _ => rfl) (by simp [decode]) (fun _ => by simp [encode]) (fun _ => rfl)
    fun _ => rfl

end

end Proto
end Lapas
