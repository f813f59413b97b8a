import Lapas.Proto.Models

/-!
# `LapasProtocol`

The macro `define_protocol!` makes one enumeration of a list of packets, with a decoder and
an encoder that count the packets independently of each other.  Here the macro is a pair of
functions on a list of `Packet`s, and `LapasProtocol` has the list that `lib.rs` gives it.

## Main definitions

* `Packet` — what the macro is given for a packet.
* `decodePacket`, `encodePacket` — what it makes of a list of them.
* `LapasProtocol`, `packets` — the protocol.

## Main results

* `encodePacket_of_mem`, `exists_packet_of_reads` — the two counters agree.
* `codec` — decoding undoes encoding, on any input that starts with a packet and on no part
  of one, and what has been decoded is encoded to the same bytes.
-/

namespace Lapas
namespace Proto

/-! ### `define_protocol!` -/

/-- A packet of an enumeration `P`: its fields, and its variant of `P`. -/
structure Packet (P : Type) where
  Fields : Type
  [serde : ProtoSerde Fields]
  make : Fields → P
  /-- `if let`, on the variant. -/
  fields? : P → Option Fields
  fields?_eq : ∀ v fields, fields? v = some fields ↔ v = make fields

attribute [instance] Packet.serde

section

variable {P : Type}

/-- The arms of the decoder from the `pktTag`-th on. -/
def decodePacket (tag : UInt32) : ℕ → List (Packet P) → Reader String P
  | _, [] => .fail "Unknown Packet received"
  | pktTag, packet :: packets =>
    if tag.toNat = pktTag then do
      let fields ← decode
      return packet.make fields
    else decodePacket tag (pktTag + 1) packets

/-- The arms of the encoder from the `pktTag`-th on. -/
def encodePacket (v : P) : ℕ → List (Packet P) → List (List UInt8)
  | _, [] => []
  | pktTag, packet :: packets =>
    match packet.fields? v with
    | some fields => writeU32 (UInt32.ofNat pktTag) :: encode fields
    | none => encodePacket v (pktTag + 1) packets

/-- No two packets make the same value. -/
def DisjointPackets (packets : List (Packet P)) : Prop :=
  packets.Pairwise fun packet packet' => ∀ fields fields', packet.make fields ≠ packet'.make fields'

theorem Packet.fields?_make (packet : Packet P) (fields : packet.Fields) :
    packet.fields? (packet.make fields) = some fields := (packet.fields?_eq _ _).mpr rfl

theorem Packet.fields?_make_of_ne (packet : Packet P) {packet' : Packet P}
    (h : ∀ fields fields', packet.make fields ≠ packet'.make fields') (fields' : packet'.Fields) :
    packet.fields? (packet'.make fields') = none := by
  rw [Option.eq_none_iff_forall_not_mem]
  intro fields hfields
  exact h fields fields' ((packet.fields?_eq _ _).mp hfields).symm

/-- The tag with which a packet is written selects its arm of the decoder. -/
theorem encodePacket_of_mem {packets : List (Packet P)} (hdisjoint : DisjointPackets packets)
    {packet : Packet P} (hmem : packet ∈ packets) (fields : packet.Fields) {pktTag : ℕ}
    (hlen : pktTag + packets.length ≤ 2 ^ 32) :
    ∃ tag : UInt32, pktTag ≤ tag.toNat ∧
      encodePacket (packet.make fields) pktTag packets = writeU32 tag :: encode fields ∧
      decodePacket tag pktTag packets = decode >>= fun fields => pure (packet.make fields) := by
  induction packets generalizing pktTag with
  | nil => cases hmem
  | cons first packets ih =>
    rw [List.length_cons] at hlen
    obtain ⟨hfirst, hrest⟩ := List.pairwise_cons.mp hdisjoint
    rcases List.mem_cons.mp hmem with rfl | hmem
    · have hlt : pktTag < 2 ^ 32 := by omega
      have htag : (UInt32.ofNat pktTag).toNat = pktTag := UInt32.toNat_ofNat_of_lt' hlt
      refine ⟨UInt32.ofNat pktTag, Nat.le_of_eq htag.symm, ?_, ?_⟩
      · rw [encodePacket, Packet.fields?_make]
      · rw [decodePacket, if_pos htag]
    · have hlen' : (pktTag + 1) + packets.length ≤ 2 ^ 32 := by omega
      obtain ⟨tag, hle, hencode, hdecode⟩ := ih hrest hmem hlen'
      have hnone := first.fields?_make_of_ne (hfirst packet hmem) fields
      refine ⟨tag, by omega, ?_, ?_⟩
      · rw [encodePacket, hnone, hencode]
      · rw [decodePacket, if_neg (by omega), hdecode]

/-- What the decoder returns, one of the packets has made, and it is written with the tag
that has been read. -/
theorem exists_packet_of_reads {packets : List (Packet P)} (hdisjoint : DisjointPackets packets)
    {tag : UInt32} {pktTag : ℕ} {bs : List UInt8} {v : P}
    (h : (decodePacket tag pktTag packets).Reads bs v) :
    ∃ packet ∈ packets, ∃ fields, v = packet.make fields ∧
      (decode : Reader String packet.Fields).Reads bs fields ∧
      encodePacket v pktTag packets = writeU32 tag :: encode fields := by
  induction packets generalizing pktTag with
  | nil => exact absurd h Reader.reads_fail.mp
  | cons first packets ih =>
    obtain ⟨hfirst, hrest⟩ := List.pairwise_cons.mp hdisjoint
    rw [decodePacket] at h
    split at h
    · next htag =>
      obtain ⟨front, back, fields, rfl, hfront, hback⟩ := Reader.reads_bind.mp h
      obtain ⟨rfl, rfl⟩ := Reader.reads_pure.mp hback
      refine ⟨first, List.mem_cons_self, fields, rfl, by rwa [List.append_nil], ?_⟩
      rw [encodePacket, Packet.fields?_make, ← htag, UInt32.ofNat_toNat]
    · obtain ⟨packet, hmem, fields, rfl, hreads, hencode⟩ := ih hrest h
      have hnone := first.fields?_make_of_ne (hfirst packet hmem) fields
      refine ⟨packet, List.mem_cons_of_mem _ hmem, fields, rfl, hreads, ?_⟩
      rw [encodePacket, hnone, hencode]

end

/-! ### The protocol -/

/-- Versions of the protocol, which a handshake compares. -/
abbrev Version := UInt32

/-- The version of the protocol that this server and its clients speak. -/
def version : Version := 6

/-- The packets of the protocol.  A request is answered by the response of the same name, unless
the server ends the session; pings and notifications have no answer. -/
inductive LapasProtocol (chrono : Chrono) where
  /-- Version comparison with server -/
  | controlHandshake (version : Version)
  | controlHandshakeResponse (result : Except String Unit)
  /-- For long-running connections, this is used to notice early on when the tcp
  connection crashed (doesn't have a response, both client and server send this regularly) -/
  | controlPing
  /-- Register for server notifications -/
  | controlListenEvents
  /-- Ask server to test the supplied authentication -/
  | controlCheckAuth (auth : ApiAuth)
  | controlCheckAuthResponse (result : Except String Unit)
  /-- Register a new user -/
  | userRegister (auth : ApiAuth) (newUsername newPassword : String)
  | userRegisterResponse (result : Except String Unit)
  /-- Tell the server that he should now create a dns mapping for the given user -/
  | userDnsMapping (auth : ApiAuth) (username : String)
  | userDnsMappingResponse (result : Except String Unit)
  | passwdGetList
  | passwdGetListResponse (result : Except String (Vec LapasUserPasswd))
  | shadowGetList (auth : ApiAuth)
  | shadowGetListResponse (result : Except String (Vec (LapasUserShadow chrono)))
  | notifyRootChanged
  | notifyDnsMappingsChanged
  /-- The list of registered users has changed -/
  | notifyUsersChanged

namespace LapasProtocol

variable (chrono : Chrono)

/-- A packet of `LapasProtocol`, with the values that are not of its variant. -/
abbrev PacketOf := Packet (LapasProtocol chrono)

/-- The packet with which a client opens a connection, as a kind: it has the version as its only
field. -/
abbrev ControlHandshake : PacketOf chrono where
  Fields := Version
  make version := .controlHandshake version
  fields? | .controlHandshake version => some version | _ => none
  fields?_eq v fields := by cases v <;> simp

/-- The answer to a handshake, which says whether the versions are the same. -/
abbrev ControlHandshakeResponse : PacketOf chrono where
  Fields := Except String Unit
  make result := .controlHandshakeResponse result
  fields? | .controlHandshakeResponse result => some result | _ => none
  fields?_eq v fields := by cases v <;> simp

/-- The ping, which has no fields and no answer. -/
abbrev ControlPing : PacketOf chrono where
  Fields := Unit
  make _ := .controlPing
  fields? | .controlPing => some () | _ => none
  fields?_eq v fields := by cases v <;> simp

/-- The packet with which a client asks for the notifications. -/
abbrev ControlListenEvents : PacketOf chrono where
  Fields := Unit
  make _ := .controlListenEvents
  fields? | .controlListenEvents => some () | _ => none
  fields?_eq v fields := by cases v <;> simp

/-- The packet with which a client has a password checked. -/
abbrev ControlCheckAuth : PacketOf chrono where
  Fields := ApiAuth
  make auth := .controlCheckAuth auth
  fields? | .controlCheckAuth auth => some auth | _ => none
  fields?_eq v fields := by cases v <;> simp

/-- The answer to a check of a password. -/
abbrev ControlCheckAuthResponse : PacketOf chrono where
  Fields := Except String Unit
  make result := .controlCheckAuthResponse result
  fields? | .controlCheckAuthResponse result => some result | _ => none
  fields?_eq v fields := by cases v <;> simp

/-- The packet that registers a user, with the password of an administrator and the name and the
password of the user. -/
abbrev UserRegister : PacketOf chrono where
  Fields := ApiAuth × String × String
  make | (auth, newUsername, newPassword) => .userRegister auth newUsername newPassword
  fields?
    | .userRegister auth newUsername newPassword => some (auth, newUsername, newPassword)
    | _ => none
  fields?_eq v fields := by cases v <;> simp [Prod.ext_iff]

/-- The answer to a registration, with the error of the server when there is one. -/
abbrev UserRegisterResponse : PacketOf chrono where
  Fields := Except String Unit
  make result := .userRegisterResponse result
  fields? | .userRegisterResponse result => some result | _ => none
  fields?_eq v fields := by cases v <;> simp

/-- The packet that maps the name of a user to the address of the client that sends it. -/
abbrev UserDnsMapping : PacketOf chrono where
  Fields := ApiAuth × String
  make | (auth, username) => .userDnsMapping auth username
  fields? | .userDnsMapping auth username => some (auth, username) | _ => none
  fields?_eq v fields := by cases v <;> simp [Prod.ext_iff]

/-- The answer to a mapping, with the error of the server when there is one. -/
abbrev UserDnsMappingResponse : PacketOf chrono where
  Fields := Except String Unit
  make result := .userDnsMappingResponse result
  fields? | .userDnsMappingResponse result => some result | _ => none
  fields?_eq v fields := by cases v <;> simp

/-- The packet that asks for the names and ids of all users; no password is needed. -/
abbrev PasswdGetList : PacketOf chrono where
  Fields := Unit
  make _ := .passwdGetList
  fields? | .passwdGetList => some () | _ => none
  fields?_eq v fields := by cases v <;> simp

/-- The answer with the names and ids of all users. -/
abbrev PasswdGetListResponse : PacketOf chrono where
  Fields := Except String (Vec LapasUserPasswd)
  make result := .passwdGetListResponse result
  fields? | .passwdGetListResponse result => some result | _ => none
  fields?_eq v fields := by cases v <;> simp

/-- The packet that asks for the hashes of all users, with the password of an administrator. -/
abbrev ShadowGetList : PacketOf chrono where
  Fields := ApiAuth
  make auth := .shadowGetList auth
  fields? | .shadowGetList auth => some auth | _ => none
  fields?_eq v fields := by cases v <;> simp

/-- The answer with the names, ids and hashes of all users. -/
abbrev ShadowGetListResponse : PacketOf chrono where
  Fields := Except String (Vec (LapasUserShadow chrono))
  make result := .shadowGetListResponse result
  fields? | .shadowGetListResponse result => some result | _ => none
  fields?_eq v fields := by cases v <;> simp

/-- The notification that the file system of the guests has changed. -/
abbrev NotifyRootChanged : PacketOf chrono where
  Fields := Unit
  make _ := .notifyRootChanged
  fields? | .notifyRootChanged => some () | _ => none
  fields?_eq v fields := by cases v <;> simp

/-- The notification that a mapping of a name to an address has been written. -/
abbrev NotifyDnsMappingsChanged : PacketOf chrono where
  Fields := Unit
  make _ := .notifyDnsMappingsChanged
  fields? | .notifyDnsMappingsChanged => some () | _ => none
  fields?_eq v fields := by cases v <;> simp

/-- The notification that a user has been registered. -/
abbrev NotifyUsersChanged : PacketOf chrono where
  Fields := Unit
  make _ := .notifyUsersChanged
  fields? | .notifyUsersChanged => some () | _ => none
  fields?_eq v fields := by cases v <;> simp

/-- The packets in the order of `lib.rs`. -/
def packets : List (PacketOf chrono) :=
  [ControlHandshake chrono, ControlHandshakeResponse chrono, ControlPing chrono,
    ControlListenEvents chrono, ControlCheckAuth chrono, ControlCheckAuthResponse chrono,
    UserRegister chrono, UserRegisterResponse chrono, UserDnsMapping chrono,
    UserDnsMappingResponse chrono, PasswdGetList chrono, PasswdGetListResponse chrono,
    ShadowGetList chrono, ShadowGetListResponse chrono, NotifyRootChanged chrono,
    NotifyDnsMappingsChanged chrono, NotifyUsersChanged chrono]

theorem disjointPackets : DisjointPackets (packets chrono) := by
  unfold DisjointPackets packets
  simp [ControlHandshake, ControlHandshakeResponse, ControlPing, ControlListenEvents,
    ControlCheckAuth, ControlCheckAuthResponse, UserRegister, UserRegisterResponse,
    UserDnsMapping, UserDnsMappingResponse, PasswdGetList, PasswdGetListResponse, ShadowGetList,
    ShadowGetListResponse, NotifyRootChanged, NotifyDnsMappingsChanged, NotifyUsersChanged]

instance : ProtoSerde (LapasProtocol chrono) where
  decode := do
    let tag ← readU32
    decodePacket tag 0 (packets chrono)
  encode v := encodePacket v 0 (packets chrono)

instance : Contents chrono (LapasProtocol chrono) where
  strings
    | .controlCheckAuth auth | .shadowGetList auth => strings chrono auth
    | .userRegister auth newUsername newPassword =>
      strings chrono auth ++ [newUsername, newPassword]
    | .userDnsMapping auth username => strings chrono auth ++ [username]
    | .controlHandshakeResponse result | .controlCheckAuthResponse result
    | .userRegisterResponse result | .userDnsMappingResponse result => strings chrono result
    | .passwdGetListResponse result => strings chrono result
    | .shadowGetListResponse result => strings chrono result
    | .controlHandshake _ | .controlPing | .controlListenEvents | .passwdGetList
    | .notifyRootChanged | .notifyDnsMappingsChanged | .notifyUsersChanged => []
  timestamps
    | .controlHandshakeResponse result | .controlCheckAuthResponse result
    | .userRegisterResponse result | .userDnsMappingResponse result => timestamps result
    | .passwdGetListResponse result => timestamps result
    | .shadowGetListResponse result => timestamps result
    | .controlHandshake _ | .controlPing | .controlListenEvents | .controlCheckAuth _
    | .userRegister _ _ _ | .userDnsMapping _ _ | .passwdGetList | .shadowGetList _
    | .notifyRootChanged | .notifyDnsMappingsChanged | .notifyUsersChanged => []

/-- Every value is made by one of the packets. -/
theorem exists_packet (v : LapasProtocol chrono) :
    ∃ packet ∈ packets chrono, ∃ fields, v = packet.make fields := by
  cases v with
  | controlHandshake version => exact ⟨ControlHandshake chrono, by simp [packets], version, rfl⟩
  | controlHandshakeResponse result =>
    exact ⟨ControlHandshakeResponse chrono, by simp [packets], result, rfl⟩
  | controlPing => exact ⟨ControlPing chrono, by simp [packets], (), rfl⟩
  | controlListenEvents => exact ⟨ControlListenEvents chrono, by simp [packets], (), rfl⟩
  | controlCheckAuth auth => exact ⟨ControlCheckAuth chrono, by simp [packets], auth, rfl⟩
  | controlCheckAuthResponse result =>
    exact ⟨ControlCheckAuthResponse chrono, by simp [packets], result, rfl⟩
  | userRegister auth newUsername newPassword =>
    exact ⟨UserRegister chrono, by simp [packets], (auth, newUsername, newPassword), rfl⟩
  | userRegisterResponse result =>
    exact ⟨UserRegisterResponse chrono, by simp [packets], result, rfl⟩
  | userDnsMapping auth username =>
    exact ⟨UserDnsMapping chrono, by simp [packets], (auth, username), rfl⟩
  | userDnsMappingResponse result =>
    exact ⟨UserDnsMappingResponse chrono, by simp [packets], result, rfl⟩
  | passwdGetList => exact ⟨PasswdGetList chrono, by simp [packets], (), rfl⟩
  | passwdGetListResponse result =>
    exact ⟨PasswdGetListResponse chrono, by simp [packets], result, rfl⟩
  | shadowGetList auth => exact ⟨ShadowGetList chrono, by simp [packets], auth, rfl⟩
  | shadowGetListResponse result =>
    exact ⟨ShadowGetListResponse chrono, by simp [packets], result, rfl⟩
  | notifyRootChanged => exact ⟨NotifyRootChanged chrono, by simp [packets], (), rfl⟩
  | notifyDnsMappingsChanged =>
    exact ⟨NotifyDnsMappingsChanged chrono, by simp [packets], (), rfl⟩
  | notifyUsersChanged => exact ⟨NotifyUsersChanged chrono, by simp [packets], (), rfl⟩

variable {chrono}

/-- The fields of the packet are read as they are written. -/
structure Lawful (packet : PacketOf chrono) : Prop where
  reads_encoded : ∀ fields, Fits chrono (packet.make fields) →
    (decode : Reader String packet.Fields).Reads (encoded fields) fields
  encoded_of_reads : ∀ fields, (timestamps (packet.make fields) : List chrono.DateTime) = [] →
    ∀ bs, (decode : Reader String packet.Fields).Reads bs fields → encoded fields = bs

/-- A packet has the strings and the timestamps of its fields. -/
theorem Lawful.of_contents (packet : PacketOf chrono) [Contents chrono packet.Fields]
    [LawfulSerde chrono packet.Fields]
    (hstrings : ∀ fields, strings chrono (packet.make fields) = strings chrono fields)
    (htimestamps : ∀ fields,
      (timestamps (packet.make fields) : List chrono.DateTime) = timestamps fields) :
    Lawful packet where
  reads_encoded fields h :=
    Proto.reads_encoded fields ⟨hstrings fields ▸ h.strings, htimestamps fields ▸ h.timestamps⟩
  encoded_of_reads fields hnone :=
    Proto.encoded_of_reads fields (htimestamps fields ▸ hnone)

theorem lawful_of_mem [chrono.Documented] : ∀ packet ∈ packets chrono, Lawful packet := by
  simp only [packets, List.forall_mem_cons]
  exact ⟨.of_contents (ControlHandshake chrono) (fun _ => rfl) fun _ => rfl,
    .of_contents (ControlHandshakeResponse chrono) (fun _ => rfl) fun _ => rfl,
    .of_contents (ControlPing chrono) (fun _ => rfl) fun _ => rfl,
    .of_contents (ControlListenEvents chrono) (fun _ => rfl) fun _ => rfl,
    .of_contents (ControlCheckAuth chrono) (fun _ => rfl) fun _ => rfl,
    .of_contents (ControlCheckAuthResponse chrono) (fun _ => rfl) fun _ => rfl,
    .of_contents (UserRegister chrono) (fun _ => rfl) fun _ => rfl,
    .of_contents (UserRegisterResponse chrono) (fun _ => rfl) fun _ => rfl,
    .of_contents (UserDnsMapping chrono) (fun _ => rfl) fun _ => rfl,
    .of_contents (UserDnsMappingResponse chrono) (fun _ => rfl) fun _ => rfl,
    .of_contents (PasswdGetList chrono) (fun _ => rfl) fun _ => rfl,
    .of_contents (PasswdGetListResponse chrono) (fun _ => rfl) fun _ => rfl,
    .of_contents (ShadowGetList chrono) (fun _ => rfl) fun _ => rfl,
    .of_contents (ShadowGetListResponse chrono) (fun _ => rfl) fun _ => rfl,
    .of_contents (NotifyRootChanged chrono) (fun _ => rfl) fun _ => rfl,
    .of_contents (NotifyDnsMappingsChanged chrono) (fun _ => rfl) fun _ => rfl,
    .of_contents (NotifyUsersChanged chrono) (fun _ => rfl) fun _ => rfl,
    fun _ h => absurd h List.not_mem_nil⟩

instance [chrono.Documented] : LawfulSerde chrono (LapasProtocol chrono) where
  reads_encoded v h := by
    obtain ⟨packet, hmem, fields, rfl⟩ := exists_packet chrono v
    have hlen : 0 + (packets chrono).length ≤ 2 ^ 32 := by
      rw [Nat.zero_add]
      exact Nat.le_of_lt (by decide : 17 < 2 ^ 32)
    obtain ⟨tag, -, hencode, hdecode⟩ :=
      encodePacket_of_mem (disjointPackets chrono) hmem fields hlen
    have hencoded : encoded (packet.make fields) = writeU32 tag ++ encoded fields := by
      show (encodePacket _ 0 _).flatten = _
      rw [hencode, List.flatten_cons]
      rfl
    rw [hencoded]
    refine (reads_readU32.mpr rfl).bind ?_
    rw [hdecode]
    exact ((lawful_of_mem packet hmem).reads_encoded fields h).map
  encoded_of_reads v hnone bs h := by
    obtain ⟨front, back, tag, rfl, hfront, hback⟩ := Reader.reads_bind.mp h
    obtain rfl := reads_readU32.mp hfront
    obtain ⟨packet, hmem, fields, rfl, hreads, hencode⟩ :=
      exists_packet_of_reads (disjointPackets chrono) hback
    have hfields := (lawful_of_mem packet hmem).encoded_of_reads fields hnone back hreads
    show (encodePacket _ 0 _).flatten = _
    rw [hencode, List.flatten_cons, ← hfields]
    rfl

end LapasProtocol

/-! ### The codec -/

/-- **The codec.**  A packet that fits is read from its encoding, whatever follows, and from
no part of it; and a packet without timestamps that has been read was encoded. -/
theorem codec (chrono : Chrono) [chrono.Documented] :
    (∀ v : LapasProtocol chrono, Fits chrono v → ∀ rest,
      (decode : Reader String (LapasProtocol chrono)).run (encoded v ++ rest) = .ok (v, rest)) ∧
    (∀ v : LapasProtocol chrono, Fits chrono v → ∀ part, part <+: encoded v → part ≠ encoded v →
      ∃ e, (decode : Reader String (LapasProtocol chrono)).run part = .error e) ∧
    ∀ w : LapasProtocol chrono, (timestamps w : List chrono.DateTime) = [] → ∀ bs rest,
      (decode : Reader String (LapasProtocol chrono)).run (bs ++ rest) = .ok (w, rest) →
        encoded w = bs := by
  refine ⟨fun v h rest => ?_, fun v h part hpart hne => ?_, fun w hnone bs rest h => ?_⟩
  · exact Reader.run_append_of_reads (reads_encoded v h) rest
  · exact Reader.run_prefix_of_reads (reads_encoded v h) hpart hne
  · obtain ⟨taken, heq, hreads⟩ := Reader.run_eq_ok_iff.mp h
    rw [List.append_cancel_right heq]
    exact encoded_of_reads w hnone taken hreads

/-- A calendar of a single moment. -/
def epoch : Chrono where
  DateTime := Unit
  year _ := 1970
  toRfc3339 _ := "1970-01-01T00:00:00+00:00"
  parseFromRfc3339 text :=
    if text = "1970-01-01T00:00:00+00:00" then .ok ()
    else .error "input contains invalid characters"

instance : epoch.Documented where
  parse_toRfc3339 _ _ _ := rfl
  size_toRfc3339 _ _ _ := Nat.le_of_lt (by decide : 25 < 35)

/-- A list of one user, a part of its tag, and the handshake of the current version. -/
theorem codec_epoch :
    let user : LapasUserShadow epoch := ⟨10000, "bob", "5e1f", ()⟩
    let v : LapasProtocol epoch := .shadowGetListResponse (.ok ⟨[user], by decide⟩)
    (decode : Reader String (LapasProtocol epoch)).run (encoded v ++ [1, 2]) = .ok (v, [1, 2]) ∧
    (∃ e, (decode : Reader String (LapasProtocol epoch)).run [0, 0, 0] = .error e) ∧
    encoded (.controlHandshake version : LapasProtocol epoch) = [0, 0, 0, 0, 0, 0, 0, 6] := by
  intro user v
  have hstrings : ∀ s ∈ ["bob", "5e1f"], s.utf8ByteSize < 2 ^ 32 := by decide
  have hyear : (0 : ℤ) ≤ 1970 ∧ (1970 : ℤ) ≤ 9999 := by decide
  refine ⟨(codec epoch).1 v ⟨hstrings, fun _ _ => hyear⟩ [1, 2],
    (codec epoch).2.1 (.controlHandshake version) ⟨by simp [strings], by simp [timestamps]⟩ _
      ⟨[0, 0, 0, 0, 6], rfl⟩ (by decide),
    (codec epoch).2.2 (.controlHandshake version) rfl _ [] rfl⟩

end Proto
end Lapas
