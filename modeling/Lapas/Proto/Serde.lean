import Lapas.Library.Wire
import Mathlib.Data.Int.Notation

/-!
# `ProtoSerde`

The wire format of the basic types.  `decode` is a program that reads, with the texts of
its `ProtocolError`s; an `IOError` is the end of the input.  `encode` is the list of the
writes that are made, in order.

## Main definitions

* `ProtoSerde` — `decode` and `encode`.
* `Vec` — vectors, which are shorter than `2 ^ 64`.
* `Contents` — the strings and the timestamps in a value.
* `LawfulSerde` — the two directions in which `decode` and `encode` fit together.

## Main results

The instances of `LawfulSerde`: what holds of the parts of a value holds of the value.
-/

namespace Lapas
namespace Proto

/-- The trait `ProtoSerde`: the program that decodes a value, which may fail, and the writes that
encode it, one after another. -/
class ProtoSerde (α : Type) where
  decode : Reader String α
  encode : α → List (List UInt8)

export ProtoSerde (decode encode)

/-- The bytes a value is written as. -/
def encoded {α : Type} [ProtoSerde α] (a : α) : List UInt8 := (encode a).flatten

/-! ### Words -/

/-- One byte is read as a number. -/
def readU8 : Reader String UInt8 := .word 1 UInt8.ofNat

/-- A number is written as one byte. -/
def writeU8 (x : UInt8) : List UInt8 := toBigEndian 1 x.toNat

/-- Four bytes are read as a number, the most significant one first. -/
def readU32 : Reader String UInt32 := .word 4 UInt32.ofNat

/-- A number is written as four bytes, the most significant one first. -/
def writeU32 (x : UInt32) : List UInt8 := toBigEndian 4 x.toNat

/-- Eight bytes are read as a number, the most significant one first. -/
def readU64 : Reader String UInt64 := .word 8 UInt64.ofNat

/-- A number is written as eight bytes, the most significant one first. -/
def writeU64 (x : UInt64) : List UInt8 := toBigEndian 8 x.toNat

theorem reads_readU8 {bs : List UInt8} {x : UInt8} : readU8.Reads bs x ↔ bs = writeU8 x :=
  Reader.reads_word UInt8.toNat_lt (fun _ => UInt8.ofNat_toNat) fun _ h =>
    UInt8.toNat_ofNat_of_lt' h

theorem reads_readU32 {bs : List UInt8} {x : UInt32} : readU32.Reads bs x ↔ bs = writeU32 x :=
  Reader.reads_word UInt32.toNat_lt (fun _ => UInt32.ofNat_toNat) fun _ h =>
    UInt32.toNat_ofNat_of_lt' h

theorem reads_readU64 {bs : List UInt8} {x : UInt64} : readU64.Reads bs x ↔ bs = writeU64 x :=
  Reader.reads_word UInt64.toNat_lt (fun _ => UInt64.ofNat_toNat) fun _ h =>
    UInt64.toNat_ofNat_of_lt' h

instance : ProtoSerde UInt32 where
  decode := readU32
  encode x := [writeU32 x]

instance : ProtoSerde UInt64 where
  decode := readU64
  encode x := [writeU64 x]

/-! ### Compound types -/

instance : ProtoSerde Unit where
  decode := return ()
  encode _ := []

section

variable {α β : Type} [ProtoSerde α] [ProtoSerde β]

/-- Fields in the order of their declaration. -/
instance : ProtoSerde (α × β) where
  decode := do
    let a ← decode
    let b ← decode
    return (a, b)
  encode | (a, b) => encode a ++ encode b

/-- `Result<α, β>`. -/
instance : ProtoSerde (Except β α) where
  decode := do
    let tag ← readU8
    if tag = 0 then
      let ok ← decode
      return .ok ok
    else if tag = 1 then
      let err ← decode
      return .error err
    else .fail "Error while deserializing Result<,>. Tag"
  encode
    | .ok ok => writeU8 0 :: encode ok
    | .error err => writeU8 1 :: encode err

instance : ProtoSerde (Option α) where
  decode := do
    let tag ← readU8
    if tag = 0 then return none
    else if tag = 1 then
      let val ← decode
      return some val
    else .fail "Error while deserializing Option. Invalid tag"
  encode
    | some val => writeU8 1 :: encode val
    | none => [writeU8 0]

end

/-- A vector; its length is a `usize`. -/
@[ext] structure Vec (α : Type) where
  elems : List α
  length_lt : elems.length < 2 ^ 64
  deriving DecidableEq

instance {α : Type} [ProtoSerde α] : ProtoSerde (Vec α) where
  decode := do
    let cnt ← readU64
    let result ← Reader.replicate decode cnt.toNat
    return ⟨result.1, by rw [result.2]; exact cnt.toNat_lt⟩
  encode v := writeU64 (UInt64.ofNat v.elems.length) :: v.elems.flatMap encode

/-- The bytes of a string in UTF-8, which is how all strings of the protocol are sent. -/
def utf8Bytes (s : String) : List UInt8 := s.toByteArray.data.toList

instance : ProtoSerde String where
  decode := do
    let len ← readU32
    let strBytes ← Reader.bytes len.toNat
    match String.fromUTF8? ⟨strBytes.toArray⟩ with
    | some s => return s
    | none => .fail "Error while deserializing String. Invalid encoding"
  encode s := [writeU32 (UInt32.ofNat s.utf8ByteSize), utf8Bytes s]

/-! ### Timestamps -/

/-- What the wire format uses of `chrono`. -/
structure Chrono where
  /-- `DateTime<Utc>`. -/
  DateTime : Type
  year : DateTime → ℤ
  toRfc3339 : DateTime → String
  /-- `parse_from_rfc3339`, converted to `Utc`; an error is its text. -/
  parseFromRfc3339 : String → Except String DateTime

/-- What `chrono` documents, for the years that RFC 3339 can write. -/
class Chrono.Documented (chrono : Chrono) : Prop where
  parse_toRfc3339 : ∀ ts, 0 ≤ chrono.year ts → chrono.year ts ≤ 9999 →
    chrono.parseFromRfc3339 (chrono.toRfc3339 ts) = .ok ts
  /-- The longest texts are like `2018-01-26T18:30:09.453829123+00:00`. -/
  size_toRfc3339 : ∀ ts, 0 ≤ chrono.year ts → chrono.year ts ≤ 9999 →
    (chrono.toRfc3339 ts).utf8ByteSize ≤ 35

instance (chrono : Chrono) : ProtoSerde chrono.DateTime where
  decode := do
    let text ← (decode : Reader String String)
    match chrono.parseFromRfc3339 text with
    | .ok ts => return ts
    | .error e => .fail ("Failed to parse timestamp:\n" ++ e)
  encode ts := encode (chrono.toRfc3339 ts)

/-! ### What fits on the wire -/

/-- The strings and the timestamps in a value. -/
class Contents (chrono : Chrono) (α : Type) where
  strings : α → List String
  timestamps : α → List chrono.DateTime

export Contents (strings timestamps)

section

variable (chrono : Chrono)

instance : Contents chrono UInt32 := ⟨fun _ => [], fun _ => []⟩

instance : Contents chrono UInt64 := ⟨fun _ => [], fun _ => []⟩

instance : Contents chrono Unit := ⟨fun _ => [], fun _ => []⟩

instance : Contents chrono String := ⟨fun s => [s], fun _ => []⟩

instance : Contents chrono chrono.DateTime := ⟨fun _ => [], fun ts => [ts]⟩

variable {α β : Type} [Contents chrono α] [Contents chrono β]

instance : Contents chrono (α × β) where
  strings | (a, b) => strings chrono a ++ strings chrono b
  timestamps | (a, b) => timestamps a ++ timestamps b

instance : Contents chrono (Except β α) where
  strings
    | .ok ok => strings chrono ok
    | .error err => strings chrono err
  timestamps
    | .ok ok => timestamps ok
    | .error err => timestamps err

instance : Contents chrono (Option α) where
  strings a := a.toList.flatMap (strings chrono)
  timestamps a := a.toList.flatMap timestamps

instance : Contents chrono (Vec α) where
  strings v := v.elems.flatMap (strings chrono)
  timestamps v := v.elems.flatMap timestamps

/-- The strings of the value are shorter than `2 ^ 32` bytes, and its timestamps lie in the
years 0 to 9999. -/
structure Fits (a : α) : Prop where
  strings : ∀ s ∈ strings chrono a, s.utf8ByteSize < 2 ^ 32
  timestamps : ∀ ts ∈ (timestamps a : List chrono.DateTime),
    0 ≤ chrono.year ts ∧ chrono.year ts ≤ 9999

/-- `decode` and `encode` fit together: a value that fits is decoded from its encoding, and one
without timestamps has no other encoding. -/
class LawfulSerde (α : Type) [ProtoSerde α] [Contents chrono α] : Prop where
  /-- A value that fits is read from exactly the bytes it is written as. -/
  reads_encoded : ∀ a : α, Fits chrono a → (decode : Reader String α).Reads (encoded a) a
  /-- A value without timestamps is read from no other bytes. -/
  encoded_of_reads : ∀ a : α, (timestamps a : List chrono.DateTime) = [] →
    ∀ bs, (decode : Reader String α).Reads bs a → encoded a = bs

end

export LawfulSerde (reads_encoded encoded_of_reads)

/-! ### The laws -/

section

variable {chrono : Chrono}

instance : LawfulSerde chrono UInt32 where
  reads_encoded _ _ := reads_readU32.mpr (List.append_nil _)
  encoded_of_reads _ _ _ h := (List.append_nil _).trans (reads_readU32.mp h).symm

instance : LawfulSerde chrono UInt64 where
  reads_encoded _ _ := reads_readU64.mpr (List.append_nil _)
  encoded_of_reads _ _ _ h := (List.append_nil _).trans (reads_readU64.mp h).symm

instance : LawfulSerde chrono Unit where
  reads_encoded _ _ := Reader.reads_pure.mpr ⟨rfl, rfl⟩
  encoded_of_reads _ _ _ h := (Reader.reads_pure.mp h).1.symm

theorem fromUTF8?_eq_some_iff {bs : List UInt8} {s : String} :
    String.fromUTF8? ⟨bs.toArray⟩ = some s ↔ bs = utf8Bytes s := by
  unfold String.fromUTF8?
  constructor
  · intro h
    split at h
    · cases h
      rfl
    · cases h
  · rintro rfl
    have hvalid : ByteArray.IsValidUTF8 ⟨(utf8Bytes s).toArray⟩ := s.isValidUTF8
    rw [dif_pos hvalid]
    rfl

theorem utf8Bytes_ofList (l : List Char) :
    utf8Bytes (String.ofList l) = l.flatMap String.utf8EncodeChar := by
  rw [utf8Bytes, String.toByteArray_ofList, List.utf8Encode, List.toList_data_toByteArray]

theorem length_utf8Bytes (s : String) : (utf8Bytes s).length = s.utf8ByteSize := rfl

theorem encoded_string (s : String) :
    encoded s = writeU32 (UInt32.ofNat s.utf8ByteSize) ++ utf8Bytes s := by
  show (List.flatten [_, _]) = _
  rw [List.flatten_cons, List.flatten_singleton]

instance : LawfulSerde chrono String where
  reads_encoded s h := by
    have hlen : s.utf8ByteSize < 2 ^ 32 := h.strings s (List.mem_singleton_self s)
    rw [encoded_string, ← List.append_nil (utf8Bytes s)]
    refine (reads_readU32.mpr rfl).bind ?_
    rw [UInt32.toNat_ofNat_of_lt' hlen]
    refine (Reader.reads_bytes.mpr ⟨rfl, length_utf8Bytes s⟩).bind ?_
    rw [fromUTF8?_eq_some_iff.mpr rfl]
    exact Reader.reads_pure.mpr ⟨rfl, rfl⟩
  encoded_of_reads s _ bs h := by
    obtain ⟨front, back, len, rfl, hfront, h⟩ := Reader.reads_bind.mp h
    obtain ⟨middle, back, strBytes, rfl, hmiddle, h⟩ := Reader.reads_bind.mp h
    obtain rfl := reads_readU32.mp hfront
    obtain ⟨rfl, hlen⟩ := Reader.reads_bytes.mp hmiddle
    split at h
    · next hs =>
      obtain ⟨rfl, rfl⟩ := Reader.reads_pure.mp h
      obtain rfl := fromUTF8?_eq_some_iff.mp hs
      rw [length_utf8Bytes] at hlen
      rw [encoded_string, hlen, UInt32.ofNat_toNat, List.append_nil]
    · exact absurd h Reader.reads_fail.mp

instance [chrono.Documented] : LawfulSerde chrono chrono.DateTime where
  reads_encoded ts h := by
    obtain ⟨hlow, hhigh⟩ := h.timestamps ts (List.mem_singleton_self ts)
    have hsize := Chrono.Documented.size_toRfc3339 ts hlow hhigh
    have htext : Fits chrono (chrono.toRfc3339 ts) :=
      ⟨fun s hs => by
        rw [List.mem_singleton.mp hs]
        omega, fun _ hts => absurd hts List.not_mem_nil⟩
    have hreads := reads_encoded _ htext
    rw [← List.append_nil (encoded ts)]
    refine hreads.bind ?_
    rw [Chrono.Documented.parse_toRfc3339 ts hlow hhigh]
    exact Reader.reads_pure.mpr ⟨rfl, rfl⟩
  encoded_of_reads ts h := absurd h (List.cons_ne_nil ts [])

variable {α β : Type} [ProtoSerde α] [ProtoSerde β] [Contents chrono α] [Contents chrono β]
  [LawfulSerde chrono α] [LawfulSerde chrono β]

instance : LawfulSerde chrono (α × β) where
  reads_encoded := by
    rintro ⟨a, b⟩ h
    have ha : Fits chrono a := ⟨fun s hs => h.strings s (List.mem_append_left _ hs),
      fun ts hts => h.timestamps ts (List.mem_append_left _ hts)⟩
    have hb : Fits chrono b := ⟨fun s hs => h.strings s (List.mem_append_right _ hs),
      fun ts hts => h.timestamps ts (List.mem_append_right _ hts)⟩
    have hencoded : encoded (a, b) = encoded a ++ encoded b := List.flatten_append
    rw [hencoded]
    exact (reads_encoded a ha).bind ((reads_encoded b hb).map (f := fun b => (a, b)))
  encoded_of_reads := by
    rintro ⟨a, b⟩ hnone bs h
    obtain ⟨hanone, hbnone⟩ := List.append_eq_nil_iff.mp hnone
    obtain ⟨front, back, a', rfl, hfront, h⟩ := Reader.reads_bind.mp h
    obtain ⟨middle, back, b', rfl, hmiddle, h⟩ := Reader.reads_bind.mp h
    obtain ⟨rfl, heq⟩ := Reader.reads_pure.mp h
    cases heq
    have hencoded : encoded (a, b) = encoded a ++ encoded b := List.flatten_append
    rw [hencoded, encoded_of_reads a hanone front hfront, encoded_of_reads b hbnone middle hmiddle,
      List.append_nil]

instance : LawfulSerde chrono (Except β α) where
  reads_encoded
    | .ok ok, h => by
      refine (reads_readU8.mpr rfl).bind ?_
      rw [if_pos rfl]
      exact (reads_encoded ok ⟨h.strings, h.timestamps⟩).map
    | .error err, h => by
      refine (reads_readU8.mpr rfl).bind ?_
      rw [if_neg (by decide), if_pos rfl]
      exact (reads_encoded err ⟨h.strings, h.timestamps⟩).map
  encoded_of_reads a hnone bs h := by
    obtain ⟨front, back, tag, rfl, hfront, hrest⟩ := Reader.reads_bind.mp h
    obtain rfl := reads_readU8.mp hfront
    split at hrest
    · next htag =>
      obtain ⟨middle, back, ok, rfl, hmiddle, hend⟩ := Reader.reads_bind.mp hrest
      obtain ⟨rfl, rfl⟩ := Reader.reads_pure.mp hend
      rw [htag, List.append_nil, ← encoded_of_reads ok hnone middle hmiddle]
      rfl
    · split at hrest
      · next htag =>
        obtain ⟨middle, back, err, rfl, hmiddle, hend⟩ := Reader.reads_bind.mp hrest
        obtain ⟨rfl, rfl⟩ := Reader.reads_pure.mp hend
        rw [htag, List.append_nil, ← encoded_of_reads err hnone middle hmiddle]
        rfl
      · exact absurd hrest Reader.reads_fail.mp

instance : LawfulSerde chrono (Option α) where
  reads_encoded
    | none, _ => by
      refine (reads_readU8.mpr rfl).bind ?_
      rw [if_pos rfl]
      exact Reader.reads_pure.mpr ⟨rfl, rfl⟩
    | some val, h => by
      have hval : Fits chrono val :=
        ⟨fun s hs => h.strings s (List.mem_flatMap.mpr ⟨val, List.mem_singleton_self val, hs⟩),
          fun ts hts =>
            h.timestamps ts (List.mem_flatMap.mpr ⟨val, List.mem_singleton_self val, hts⟩)⟩
      refine (reads_readU8.mpr rfl).bind ?_
      rw [if_neg (by decide), if_pos rfl]
      exact (reads_encoded val hval).map
  encoded_of_reads a hnone bs h := by
    obtain ⟨front, back, tag, rfl, hfront, hrest⟩ := Reader.reads_bind.mp h
    obtain rfl := reads_readU8.mp hfront
    split at hrest
    · next htag =>
      obtain ⟨rfl, rfl⟩ := Reader.reads_pure.mp hrest
      rw [htag]
      rfl
    · split at hrest
      · next htag =>
        obtain ⟨middle, back, val, rfl, hmiddle, hend⟩ := Reader.reads_bind.mp hrest
        obtain ⟨rfl, rfl⟩ := Reader.reads_pure.mp hend
        have hval : (timestamps val : List chrono.DateTime) = [] :=
          (List.append_nil _).symm.trans hnone
        rw [htag, List.append_nil, ← encoded_of_reads val hval middle hmiddle]
        rfl
      · exact absurd hrest Reader.reads_fail.mp

theorem encoded_vec (v : Vec α) :
    encoded v = writeU64 (UInt64.ofNat v.elems.length) ++ v.elems.flatMap encoded := by
  show (List.flatten (_ :: _)) = _
  rw [List.flatten_cons, List.flatMap_def, List.flatten_flatten, List.map_map, List.flatMap_def]
  rfl

instance : LawfulSerde chrono (Vec α) where
  reads_encoded v h := by
    obtain ⟨elems, hlen⟩ := v
    have helems : ∀ a ∈ elems, (decode : Reader String α).Reads (encoded a) a := fun a ha =>
      reads_encoded a ⟨fun s hs => h.strings s (List.mem_flatMap.mpr ⟨a, ha, hs⟩),
        fun ts hts => h.timestamps ts (List.mem_flatMap.mpr ⟨a, ha, hts⟩)⟩
    have hcnt : (UInt64.ofNat elems.length).toNat = elems.length := UInt64.toNat_ofNat_of_lt' hlen
    have hall : ∀ n (hn : n = elems.length), (Reader.replicate (decode : Reader String α) n).Reads
        (elems.flatMap encoded) ⟨elems, hn.symm⟩ := by
      rintro n rfl
      exact Reader.reads_replicate helems
    rw [encoded_vec]
    refine (reads_readU64.mpr rfl).bind ?_
    rw [← List.append_nil (elems.flatMap encoded)]
    exact (hall _ hcnt).bind (Reader.reads_pure.mpr ⟨rfl, rfl⟩)
  encoded_of_reads v hnone bs h := by
    obtain ⟨front, back, cnt, rfl, hfront, hrest⟩ := Reader.reads_bind.mp h
    obtain ⟨middle, back, result, rfl, hmiddle, hend⟩ := Reader.reads_bind.mp hrest
    obtain rfl := reads_readU64.mp hfront
    obtain ⟨rfl, rfl⟩ := Reader.reads_pure.mp hend
    have helems : ∀ a ∈ result.1, ∀ bs, (decode : Reader String α).Reads bs a → encoded a = bs :=
      fun a ha => encoded_of_reads a (List.flatMap_eq_nil_iff.mp hnone a ha)
    rw [encoded_vec, result.2, UInt64.ofNat_toNat, List.append_nil,
      Reader.bytes_of_reads_replicate helems hmiddle]

/-- A type that is written as its fields. -/
theorem LawfulSerde.of_fields {γ : Type} [ProtoSerde γ] [Contents chrono γ] (make : α → γ)
    (fields : γ → α) (hmake : ∀ c, make (fields c) = c) (hfields : ∀ a, fields (make a) = a)
    (hdecode : (decode : Reader String γ) = decode >>= fun a => pure (make a))
    (hencode : ∀ c, encode c = encode (fields c))
    (hstrings : ∀ c : γ, strings chrono c = strings chrono (fields c))
    (htimestamps : ∀ c, (timestamps c : List chrono.DateTime) = timestamps (fields c)) :
    LawfulSerde chrono γ where
  reads_encoded c h := by
    have ha : Fits chrono (fields c) := ⟨hstrings c ▸ h.strings, htimestamps c ▸ h.timestamps⟩
    have hreads := (reads_encoded (fields c) ha).map (f := make)
    rwa [hmake, ← hdecode, encoded, ← hencode] at hreads
  encoded_of_reads c hnone bs h := by
    rw [hdecode] at h
    obtain ⟨front, back, a, rfl, hfront, hback⟩ := Reader.reads_bind.mp h
    obtain ⟨rfl, rfl⟩ := Reader.reads_pure.mp hback
    rw [htimestamps, hfields] at hnone
    rw [encoded, hencode, hfields, List.append_nil]
    exact encoded_of_reads a hnone front hfront

end

end Proto
end Lapas
