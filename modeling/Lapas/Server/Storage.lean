import Lapas.Server.UserService

/-!
# Writing the index file

`write_user_index` truncates the file and hands its bytes to a `tokio` file, which writes
them in the background: `write_all` waits for a write only to start the next one, and the
file is dropped without a `flush`.  The process may stop at any point, and any operation
may fail.

## Main definitions

* `TokioFile` — an open file, and the bytes that have not reached the disk.
* `Storage`, `storage` — the user service with all steps of `write_user_index`.
* `Settled`, `Successful`, `Within` — which steps a run may have.
* `Touched`, `Ahead` — a disk in the middle of a write.

## Main results

* `Ahead.land`, `Ahead.write` — what is in the file stays in front of what is not.
* `Touched.loads` — the beginning of an index loads all of it, or nothing.
-/

namespace Lapas
namespace Server

open Proto

variable {chrono : Chrono}

/-! ### The steps of `write_user_index` -/

/-- Text that has been written in part is not read. -/
class SerdeJson.RejectsTruncated (serde : SerdeJson chrono) : Prop where
  fromStr_truncated : ∀ index text, utf8Bytes text <+: serde.fileData index →
    utf8Bytes text ≠ serde.fileData index → ∃ e, serde.fromStr text = .error e

/-- An open `tokio::fs::File`, which writes in the background: a write returns before its bytes are
in the file. -/
structure TokioFile where
  /-- Where the next byte goes. -/
  offset : ℕ
  /-- The bytes that are being written in the background. -/
  buffered : List UInt8
  /-- The error of a write in the background, for the next write to report. -/
  writeErr : Option String

/-- A file that has just been opened, with nothing on its way to the disk. -/
def TokioFile.new : TokioFile := ⟨0, [], none⟩

/-- What is left to be done with the file. -/
inductive Writing
  | create
  | writeAll (unwritten : List UInt8)
  | metadata
  | setPermissions

/-- The service of the users with the disk under it, which the writes of the index reach late and in
pieces. -/
structure Storage (chrono : Chrono) where
  index : UserIndex chrono
  /-- The bytes of `USER_INDEX`. -/
  disk : Option (List UInt8)
  /-- The call that holds the lock, its user pushed. -/
  writing : Option (Registration chrono × Writing)
  /-- The files that have been opened, the latest first. -/
  files : List TokioFile
  /-- The calls that have returned, and what. -/
  returned : List (Registration chrono × Except String Unit)

/-- The steps of the service: those of a call of `add_user`, those of the files it has written to,
and a restart at any moment. -/
inductive Storage.Event (chrono : Chrono)
  | addUser (call : Registration chrono)
  | create (result : Except String Unit)
  /-- `write_all` is polled; the file takes at most `n` bytes. -/
  | write (n : ℕ)
  | metadata (result : Except String Unit)
  | setPermissions (result : Except String Unit)
  /-- At most `n` bytes of a file reach the disk. -/
  | land (i n : ℕ)
  /-- A write in the background fails. -/
  | lost (i : ℕ) (e : String)
  /-- The process stops, and is started again. -/
  | restart

/-- The bytes of a file after a write. -/
def writeAt (offset : ℕ) (new bytes : List UInt8) : List UInt8 :=
  bytes.take offset ++ List.replicate (offset - bytes.length) 0 ++ new ++
    bytes.drop (offset + new.length)

/-- The next bytes of the file have reached the disk. -/
def TokioFile.land (file : TokioFile) (n : ℕ) : TokioFile :=
  { file with
    offset := file.offset + (file.buffered.take n).length, buffered := file.buffered.drop n }

/-- A write in the background has failed; the next operation on the file returns the error. -/
def TokioFile.lost (file : TokioFile) (e : String) : TokioFile :=
  { file with buffered := [], writeErr := some e }

/-- `add_user` returns: the lock on the index is free again, and the call is recorded with its
result. -/
def Storage.finish (s : Storage chrono) (call : Registration chrono)
    (result : Except String Unit) : Storage chrono :=
  { s with writing := none, returned := s.returned ++ [(call, result)] }

section

variable (sha512Crypt : Sha512Crypt) (serde : SerdeJson chrono)

/-- One step.  A call goes through its stages in their order, and a restart forgets all that has not
reached the disk. -/
def Storage.step (s : Storage chrono) : Storage.Event chrono → Option (Storage chrono)
  | .addUser call =>
    match s.writing with
    | some _ => none
    | none =>
      match s.index.addUser sha512Crypt call with
      | .error e => some (s.finish call (.error e))
      | .ok index => some { s with index, writing := some (call, .create) }
  | .create result =>
    match s.writing with
    | some (call, .create) =>
      match result with
      | .ok () =>
        some { s with
          disk := some [], files := .new :: s.files
          writing := some (call, .writeAll (serde.fileData s.index)) }
      | .error e => some (s.finish call (.error e))
    | _ => none
  | .write n =>
    match s.writing, s.files with
    | some (call, .writeAll unwritten), file :: files =>
      if unwritten = [] then some { s with writing := some (call, .metadata) }
      -- the write before must have ended
      else if file.buffered ≠ [] ∨ n = 0 then none
      else match file.writeErr with
        | some e => some (s.finish call (.error e))
        | none => some { s with
            writing := some (call, .writeAll (unwritten.drop n))
            files := { file with buffered := unwritten.take n } :: files }
    | _, _ => none
  | .metadata result =>
    match s.writing with
    | some (call, .metadata) =>
      match result with
      | .ok () => some { s with writing := some (call, .setPermissions) }
      | .error e => some (s.finish call (.error e))
    | _ => none
  | .setPermissions result =>
    match s.writing with
    | some (call, .setPermissions) => some (s.finish call result)
    | _ => none
  | .land i n =>
    match s.files[i]? with
    | some file =>
      if file.buffered = [] then none
      else some { s with
        disk := s.disk.map (writeAt file.offset (file.buffered.take n))
        files := s.files.set i (file.land n) }
    | none => none
  | .lost i e =>
    match s.files[i]? with
    | some file =>
      if file.buffered = [] then none else some { s with files := s.files.set i (file.lost e) }
    | none => none
  | .restart =>
    match readUserIndex serde s.disk with
    | .ok index => some { s with index, writing := none, files := [] }
    | .error _ => none

/-- The service of a server that is started without an index file. -/
def storage : Machine (Storage chrono) (Storage.Event chrono) where
  start s := s = ⟨.default, none, none, [], []⟩
  step := Storage.step sha512Crypt serde

/-- The service from a given state on, so that a run can be cut at the call that is looked at. -/
def storageFrom (s : Storage chrono) : Machine (Storage chrono) (Storage.Event chrono) where
  start := (· = s)
  step := Storage.step sha512Crypt serde

end

/-- Nothing is on its way to the disk. -/
def Storage.AtRest (s : Storage chrono) : Prop := ∀ file ∈ s.files, file.buffered = []

/-- A call starts when the bytes of the calls before it have reached the disk, or are lost. -/
def Settled (s : Storage chrono) (e : Storage.Event chrono) : Prop :=
  ∀ call, e = .addUser call → s.AtRest

/-- No operation fails, and the server is restarted when the last call is done. -/
def Successful (s : Storage chrono) : Storage.Event chrono → Prop
  | .addUser _ => s.AtRest
  | .create result | .metadata result | .setPermissions result => result = .ok ()
  | .lost _ _ => False
  | .restart => s.writing = none ∧ s.AtRest
  | .write _ | .land _ _ => True

/-- The steps of a call after its user is pushed, and of the files that it leaves. -/
def Within : Storage chrono → Storage.Event chrono → Prop
  | _, .addUser _ | _, .restart => False
  | _, _ => True

/-! ### One step -/

section

variable {sha512Crypt : Sha512Crypt} {serde : SerdeJson chrono} {s s' : Storage chrono}

theorem Storage.step_addUser {call : Registration chrono}
    (h : s.step sha512Crypt serde (.addUser call) = some s') :
    s.writing = none ∧
      ((∃ e, s.index.addUser sha512Crypt call = .error e ∧ s' = s.finish call (.error e)) ∨
        ∃ index, s.index.addUser sha512Crypt call = .ok index ∧
          s' = { s with index, writing := some (call, .create) }) := by
  rw [step] at h
  split at h
  · cases h
  · next hfree =>
    refine ⟨hfree, ?_⟩
    split at h
    · next e he =>
      cases h
      exact Or.inl ⟨e, he, rfl⟩
    · next index hindex =>
      cases h
      exact Or.inr ⟨index, hindex, rfl⟩

theorem Storage.step_create {result : Except String Unit}
    (h : s.step sha512Crypt serde (.create result) = some s') :
    ∃ call, s.writing = some (call, .create) ∧
      ((result = .ok () ∧ s' = { s with
          disk := some [], files := .new :: s.files
          writing := some (call, .writeAll (serde.fileData s.index)) }) ∨
        ∃ e, result = .error e ∧ s' = s.finish call (.error e)) := by
  rw [step] at h
  split at h
  · next call hcall =>
    refine ⟨call, hcall, ?_⟩
    cases result with
    | ok =>
      cases h
      exact Or.inl ⟨rfl, rfl⟩
    | error e =>
      cases h
      exact Or.inr ⟨e, rfl, rfl⟩
  · cases h

theorem Storage.step_write {n : ℕ} (h : s.step sha512Crypt serde (.write n) = some s') :
    ∃ call unwritten file files, s.writing = some (call, .writeAll unwritten) ∧
      s.files = file :: files ∧
      ((unwritten = [] ∧ s' = { s with writing := some (call, .metadata) }) ∨
        (∃ e, file.writeErr = some e ∧ s' = s.finish call (.error e)) ∨
        (file.buffered = [] ∧ file.writeErr = none ∧ s' = { s with
          writing := some (call, .writeAll (unwritten.drop n))
          files := { file with buffered := unwritten.take n } :: files })) := by
  rw [step] at h
  split at h
  · next call unwritten file files hcall hfiles =>
    refine ⟨call, unwritten, file, files, hcall, hfiles, ?_⟩
    split at h
    · next hdone =>
      cases h
      exact Or.inl ⟨hdone, rfl⟩
    · split at h
      · cases h
      · next hready =>
        have hbuffered : file.buffered = [] := not_not.mp fun hne => hready (Or.inl hne)
        split at h
        · next e he =>
          cases h
          exact Or.inr (Or.inl ⟨e, he, rfl⟩)
        · next hnone =>
          cases h
          exact Or.inr (Or.inr ⟨hbuffered, hnone, rfl⟩)
  · cases h

theorem Storage.step_metadata {result : Except String Unit}
    (h : s.step sha512Crypt serde (.metadata result) = some s') :
    ∃ call, s.writing = some (call, .metadata) ∧
      ((result = .ok () ∧ s' = { s with writing := some (call, .setPermissions) }) ∨
        ∃ e, result = .error e ∧ s' = s.finish call (.error e)) := by
  rw [step] at h
  split at h
  · next call hcall =>
    refine ⟨call, hcall, ?_⟩
    cases result with
    | ok =>
      cases h
      exact Or.inl ⟨rfl, rfl⟩
    | error e =>
      cases h
      exact Or.inr ⟨e, rfl, rfl⟩
  · cases h

theorem Storage.step_setPermissions {result : Except String Unit}
    (h : s.step sha512Crypt serde (.setPermissions result) = some s') :
    ∃ call, s.writing = some (call, .setPermissions) ∧ s' = s.finish call result := by
  rw [step] at h
  split at h
  · next call hcall =>
    cases h
    exact ⟨call, hcall, rfl⟩
  · cases h

theorem Storage.step_land {i n : ℕ} (h : s.step sha512Crypt serde (.land i n) = some s') :
    ∃ file, s.files[i]? = some file ∧ file.buffered ≠ [] ∧ s' = { s with
      disk := s.disk.map (writeAt file.offset (file.buffered.take n))
      files := s.files.set i (file.land n) } := by
  rw [step] at h
  split at h
  · next file hfile =>
    split at h
    · cases h
    · next hbuffered =>
      cases h
      exact ⟨file, hfile, hbuffered, rfl⟩
  · cases h

theorem Storage.step_lost {i : ℕ} {e : String}
    (h : s.step sha512Crypt serde (.lost i e) = some s') :
    ∃ file, s.files[i]? = some file ∧ file.buffered ≠ [] ∧
      s' = { s with files := s.files.set i (file.lost e) } := by
  rw [step] at h
  split at h
  · next file hfile =>
    split at h
    · cases h
    · next hbuffered =>
      cases h
      exact ⟨file, hfile, hbuffered, rfl⟩
  · cases h

theorem Storage.step_restart (h : s.step sha512Crypt serde .restart = some s') :
    ∃ index, readUserIndex serde s.disk = .ok index ∧
      s' = { s with index, writing := none, files := [] } := by
  rw [step] at h
  split at h
  · next index hindex =>
    cases h
    exact ⟨index, hindex, rfl⟩
  · cases h

/-- Only the latest file is not at rest. -/
theorem head_of_buffered {files : List TokioFile} (htail : ∀ f ∈ files.tail, f.buffered = [])
    {i : ℕ} {file : TokioFile} (hfile : files[i]? = some file) (hbuffered : file.buffered ≠ []) :
    i = 0 ∧ files = file :: files.tail := by
  cases files with
  | nil => cases hfile
  | cons first files =>
    cases i with
    | zero =>
      cases hfile
      exact ⟨rfl, rfl⟩
    | succ i => exact absurd (htail file (List.mem_of_getElem? hfile)) hbuffered

/-! ### The disk during a call -/

/-- The disk holds the beginning of `data`. -/
def Touched (disk : Option (List UInt8)) (data : List UInt8) : Prop :=
  ∃ landed, disk = some landed ∧ landed <+: data

/-- What the disk lacks of `data` is in the file, in front of `rest`. -/
def Ahead (disk : Option (List UInt8)) (file : TokioFile) (rest data : List UInt8) : Prop :=
  ∃ landed, disk = some landed ∧ file.offset = landed.length ∧
    landed ++ (file.buffered ++ rest) = data

theorem writeAt_end (landed new : List UInt8) :
    writeAt landed.length new landed = landed ++ new := by
  have hdrop : landed.drop (landed.length + new.length) = [] :=
    List.drop_eq_nil_of_le (Nat.le_add_right _ _)
  rw [writeAt, List.take_length, Nat.sub_self, hdrop, List.replicate_zero, List.append_nil,
    List.append_nil]

theorem Ahead.touched {disk : Option (List UInt8)} {file : TokioFile} {rest data : List UInt8}
    (h : Ahead disk file rest data) : Touched disk data := by
  obtain ⟨landed, hdisk, -, hdata⟩ := h
  exact ⟨landed, hdisk, _, hdata⟩

theorem Ahead.land {disk : Option (List UInt8)} {file : TokioFile} {rest data : List UInt8}
    (h : Ahead disk file rest data) (n : ℕ) :
    Ahead (disk.map (writeAt file.offset (file.buffered.take n))) (file.land n) rest data := by
  obtain ⟨landed, hdisk, hoffset, hdata⟩ := h
  refine ⟨landed ++ file.buffered.take n, ?_, ?_, ?_⟩
  · rw [hdisk, hoffset, Option.map_some, writeAt_end]
  · rw [TokioFile.land, hoffset, List.length_append]
  · rw [TokioFile.land, List.append_assoc, ← List.append_assoc (file.buffered.take n),
      List.take_append_drop]
    exact hdata

/-- The file takes the next bytes. -/
theorem Ahead.write {disk : Option (List UInt8)} {file : TokioFile} {rest data : List UInt8}
    (h : Ahead disk file rest data) (hbuffered : file.buffered = []) (n : ℕ) :
    Ahead disk { file with buffered := rest.take n } (rest.drop n) data := by
  obtain ⟨landed, hdisk, hoffset, hdata⟩ := h
  refine ⟨landed, hdisk, hoffset, ?_⟩
  rw [List.take_append_drop]
  rwa [hbuffered, List.nil_append] at hdata

/-- The beginning of a file loads the whole index or nothing. -/
theorem Touched.loads [serde.RoundTrips] [serde.RejectsTruncated] {disk : Option (List UInt8)}
    {index index' : UserIndex chrono} (h : Touched disk (serde.fileData index))
    (hread : readUserIndex serde disk = .ok index') :
    index' = index ∧ disk = some (serde.fileData index) := by
  obtain ⟨landed, rfl, hbegins⟩ := h
  by_cases hall : landed = serde.fileData index
  · subst hall
    rw [readUserIndex_fileData] at hread
    cases hread
    exact ⟨rfl, rfl⟩
  · rw [readUserIndex] at hread
    split at hread
    · next text htext =>
      have hbytes : utf8Bytes text = landed := (fromUTF8?_eq_some_iff.mp htext).symm
      subst hbytes
      -- a proper beginning of the file is rejected
      obtain ⟨e, he⟩ := SerdeJson.RejectsTruncated.fromStr_truncated index text hbegins hall
      rw [he] at hread
      cases hread
    · cases hread

end

end Server
end Lapas
