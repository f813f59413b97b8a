import Lapas.Server.Storage

/-!
# The index file over whole runs

## Main definitions

* `Storage.Inv` — which bytes are on their way, and what a restart would load.
* `Storage.Refines` — the writing in steps beside the writing at once.

## Main results

* `inv_of_reach_settled` — whatever can be loaded holds the users of all calls that have
  returned `Ok`.
* `storage_refines_userService` — **without failures, the steps make up those of
  `userService`.**
-/

namespace Lapas
namespace Server

open Proto

variable {chrono : Chrono}

/-! ### What can be loaded -/

section

variable (sha512Crypt : Sha512Crypt) (serde : SerdeJson chrono)

/-- The user of a call is in the index. -/
def UserIndex.Holds (index : UserIndex chrono) (call : Registration chrono) : Prop :=
  ∃ id, call.entry sha512Crypt id ∈ index.users

/-- What holds in every state of a settled run: which bytes of the index are on the disk or on their
way there, and what a restart would load. -/
structure Storage.Inv (s : Storage chrono) : Prop where
  /-- Only the latest file may have bytes that are on their way. -/
  tail : ∀ file ∈ s.files.tail, file.buffered = []
  head : ∀ file, s.files.head? = some file → file.buffered ≠ [] →
    ∃ rest, Ahead s.disk file rest (serde.fileData s.index)
  create : ∀ call, s.writing = some (call, .create) → s.AtRest
  writeAll : ∀ call rest file, s.writing = some (call, .writeAll rest) →
    s.files.head? = some file → file.writeErr = none →
    Ahead s.disk file rest (serde.fileData s.index)
  touched : ∀ call stage, s.writing = some (call, stage) → stage ≠ .create →
    Touched s.disk (serde.fileData s.index)
  pushed : ∀ call stage, s.writing = some (call, stage) → s.index.Holds sha512Crypt call
  returned : ∀ call, (call, .ok ()) ∈ s.returned → s.index.Holds sha512Crypt call
  /-- What a restart loads has lost no user whose call has returned `Ok`. -/
  loads : ∀ index, readUserIndex serde s.disk = .ok index →
    index.users <+: s.index.users ∧
      ∀ call, (call, .ok ()) ∈ s.returned → index.Holds sha512Crypt call

end

section

variable {sha512Crypt : Sha512Crypt} {serde : SerdeJson chrono} {s s' : Storage chrono}

theorem UserIndex.Holds.mono {index index' : UserIndex chrono} {call : Registration chrono}
    (h : index.Holds sha512Crypt call) (hbegins : index.users <+: index'.users) :
    index'.Holds sha512Crypt call := by
  obtain ⟨id, hid⟩ := h
  exact ⟨id, hbegins.subset hid⟩

/-- On a disk that holds the beginning of the index, `loads` is a matter of the index. -/
theorem Touched.loads_of_returned [serde.RoundTrips] [serde.RejectsTruncated]
    (h : Touched s.disk (serde.fileData s.index))
    (hreturned : ∀ call, (call, .ok ()) ∈ s.returned → s.index.Holds sha512Crypt call)
    (index : UserIndex chrono) (hread : readUserIndex serde s.disk = .ok index) :
    index.users <+: s.index.users ∧
      ∀ call, (call, .ok ()) ∈ s.returned → index.Holds sha512Crypt call := by
  obtain ⟨rfl, -⟩ := h.loads hread
  exact ⟨List.prefix_rfl, hreturned⟩

/-- While no call is going on, the invariant is about the files and the calls that returned. -/
theorem Storage.Inv.of_idle (hfree : s.writing = none)
    (htail : ∀ file ∈ s.files.tail, file.buffered = [])
    (hhead : ∀ file, s.files.head? = some file → file.buffered ≠ [] →
      ∃ rest, Ahead s.disk file rest (serde.fileData s.index))
    (hreturned : ∀ call, (call, .ok ()) ∈ s.returned → s.index.Holds sha512Crypt call)
    (hloads : ∀ index, readUserIndex serde s.disk = .ok index →
      index.users <+: s.index.users ∧
        ∀ call, (call, .ok ()) ∈ s.returned → index.Holds sha512Crypt call) :
    s.Inv sha512Crypt serde := by
  refine ⟨htail, hhead, ?_, ?_, ?_, ?_, hreturned, hloads⟩
  · intro call hcall
    cases hfree.symm.trans hcall
  · intro call rest file hcall
    cases hfree.symm.trans hcall
  · intro call stage hcall
    cases hfree.symm.trans hcall
  · intro call stage hcall
    cases hfree.symm.trans hcall

/-- A call returns: with `Ok` behind its writing, or with an error at any point. -/
theorem Storage.Inv.finish [serde.RoundTrips] [serde.RejectsTruncated]
    (h : s.Inv sha512Crypt serde) {call : Registration chrono} {result : Except String Unit}
    (hok : result = .ok () → s.index.Holds sha512Crypt call ∧
      Touched s.disk (serde.fileData s.index)) :
    (s.finish call result).Inv sha512Crypt serde := by
  have hreturned : ∀ call', (call', .ok ()) ∈ s.returned ++ [(call, result)] →
      (call', .ok ()) ∈ s.returned ∨ call' = call ∧ result = .ok () := by
    intro call' hmem
    rcases List.mem_append.mp hmem with hold | hnew
    · exact Or.inl hold
    · obtain ⟨rfl, rfl⟩ := Prod.mk.inj (List.mem_singleton.mp hnew)
      exact Or.inr ⟨rfl, rfl⟩
  refine Storage.Inv.of_idle rfl h.tail h.head ?_ ?_
  · intro call' hmem
    rcases hreturned call' hmem with hold | ⟨rfl, hresult⟩
    · exact h.returned call' hold
    · exact (hok hresult).1
  · intro index hread
    obtain ⟨hbegins, hholds⟩ := h.loads index hread
    refine ⟨hbegins, fun call' hmem => ?_⟩
    rcases hreturned call' hmem with hold | ⟨rfl, hresult⟩
    · exact hholds call' hold
    -- what can be loaded now is the index with the user of this call
    · obtain ⟨hpushed, htouched⟩ := hok hresult
      obtain ⟨rfl, -⟩ := htouched.loads hread
      exact hpushed

/-- `write_user_index` goes on behind `write_all`. -/
theorem Storage.Inv.next (h : s.Inv sha512Crypt serde) {call : Registration chrono}
    {stage stage' : Writing} (hcall : s.writing = some (call, stage)) (hstage : stage ≠ .create)
    (hstage' : stage' = .metadata ∨ stage' = .setPermissions) :
    Storage.Inv sha512Crypt serde { s with writing := some (call, stage') } := by
  have htouched := h.touched call stage hcall hstage
  have hpushed := h.pushed call stage hcall
  constructor
  · exact h.tail
  · exact h.head
  · intro call' hcall'
    cases hcall'
    rcases hstage' with hstage' | hstage' <;> cases hstage'
  · intro call' rest file hcall'
    cases hcall'
    rcases hstage' with hstage' | hstage' <;> cases hstage'
  · intro call' _ _ _
    exact htouched
  · intro call' _ hcall'
    cases hcall'
    exact hpushed
  · exact h.returned
  · exact h.loads

/-- The latest file is replaced, and the disk holds the beginning of the index. -/
theorem Storage.Inv.file [serde.RoundTrips] [serde.RejectsTruncated]
    (h : s.Inv sha512Crypt serde) {file : TokioFile} {files : List TokioFile}
    {disk : Option (List UInt8)} (hfiles : ∀ f ∈ files, f.buffered = [])
    (htouched : Touched disk (serde.fileData s.index))
    (hcreate : ∀ call, s.writing ≠ some (call, .create))
    (hhead : file.buffered ≠ [] → ∃ rest, Ahead disk file rest (serde.fileData s.index))
    (hwriteAll : ∀ call rest, s.writing = some (call, .writeAll rest) → file.writeErr = none →
      Ahead disk file rest (serde.fileData s.index)) :
    Storage.Inv sha512Crypt serde { s with disk, files := file :: files } := by
  constructor
  · exact hfiles
  · intro f hf
    cases hf
    exact hhead
  · intro call hcall
    exact absurd hcall (hcreate call)
  · intro call rest f hcall hf
    cases hf
    exact hwriteAll call rest hcall
  · intro _ _ _ _
    exact htouched
  · exact h.pushed
  · exact h.returned
  · exact Touched.loads_of_returned (s := { s with disk, files := file :: files }) htouched
      h.returned

/-- A user is pushed while nothing is on its way to the disk. -/
theorem Storage.Inv.push (h : s.Inv sha512Crypt serde) (hrest : s.AtRest)
    {call : Registration chrono} {index : UserIndex chrono}
    (hindex : s.index.addUser sha512Crypt call = .ok index) :
    Storage.Inv sha512Crypt serde { s with index, writing := some (call, .create) } := by
  obtain ⟨-, -, hindex⟩ := UserIndex.addUser_eq_ok hindex
  have hbegins : s.index.users <+: index.users := by
    rw [hindex]
    exact List.prefix_append _ _
  constructor
  · exact fun f hf => hrest f (List.mem_of_mem_tail hf)
  -- no bytes of an earlier call are on their way, which could overwrite those of this one
  · intro f hf hbuffered
    exact absurd (hrest f (List.mem_of_head? hf)) hbuffered
  · exact fun _ _ => hrest
  · intro call' rest f hcall'
    cases hcall'
  · intro call' stage hcall' hstage
    cases hcall'
    exact absurd rfl hstage
  · intro call' stage hcall'
    cases hcall'
    refine ⟨s.index.nextId, ?_⟩
    rw [hindex]
    exact List.mem_append_right _ (List.mem_singleton_self _)
  · exact fun call' hmem => (h.returned call' hmem).mono hbegins
  · -- the disk is the same, and the index has grown
    intro old hread
    obtain ⟨hold, hholds⟩ := h.loads old hread
    exact ⟨hold.trans hbegins, hholds⟩

/-- The file is truncated. -/
theorem Storage.Inv.truncate [serde.RoundTrips] [serde.RejectsTruncated]
    (h : s.Inv sha512Crypt serde) {call : Registration chrono}
    (hcall : s.writing = some (call, .create)) :
    Storage.Inv sha512Crypt serde { s with
      disk := some [], files := .new :: s.files
      writing := some (call, .writeAll (serde.fileData s.index)) } := by
  -- all of the index is in front of the empty disk
  have hempty : Ahead (some []) .new (serde.fileData s.index) (serde.fileData s.index) :=
    ⟨[], rfl, rfl, rfl⟩
  constructor
  · exact h.create call hcall
  · intro f hf hbuffered
    cases hf
    exact absurd rfl hbuffered
  · intro call' hcall'
    cases hcall'
  · intro call' rest f hcall' hf _
    cases hcall'
    cases hf
    exact hempty
  · exact fun _ _ _ _ => hempty.touched
  · intro call' stage hcall'
    cases hcall'
    exact h.pushed call .create hcall
  · exact h.returned
  · exact Touched.loads_of_returned (s := { s with
      disk := some [], files := .new :: s.files
      writing := some (call, .writeAll (serde.fileData s.index)) }) hempty.touched h.returned

/-- The file takes the next bytes of the index. -/
theorem Storage.Inv.take (h : s.Inv sha512Crypt serde) {call : Registration chrono}
    {unwritten : List UInt8} {file : TokioFile} {files : List TokioFile}
    (hcall : s.writing = some (call, .writeAll unwritten)) (hfiles : s.files = file :: files)
    (hbuffered : file.buffered = []) (hwriteErr : file.writeErr = none) (n : ℕ) :
    Storage.Inv sha512Crypt serde { s with
      writing := some (call, .writeAll (unwritten.drop n))
      files := { file with buffered := unwritten.take n } :: files } := by
  have hhead : s.files.head? = some file := by rw [hfiles]; rfl
  have hahead := h.writeAll call unwritten file hcall hhead hwriteErr
  have hnext := hahead.write hbuffered n
  have htail := h.tail
  rw [hfiles] at htail
  constructor
  · exact htail
  · intro f hf _
    cases hf
    exact ⟨_, hnext⟩
  · intro call' hcall'
    cases hcall'
  · intro call' rest f hcall' hf _
    cases hcall'
    cases hf
    exact hnext
  · exact fun _ _ _ _ => hahead.touched
  · intro call' stage hcall'
    cases hcall'
    exact h.pushed call _ hcall
  · exact h.returned
  · exact h.loads

/-- Bytes of the latest file reach the disk. -/
theorem Storage.Inv.land [serde.RoundTrips] [serde.RejectsTruncated]
    (h : s.Inv sha512Crypt serde) {file : TokioFile} {files : List TokioFile}
    (hfiles : s.files = file :: files) (hbuffered : file.buffered ≠ []) (n : ℕ) :
    Storage.Inv sha512Crypt serde { s with
      disk := s.disk.map (writeAt file.offset (file.buffered.take n))
      files := file.land n :: files } := by
  have hhead : s.files.head? = some file := by rw [hfiles]; rfl
  have htail := h.tail
  rw [hfiles] at htail
  obtain ⟨rest, hahead⟩ := h.head file hhead hbuffered
  refine h.file htail (hahead.land n).touched (fun call hcall => ?_)
    (fun _ => ⟨rest, hahead.land n⟩) fun call rest' hcall hwriteErr => ?_
  · exact hbuffered (h.create call hcall file (List.mem_of_head? hhead))
  · exact (h.writeAll call rest' file hcall hhead hwriteErr).land n

/-- Bytes of the latest file are lost. -/
theorem Storage.Inv.lose [serde.RoundTrips] [serde.RejectsTruncated]
    (h : s.Inv sha512Crypt serde) {file : TokioFile} {files : List TokioFile}
    (hfiles : s.files = file :: files) (hbuffered : file.buffered ≠ []) (e : String) :
    Storage.Inv sha512Crypt serde { s with files := file.lost e :: files } := by
  have hhead : s.files.head? = some file := by rw [hfiles]; rfl
  have htail := h.tail
  rw [hfiles] at htail
  obtain ⟨rest, hahead⟩ := h.head file hhead hbuffered
  -- the lost bytes leave an error behind, so no further byte is written to this file
  refine h.file htail hahead.touched (fun call hcall => ?_) (fun hne => absurd rfl hne)
    fun call rest' hcall hwriteErr => nomatch hwriteErr
  exact hbuffered (h.create call hcall file (List.mem_of_head? hhead))

/-- The server is started again with an index that it can load. -/
theorem Storage.Inv.reload (h : s.Inv sha512Crypt serde) {index : UserIndex chrono}
    (hread : readUserIndex serde s.disk = .ok index) :
    Storage.Inv sha512Crypt serde { s with index, writing := none, files := [] } := by
  obtain ⟨-, hholds⟩ := h.loads index hread
  refine Storage.Inv.of_idle rfl ?_ ?_ hholds ?_
  · exact fun f hf => absurd hf List.not_mem_nil
  · intro f hf
    cases hf
  · intro index' hread'
    cases hread.symm.trans hread'
    exact ⟨List.prefix_rfl, hholds⟩

/-- **One step** of a settled run. -/
theorem Storage.Inv.step [serde.RoundTrips] [serde.RejectsTruncated]
    (h : s.Inv sha512Crypt serde) {e : Storage.Event chrono} (hsettled : Settled s e)
    (hstep : s.step sha512Crypt serde e = some s') : s'.Inv sha512Crypt serde := by
  cases e with
  | addUser call =>
    -- a refused call leaves the state, an accepted one has pushed its user
    obtain ⟨hfree, ⟨e, -, rfl⟩ | ⟨index, hindex, rfl⟩⟩ := Storage.step_addUser hstep
    · exact h.finish (fun hok => nomatch hok)
    · exact h.push (hsettled call rfl) hindex
  | create result =>
    obtain ⟨call, hcall, ⟨-, rfl⟩ | ⟨e, rfl, rfl⟩⟩ := Storage.step_create hstep
    · exact h.truncate hcall
    · exact h.finish (fun hok => nomatch hok)
  | write n =>
    obtain ⟨call, unwritten, file, files, hcall, hfiles, hcases⟩ := Storage.step_write hstep
    rcases hcases with ⟨-, rfl⟩ | ⟨e, -, rfl⟩ | ⟨hbuffered, hwriteErr, rfl⟩
    · exact h.next hcall (fun hstage => nomatch hstage) (Or.inl rfl)
    · exact h.finish (fun hok => nomatch hok)
    · exact h.take hcall hfiles hbuffered hwriteErr n
  | metadata result =>
    obtain ⟨call, hcall, ⟨-, rfl⟩ | ⟨e, rfl, rfl⟩⟩ := Storage.step_metadata hstep
    · exact h.next hcall (fun hstage => nomatch hstage) (Or.inr rfl)
    · exact h.finish (fun hok => nomatch hok)
  | setPermissions result =>
    obtain ⟨call, hcall, rfl⟩ := Storage.step_setPermissions hstep
    exact h.finish fun _ => ⟨h.pushed call _ hcall,
      h.touched call _ hcall (fun hstage => nomatch hstage)⟩
  | land i n =>
    obtain ⟨file, hfile, hbuffered, rfl⟩ := Storage.step_land hstep
    -- only the file of the latest call has bytes that are not written yet
    obtain ⟨rfl, hfiles⟩ := head_of_buffered h.tail hfile hbuffered
    have hset := h.land hfiles hbuffered n
    rwa [← List.set_cons_zero, ← hfiles] at hset
  | lost i e =>
    obtain ⟨file, hfile, hbuffered, rfl⟩ := Storage.step_lost hstep
    obtain ⟨rfl, hfiles⟩ := head_of_buffered h.tail hfile hbuffered
    have hset := h.lose hfiles hbuffered e
    rwa [← List.set_cons_zero, ← hfiles] at hset
  | restart =>
    obtain ⟨index, hread, rfl⟩ := Storage.step_restart hstep
    exact h.reload hread

theorem inv_of_reach_settled [serde.RoundTrips] [serde.RejectsTruncated]
    (h : (storage sha512Crypt serde).Reach Settled s) : s.Inv sha512Crypt serde := by
  refine h.invariant (fun s hs => ?_) fun _ _ _ hs hsettled hstep => hs.step hsettled hstep
  subst hs
  refine Storage.Inv.of_idle rfl ?_ ?_ ?_ ?_
  · exact fun f hf => absurd hf List.not_mem_nil
  · intro f hf
    cases hf
  · exact fun call hmem => absurd hmem List.not_mem_nil
  · intro index hread
    cases hread
    exact ⟨List.prefix_rfl, fun call hmem => absurd hmem List.not_mem_nil⟩

end

/-! ### Runs without failures -/

section

variable (serde : SerdeJson chrono)

/-- The coarse service has the file that the disk will have. -/
structure Storage.Refines (s : Storage chrono) (u : UserService chrono) : Prop where
  index_eq : u.index = s.index
  returned_eq : u.returned = s.returned
  writing_eq : u.writing = s.writing.map Prod.fst
  tail : ∀ file ∈ s.files.tail, file.buffered = []
  writeErr : ∀ file ∈ s.files, file.writeErr = none
  idle : s.writing = none → (s.AtRest ∧ u.file = s.disk) ∨
    ∃ file, s.files.head? = some file ∧ Ahead s.disk file [] (serde.fileData s.index) ∧
      u.file = some (serde.fileData s.index)
  create : ∀ call, s.writing = some (call, .create) → s.AtRest
  writeAll : ∀ call rest, s.writing = some (call, .writeAll rest) →
    ∃ file, s.files.head? = some file ∧ Ahead s.disk file rest (serde.fileData s.index)
  written : ∀ call stage, s.writing = some (call, stage) →
    stage = .metadata ∨ stage = .setPermissions →
    ∃ file, s.files.head? = some file ∧ Ahead s.disk file [] (serde.fileData s.index)

end

section

variable {sha512Crypt : Sha512Crypt} {serde : SerdeJson chrono} {s s' : Storage chrono}
  {u : UserService chrono}

/-- A file at rest that is not ahead of the disk is on the disk. -/
theorem Ahead.disk_eq {disk : Option (List UInt8)} {file : TokioFile} {data : List UInt8}
    (h : Ahead disk file [] data) (hrest : file.buffered = []) : disk = some data := by
  obtain ⟨landed, hdisk, -, hdata⟩ := h
  rw [hrest, List.append_nil, List.append_nil] at hdata
  rw [hdisk, hdata]

/-- When no call is going on and nothing is on its way, the files are the same. -/
theorem Storage.Refines.file_eq (h : s.Refines serde u) (hfree : s.writing = none)
    (hrest : s.AtRest) : u.file = s.disk := by
  rcases h.idle hfree with ⟨-, hfile⟩ | ⟨file, hhead, hahead, hfile⟩
  · exact hfile
  · rw [hfile, hahead.disk_eq (hrest file (List.mem_of_head? hhead))]

/-- While no call is going on, the coarse service has what the disk will have. -/
theorem Storage.Refines.of_idle (hfree : s.writing = none) (hindex : u.index = s.index)
    (hreturned : u.returned = s.returned) (hufree : u.writing = none)
    (htail : ∀ file ∈ s.files.tail, file.buffered = [])
    (hwriteErr : ∀ file ∈ s.files, file.writeErr = none)
    (hidle : (s.AtRest ∧ u.file = s.disk) ∨
      ∃ file, s.files.head? = some file ∧ Ahead s.disk file [] (serde.fileData s.index) ∧
        u.file = some (serde.fileData s.index)) : s.Refines serde u := by
  refine ⟨hindex, hreturned, ?_, htail, hwriteErr, fun _ => hidle, ?_, ?_, ?_⟩
  · rw [hfree, hufree]
    rfl
  · intro call hcall
    cases hfree.symm.trans hcall
  · intro call rest hcall
    cases hfree.symm.trans hcall
  · intro call stage hcall
    cases hfree.symm.trans hcall

/-- The user is pushed in both. -/
theorem Storage.Refines.push (h : s.Refines serde u) (hrest : s.AtRest)
    (call : Registration chrono) (index : UserIndex chrono) :
    Storage.Refines serde { s with index, writing := some (call, .create) }
      { u with index, writing := some call } := by
  refine ⟨rfl, h.returned_eq, rfl, h.tail, h.writeErr, ?_, fun _ _ => hrest, ?_, ?_⟩
  · intro hnone
    cases hnone
  · intro call' rest hcall'
    cases hcall'
  · intro call' stage hcall' hstage
    cases hcall'
    rcases hstage with hstage | hstage <;> cases hstage

/-- Between pushing and returning, the call goes on in the storage only. -/
theorem Storage.Refines.stay (h : s.Refines serde u) (stage' : Writing)
    {call : Registration chrono} {stage : Writing} (hcall : s.writing = some (call, stage))
    {disk : Option (List UInt8)} {file : TokioFile} {files : List TokioFile}
    (htail : ∀ f ∈ files, f.buffered = []) (hwriteErr : ∀ f ∈ file :: files, f.writeErr = none)
    (hstage : stage' ≠ .create)
    (hwriteAll : ∀ rest, stage' = .writeAll rest → Ahead disk file rest (serde.fileData s.index))
    (hwritten : stage' = .metadata ∨ stage' = .setPermissions →
      Ahead disk file [] (serde.fileData s.index)) :
    Storage.Refines serde
      { s with disk, files := file :: files, writing := some (call, stage') } u := by
  refine ⟨h.index_eq, h.returned_eq, ?_, htail, hwriteErr, ?_, ?_, ?_, ?_⟩
  · rw [h.writing_eq, hcall]
    rfl
  · intro hnone
    cases hnone
  · intro call' hcall'
    cases hcall'
    exact absurd rfl hstage
  · intro call' rest hcall'
    cases hcall'
    exact ⟨file, rfl, hwriteAll rest rfl⟩
  · intro call' stage'' hcall' hstage'
    cases hcall'
    exact ⟨file, rfl, hwritten hstage'⟩

/-- Bytes of the latest file reach the disk, where the coarse service has them already. -/
theorem Storage.Refines.land (h : s.Refines serde u) {file : TokioFile} {files : List TokioFile}
    (hfiles : s.files = file :: files) (hbuffered : file.buffered ≠ []) (n : ℕ) :
    Storage.Refines serde { s with
      disk := s.disk.map (writeAt file.offset (file.buffered.take n))
      files := file.land n :: files } u := by
  have hmem : file ∈ s.files := by
    rw [hfiles]
    exact List.mem_cons_self
  have htail := h.tail
  have hwriteErr := h.writeErr
  rw [hfiles] at htail hwriteErr
  have hland : ∀ rest, (∃ file', s.files.head? = some file' ∧
      Ahead s.disk file' rest (serde.fileData s.index)) →
      ∃ file', (file.land n :: files).head? = some file' ∧
        Ahead (s.disk.map (writeAt file.offset (file.buffered.take n))) file' rest
          (serde.fileData s.index) := by
    rintro rest ⟨file', hhead, hahead⟩
    rw [hfiles] at hhead
    cases hhead
    exact ⟨_, rfl, hahead.land n⟩
  refine ⟨h.index_eq, h.returned_eq, h.writing_eq, htail,
    List.forall_mem_cons.mpr (List.forall_mem_cons.mp hwriteErr), ?_, ?_, ?_, ?_⟩
  · intro hfree
    rcases h.idle hfree with ⟨hrest, -⟩ | ⟨file', hhead, hahead, hufile⟩
    · exact absurd (hrest file hmem) hbuffered
    -- the coarse service has written the whole file in one step, when the call returned
    · obtain ⟨f, hf, hfahead⟩ := hland [] ⟨file', hhead, hahead⟩
      exact Or.inr ⟨f, hf, hfahead, hufile⟩
  · intro call hcall
    exact absurd (h.create call hcall file hmem) hbuffered
  · intro call rest hcall
    exact hland rest (h.writeAll call rest hcall)
  · intro call stage hcall hstage
    exact hland [] (h.written call stage hcall hstage)

/-- A step that does not fail is a step of the coarse service, or is not seen there. -/
theorem Storage.Refines.step (h : s.Refines serde u) {e : Storage.Event chrono}
    (hsuccessful : Successful s e) (hstep : s.step sha512Crypt serde e = some s') :
    ∃ u', (u' = u ∨ ∃ e', u.step sha512Crypt serde e' = some u') ∧ s'.Refines serde u' := by
  cases e with
  | addUser call =>
    obtain ⟨hfree, hcases⟩ := Storage.step_addUser hstep
    have hufree : u.writing = none := by rw [h.writing_eq, hfree]; rfl
    rcases hcases with ⟨e, he, rfl⟩ | ⟨index, hindex, rfl⟩
    · refine ⟨{ u with returned := u.returned ++ [(call, .error e)] },
        Or.inr ⟨.addUser call, ?_⟩, ?_⟩
      · rw [← h.index_eq] at he
        rw [UserService.step, hufree]
        simp only [he]
      · refine Storage.Refines.of_idle rfl h.index_eq ?_ hufree h.tail h.writeErr (h.idle hfree)
        rw [h.returned_eq]
        rfl
    · refine ⟨{ u with index, writing := some call }, Or.inr ⟨.addUser call, ?_⟩,
        h.push hsuccessful call index⟩
      rw [← h.index_eq] at hindex
      rw [UserService.step, hufree]
      simp only [hindex]
  | create result =>
    cases hsuccessful
    obtain ⟨call, hcall, ⟨-, rfl⟩ | ⟨e, he, -⟩⟩ := Storage.step_create hstep
    · refine ⟨u, Or.inl rfl, h.stay _ hcall (h.create call hcall) ?_ (fun heq => by cases heq)
        ?_ fun hstage => ?_⟩
      · exact List.forall_mem_cons.mpr ⟨rfl, h.writeErr⟩
      · intro rest hrest
        cases hrest
        exact ⟨[], rfl, rfl, rfl⟩
      · rcases hstage with hstage | hstage <;> cases hstage
    · cases he
  | write n =>
    obtain ⟨call, unwritten, file, files, hcall, hfiles, hcases⟩ := Storage.step_write hstep
    obtain ⟨file', hhead, hahead⟩ := h.writeAll call unwritten hcall
    have htail : ∀ f ∈ files, f.buffered = [] := fun f hf => h.tail f (by rw [hfiles]; exact hf)
    have hwriteErr := h.writeErr
    rw [hfiles] at hwriteErr hhead
    cases hhead
    rcases hcases with ⟨rfl, rfl⟩ | ⟨e, he, -⟩ | ⟨hbuffered, -, rfl⟩
    · have hstay := h.stay .metadata hcall htail hwriteErr (fun heq => by cases heq)
        (fun rest hrest => by cases hrest) fun _ => hahead
      rw [← hfiles] at hstay
      exact ⟨u, Or.inl rfl, hstay⟩
    · -- no write has failed
      rw [hwriteErr file List.mem_cons_self] at he
      cases he
    · refine ⟨u, Or.inl rfl, h.stay _ hcall htail ?_ (fun heq => by cases heq) ?_ fun hstage => ?_⟩
      · exact List.forall_mem_cons.mpr (List.forall_mem_cons.mp hwriteErr)
      · intro rest hrest
        cases hrest
        exact hahead.write hbuffered n
      · rcases hstage with hstage | hstage <;> cases hstage
  | metadata result =>
    cases hsuccessful
    obtain ⟨call, hcall, ⟨-, rfl⟩ | ⟨e, he, -⟩⟩ := Storage.step_metadata hstep
    · obtain ⟨file, hhead, hahead⟩ := h.written call _ hcall (Or.inl rfl)
      obtain ⟨files, hfiles⟩ := List.head?_eq_some_iff.mp hhead
      have htail : ∀ f ∈ files, f.buffered = [] := fun f hf => h.tail f (by rw [hfiles]; exact hf)
      have hwriteErr := h.writeErr
      rw [hfiles] at hwriteErr
      have hstay := h.stay .setPermissions hcall htail hwriteErr
        (fun heq => by cases heq) (fun rest hrest => by cases hrest) fun _ => hahead
      rw [← hfiles] at hstay
      exact ⟨u, Or.inl rfl, hstay⟩
    · cases he
  | setPermissions result =>
    cases hsuccessful
    obtain ⟨call, hcall, rfl⟩ := Storage.step_setPermissions hstep
    obtain ⟨file, hhead, hahead⟩ := h.written call _ hcall (Or.inr rfl)
    -- here the coarse service writes its file
    have hu : u.writing = some call := by rw [h.writing_eq, hcall]; rfl
    refine ⟨{ u with
      file := some (serde.fileData u.index), writing := none
      returned := u.returned ++ [(call, .ok ())] }, Or.inr ⟨.written, ?_⟩, ?_⟩
    · rw [UserService.step, hu]
    · refine Storage.Refines.of_idle rfl h.index_eq ?_ rfl h.tail h.writeErr ?_
      · rw [h.returned_eq]
        rfl
      · rw [h.index_eq]
        exact Or.inr ⟨file, hhead, hahead, rfl⟩
  | land i n =>
    obtain ⟨file, hfile, hbuffered, rfl⟩ := Storage.step_land hstep
    obtain ⟨rfl, hfiles⟩ := head_of_buffered h.tail hfile hbuffered
    have hset := h.land hfiles hbuffered n
    rw [← List.set_cons_zero, ← hfiles] at hset
    exact ⟨u, Or.inl rfl, hset⟩
  | lost i e => exact hsuccessful.elim
  | restart =>
    obtain ⟨hfree, hrest⟩ := hsuccessful
    obtain ⟨index, hread, rfl⟩ := Storage.step_restart hstep
    have hufree : u.writing = none := by rw [h.writing_eq, hfree]; rfl
    have hufile := h.file_eq hfree hrest
    rw [← hufile] at hread
    refine ⟨{ u with index }, Or.inr ⟨.restart, UserService.step_restart hufree hread⟩, ?_⟩
    refine Storage.Refines.of_idle rfl rfl h.returned_eq hufree ?_ ?_ (Or.inl ⟨?_, hufile⟩)
    · exact fun f hf => absurd hf List.not_mem_nil
    · exact fun f hf => absurd hf List.not_mem_nil
    · exact fun f hf => absurd hf List.not_mem_nil

/-- **Without failures, the steps of the writing make up those of the coarse service.** -/
theorem storage_refines_userService (h : (storage sha512Crypt serde).Reach Successful s) :
    ∃ u, (userService sha512Crypt serde).Reach (fun _ _ => True) u ∧ s.Refines serde u := by
  induction h with
  | start hs =>
    rw [hs]
    refine ⟨_, .start rfl, Storage.Refines.of_idle rfl rfl rfl rfl ?_ ?_ (Or.inl ⟨?_, rfl⟩)⟩
    · exact fun f hf => absurd hf List.not_mem_nil
    · exact fun f hf => absurd hf List.not_mem_nil
    · exact fun f hf => absurd hf List.not_mem_nil
  | step _ hsuccessful hstep ih =>
    obtain ⟨u, hu, hrefines⟩ := ih
    obtain ⟨u', rfl | ⟨e', he'⟩, hrefines'⟩ := hrefines.step hsuccessful hstep
    · exact ⟨u', hu, hrefines'⟩
    · exact ⟨u', hu.step trivial he', hrefines'⟩

/-- Without failures, a file at rest is the index. -/
theorem readUserIndex_of_successful [serde.RoundTrips]
    (h : (storage sha512Crypt serde).Reach Successful s) (hfree : s.writing = none)
    (hrest : s.AtRest) : readUserIndex serde s.disk = .ok s.index := by
  obtain ⟨u, hu, hrefines⟩ := storage_refines_userService h
  have hufree : u.writing = none := by rw [hrefines.writing_eq, hfree]; rfl
  have hufile := (inv_of_reach hu).file_eq hufree
  rwa [hrefines.file_eq hfree hrest, hrefines.index_eq] at hufile

end

end Server
end Lapas
