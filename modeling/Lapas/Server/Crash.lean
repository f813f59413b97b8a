import Lapas.Server.IndexFile

/-!
# Stopping in the middle of a registration

## Main definitions

* `Storage.During` — the points of a call, from its start to the last byte it leaves.
* `CrashConsistent` — a restart finds the index before the call or the one after it.

## Main results

* `interrupted_write` — **what a restart finds at every point of a call.**
* `not_crashConsistent` — it may find nothing that can be loaded.
-/

namespace Lapas
namespace Server

open Proto

variable {chrono : Chrono}

/-! ### Interrupted writing -/

section

variable {sha512Crypt : Sha512Crypt} {serde : SerdeJson chrono} {s s₁ w w' : Storage chrono}

/-- A point of a call that has started at `s` with the index of `s₁`. -/
structure Storage.During (sha512Crypt : Sha512Crypt) (serde : SerdeJson chrono)
    (w s s₁ : Storage chrono) : Prop where
  inv : w.Inv sha512Crypt serde
  index_eq : w.index = s₁.index
  disk : (w.disk = s.disk ∧ w.AtRest ∧
      ∀ call stage, w.writing = some (call, stage) → stage = .create) ∨
    Touched w.disk (serde.fileData s₁.index)

theorem Storage.During.touched (h : w.During sha512Crypt serde s s₁)
    {call : Registration chrono} {stage : Writing} (hcall : w.writing = some (call, stage))
    (hstage : stage ≠ .create) : Touched w.disk (serde.fileData s₁.index) := by
  rw [← h.index_eq]
  exact h.inv.touched call stage hcall hstage

theorem Storage.During.step [serde.RoundTrips] [serde.RejectsTruncated]
    (h : w.During sha512Crypt serde s s₁) {e : Storage.Event chrono} (hwithin : Within w e)
    (hstep : w.step sha512Crypt serde e = some w') : w'.During sha512Crypt serde s s₁ := by
  have hsettled : Settled w e := by
    rintro call rfl
    exact hwithin.elim
  have hinv := h.inv.step hsettled hstep
  cases e with
  | addUser call => exact hwithin.elim
  | create result =>
    obtain ⟨call, hcall, ⟨-, rfl⟩ | ⟨e, -, rfl⟩⟩ := Storage.step_create hstep
    · exact ⟨hinv, h.index_eq, Or.inr ⟨[], rfl, List.nil_prefix⟩⟩
    · refine ⟨hinv, h.index_eq, h.disk.imp_left ?_⟩
      rintro ⟨hdisk, hrest, -⟩
      exact ⟨hdisk, hrest, fun _ _ hcall' => nomatch hcall'⟩
  | write n =>
    obtain ⟨call, unwritten, file, files, hcall, -, hcases⟩ := Storage.step_write hstep
    have htouched := h.touched hcall (fun hstage => nomatch hstage)
    rcases hcases with ⟨-, rfl⟩ | ⟨e, -, rfl⟩ | ⟨-, -, rfl⟩
    · exact ⟨hinv, h.index_eq, Or.inr htouched⟩
    · exact ⟨hinv, h.index_eq, Or.inr htouched⟩
    · exact ⟨hinv, h.index_eq, Or.inr htouched⟩
  | metadata result =>
    obtain ⟨call, hcall, ⟨-, rfl⟩ | ⟨e, -, rfl⟩⟩ := Storage.step_metadata hstep
    · exact ⟨hinv, h.index_eq, Or.inr (h.touched hcall (fun hstage => nomatch hstage))⟩
    · exact ⟨hinv, h.index_eq, Or.inr (h.touched hcall (fun hstage => nomatch hstage))⟩
  | setPermissions result =>
    obtain ⟨call, hcall, rfl⟩ := Storage.step_setPermissions hstep
    exact ⟨hinv, h.index_eq, Or.inr (h.touched hcall (fun hstage => nomatch hstage))⟩
  -- the only file with bytes on their way is the one of this call
  | land i n =>
    obtain ⟨file, hfile, hbuffered, rfl⟩ := Storage.step_land hstep
    obtain ⟨rfl, hfiles⟩ := head_of_buffered h.inv.tail hfile hbuffered
    obtain ⟨rest, hahead⟩ := h.inv.head file (by rw [hfiles]; rfl) hbuffered
    rw [h.index_eq] at hahead
    exact ⟨hinv, h.index_eq, Or.inr (hahead.land n).touched⟩
  | lost i e =>
    obtain ⟨file, hfile, hbuffered, rfl⟩ := Storage.step_lost hstep
    refine ⟨hinv, h.index_eq, h.disk.imp_left ?_⟩
    rintro ⟨-, hrest, -⟩
    exact absurd (hrest file (List.mem_of_getElem? hfile)) hbuffered
  | restart => exact hwithin.elim

/-- **Every point of a call** that starts when the bytes of the calls before it have reached
the disk or are lost.  The file is what it was, and then it is the index before the call if
nothing has failed so far; or it holds a proper part of the new index, and a restart fails;
or it holds the new index.  What can be loaded has the users of all calls that have returned
`Ok`. -/
theorem interrupted_write [serde.RoundTrips] [serde.RejectsTruncated]
    {call : Registration chrono} (hs : (storage sha512Crypt serde).Reach Settled s)
    (hrest : s.AtRest) (hcall : s.step sha512Crypt serde (.addUser call) = some s₁)
    (hpushed : s₁.writing = some (call, .create))
    (hw : (storageFrom sha512Crypt serde s₁).Reach Within w) :
    ((storage sha512Crypt serde).Reach Successful s →
      readUserIndex serde s.disk = .ok s.index) ∧
    (w.disk = s.disk ∨
      (∃ landed e, w.disk = some landed ∧ landed <+: serde.fileData s₁.index ∧
        landed ≠ serde.fileData s₁.index ∧ readUserIndex serde w.disk = .error e) ∨
      (w.disk = some (serde.fileData s₁.index) ∧
        readUserIndex serde w.disk = .ok s₁.index)) ∧
    ∀ index, readUserIndex serde w.disk = .ok index →
      ∀ call, (call, .ok ()) ∈ w.returned → index.Holds sha512Crypt call := by
  have hinv := inv_of_reach_settled hs
  obtain ⟨hfree, hcases⟩ := Storage.step_addUser hcall
  have hstart : ∀ w, w = s₁ → w.During sha512Crypt serde s s₁ := by
    intro w hw
    rw [hw]
    refine ⟨hinv.step (fun _ _ => hrest) hcall, rfl, Or.inl ?_⟩
    rcases hcases with ⟨e, -, rfl⟩ | ⟨index, -, rfl⟩
    · cases hpushed.symm.trans (rfl : (s.finish call (.error e)).writing = none)
    -- the user has been pushed, and the disk is as it was
    · refine ⟨rfl, hrest, fun call' stage hcall' => ?_⟩
      cases hcall'
      rfl
  have hkeep : ∀ w e w', w.During sha512Crypt serde s s₁ → Within w e →
      w.step sha512Crypt serde e = some w' → w'.During sha512Crypt serde s s₁ :=
    fun _ _ _ h hwithin hstep => h.step hwithin hstep
  have hduring : w.During sha512Crypt serde s s₁ := hw.invariant hstart hkeep
  refine ⟨fun hsuccessful => readUserIndex_of_successful hsuccessful hfree hrest, ?_,
    fun index hread => (hduring.inv.loads index hread).2⟩
  rcases hduring.disk with ⟨hdisk, -, -⟩ | htouched
  · exact Or.inl hdisk
  · refine Or.inr ?_
    obtain ⟨landed, hdisk, hbegins⟩ := id htouched
    -- only the whole file can be loaded
    by_cases hall : landed = serde.fileData s₁.index
    · rw [hdisk, hall]
      exact Or.inr ⟨rfl, readUserIndex_fileData serde s₁.index⟩
    · cases hread : readUserIndex serde w.disk with
      | error e => exact Or.inl ⟨landed, e, hdisk, hbegins, hall, rfl⟩
      | ok index =>
        obtain ⟨-, hcomplete⟩ := htouched.loads hread
        rw [hdisk] at hcomplete
        exact absurd (Option.some.inj hcomplete) hall

/-- At every point of every call, a restart finds the index before the call or the one after
it, with the users of all calls that have returned `Ok`. -/
def CrashConsistent (sha512Crypt : Sha512Crypt) (serde : SerdeJson chrono) : Prop :=
  ∀ (s s₁ w : Storage chrono) (call : Registration chrono),
    (storage sha512Crypt serde).Reach (fun _ _ => True) s →
    s.step sha512Crypt serde (.addUser call) = some s₁ → s₁.writing = some (call, .create) →
    (storageFrom sha512Crypt serde s₁).Reach Within w →
    ∃ index, readUserIndex serde w.disk = .ok index ∧ (index = s.index ∨ index = s₁.index) ∧
      ∀ call, (call, .ok ()) ∈ w.returned → index.Holds sha512Crypt call

/-- A call that succeeds, with all its bytes on the disk. -/
theorem reach_written (h : (storage sha512Crypt serde).Reach Successful s) (hrest : s.AtRest)
    (hfree : s.writing = none) {call : Registration chrono} {index : UserIndex chrono}
    (hindex : s.index.addUser sha512Crypt call = .ok index) (hdata : serde.fileData index ≠ []) :
    ∃ files, (storage sha512Crypt serde).Reach Successful
      ⟨index, some (serde.fileData index), none, files, s.returned ++ [(call, .ok ())]⟩ ∧
      ∀ file ∈ files, file.buffered = [] := by
  obtain ⟨data, hdata'⟩ : ∃ data, data = serde.fileData index := ⟨_, rfl⟩
  rw [← hdata'] at hdata ⊢
  have hlength : data.length ≠ 0 := fun hzero => hdata (List.length_eq_zero_iff.mp hzero)
  let file : TokioFile := ⟨0, data, none⟩
  have hpushed : (storage sha512Crypt serde).Reach Successful
      ⟨index, s.disk, some (call, .create), s.files, s.returned⟩ := by
    refine .step h (e := .addUser call) hrest ?_
    show s.step sha512Crypt serde (.addUser call) = _
    rw [Storage.step, hfree]
    simp only [hindex]
  have hcreated : (storage sha512Crypt serde).Reach Successful
      ⟨index, some [], some (call, .writeAll data), .new :: s.files, s.returned⟩ := by
    refine .step hpushed (e := .create (.ok ())) rfl ?_
    rw [hdata']
    rfl
  have hwritten : (storage sha512Crypt serde).Reach Successful
      ⟨index, some [], some (call, .writeAll []), file :: s.files, s.returned⟩ := by
    refine .step hcreated (e := .write data.length) trivial ?_
    simp [storage, Storage.step, hdata, TokioFile.new, file]
  have hlanded : (storage sha512Crypt serde).Reach Successful
      ⟨index, some data, some (call, .writeAll []), file.land data.length :: s.files,
        s.returned⟩ := by
    refine .step hwritten (e := .land 0 data.length) trivial ?_
    simp [storage, Storage.step, hdata, file, writeAt]
  have hdone : (storage sha512Crypt serde).Reach Successful
      ⟨index, some data, some (call, .metadata), file.land data.length :: s.files,
        s.returned⟩ := .step hlanded (e := .write 0) trivial rfl
  have hmetadata : (storage sha512Crypt serde).Reach Successful
      ⟨index, some data, some (call, .setPermissions), file.land data.length :: s.files,
        s.returned⟩ := .step hdone (e := .metadata (.ok ())) rfl rfl
  refine ⟨_, .step hmetadata (e := .setPermissions (.ok ())) rfl rfl, ?_⟩
  intro file' hfile'
  rcases List.mem_cons.mp hfile' with rfl | hfile'
  · exact List.drop_length ..
  · exact hrest file' hfile'

end

/-! ### A registration that is interrupted -/

/-- Another user than `bob`, for the call that is running when the server stops. -/
def eve : Registration epoch where
  username := "eve"
  password := "secret"
  salt := "fedcba9876543210"
  creationTs := epochStart
  lastUpdateTs := epochStart

theorem eq_of_mem_code {n : ℕ} {bytes : List UInt8}
    (hbegins : bytes <+: List.replicate n 120 ++ [35])
    (hproper : bytes ≠ List.replicate n 120 ++ [35]) : ∀ byte ∈ bytes, byte = 120 := by
  rcases List.prefix_concat_iff.mp hbegins with heq | hshort
  · exact absurd heq hproper
  · intro byte hbyte
    exact List.eq_of_mem_replicate (hshort.subset hbyte)

instance : bobJson.RejectsTruncated where
  fromStr_truncated index text hbegins hproper := by
    have herror : text ≠ bobText → (35 : UInt8) ∉ utf8Bytes text →
        ∃ e, bobJson.fromStr text = .error e := by
      intro hne hmem
      have hlast : (utf8Bytes text).getLast? ≠ some 35 := fun hlast =>
        hmem (List.mem_of_getLast? hlast)
      refine ⟨"EOF while parsing a value", ?_⟩
      unfold bobJson
      simp only [hne, hlast, ↓reduceIte]
    unfold SerdeJson.fileData bobJson at hbegins hproper
    by_cases hbob : indexCode index = indexCode bobIndex
    · simp only [hbob, ↓reduceIte] at hbegins hproper
      refine herror (fun heq => hproper (by rw [heq])) fun hmem => ?_
      exact notMem_utf8Bytes_bobText (hbegins.subset hmem)
    · simp only [hbob, ↓reduceIte, utf8Bytes_code] at hbegins hproper
      have hall := eq_of_mem_code hbegins hproper
      refine herror (fun heq => ?_) fun hmem => absurd (hall 35 hmem) (by decide)
      have hfirst : (123 : UInt8) ∈ utf8Bytes bobText := by decide +kernel
      rw [← heq] at hfirst
      exact absurd (hall 123 hfirst) (by decide)

theorem readUserIndex_empty :
    readUserIndex bobJson (some []) = .error "EOF while parsing a value" := by
  have htext : String.fromUTF8? ⟨([] : List UInt8).toArray⟩ = some "" :=
    fromUTF8?_eq_some_iff.mpr rfl
  have hne : "" ≠ bobText := by decide +kernel
  have hlast : (utf8Bytes "").getLast? ≠ some 35 := by decide +kernel
  rw [readUserIndex, htext]
  unfold bobJson
  simp only [hne, hlast, ↓reduceIte]

theorem fileData_bobIndex_ne : bobJson.fileData bobIndex ≠ [] := by
  have htext : utf8Bytes bobText ≠ [] := by decide +kernel
  unfold SerdeJson.fileData bobJson
  simp only [↓reduceIte]
  exact htext

/-- A call that succeeds starts when the bytes of the calls before it have reached the disk. -/
theorem Successful.settled {s : Storage chrono} {e : Storage.Event chrono} (h : Successful s e) :
    Settled s e := by
  rintro call rfl
  exact h

/-- The file has been created for `eve`, when `bob` has been registered. -/
theorem reach_created : ∃ (files : List TokioFile) (index : UserIndex epoch) (data : List UInt8),
    (storage bobCrypt bobJson).Reach Successful
      ⟨bobIndex, some data, none, files, [(bob, .ok ())]⟩ ∧
    (∀ file ∈ files, file.buffered = []) ∧ data ≠ [] ∧
    Storage.step bobCrypt bobJson ⟨bobIndex, some data, none, files, [(bob, .ok ())]⟩
        (.addUser eve) =
      some ⟨index, some data, some (eve, .create), files, [(bob, .ok ())]⟩ ∧
    Storage.step bobCrypt bobJson ⟨index, some data, some (eve, .create), files, [(bob, .ok ())]⟩
        (.create (.ok ())) =
      some ⟨index, some [], some (eve, .writeAll (bobJson.fileData index)), .new :: files,
        [(bob, .ok ())]⟩ := by
  have hindex : (UserIndex.default : UserIndex epoch).addUser bobCrypt bob = .ok bobIndex := rfl
  obtain ⟨files, hbob, hrest⟩ := reach_written (s := ⟨.default, none, none, [], []⟩) (.start rfl)
    (fun file hfile => absurd hfile List.not_mem_nil) rfl hindex fileData_bobIndex_ne
  obtain ⟨index, heve⟩ : ∃ index, bobIndex.addUser bobCrypt eve = .ok index := ⟨_, rfl⟩
  refine ⟨files, index, _, hbob, hrest, fileData_bobIndex_ne, ?_, rfl⟩
  rw [Storage.step]
  simp only [heve]

/-- The server has loaded `bob`; then the file has been created for `eve`, and nothing can be loaded
from it. -/
theorem interrupted_write_bob : ∃ s w : Storage epoch,
    (storage bobCrypt bobJson).Reach Settled s ∧ (bob, .ok ()) ∈ s.returned ∧
    readUserIndex bobJson s.disk = .ok s.index ∧
    (storage bobCrypt bobJson).Reach Settled w ∧ (bob, .ok ()) ∈ w.returned ∧
    ∃ e, readUserIndex bobJson w.disk = .error e := by
  obtain ⟨files, index, data, hbob, hrest, hdata, hpushed, hcreated⟩ := reach_created
  have hsettled := hbob.mono fun _ _ => Successful.settled
  have hwithin : (storageFrom bobCrypt bobJson
      ⟨index, some data, some (eve, .create), files, [(bob, .ok ())]⟩).Reach Within _ :=
    .step (.start rfl) (e := .create (.ok ())) trivial hcreated
  obtain ⟨hloaded, hdisk, -⟩ := interrupted_write hsettled hrest hpushed rfl hwithin
  have heve : (storage bobCrypt bobJson).Reach Settled _ :=
    .step hsettled (e := .addUser eve) (fun _ _ => hrest) hpushed
  refine ⟨_, _, hsettled, List.mem_singleton_self _, hloaded hbob,
    .step heve (e := .create (.ok ())) (fun _ he => by cases he) hcreated,
    List.mem_singleton_self _, ?_⟩
  rcases hdisk with hdisk | ⟨-, e, -, -, -, hread⟩ | ⟨-, hread⟩
  · exact absurd (Option.some.inj hdisk).symm hdata
  · exact ⟨e, hread⟩
  · rw [readUserIndex_empty] at hread
    cases hread

/-- With `bob` registered, the process stops when the file has been created for `eve`: the
server does not start again, and the user `bob` is lost. -/
theorem not_crashConsistent : ¬ CrashConsistent bobCrypt bobJson := by
  intro h
  obtain ⟨files, index, data, hbob, -, -, hpushed, hcreated⟩ := reach_created
  obtain ⟨found, hread, -⟩ := h _ _ _ eve (hbob.mono fun _ _ _ => trivial) hpushed rfl
    (.step (.start rfl) (e := .create (.ok ())) trivial hcreated)
  rw [readUserIndex_empty] at hread
  cases hread

end Server
end Lapas
