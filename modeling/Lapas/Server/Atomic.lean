import Lapas.Server.Crash

/-!
# Registrations that fail

`add_user` pushes the user and counts up `next_id` before it writes the index file, and does
not take them back when writing fails.  Here a call is a function of the index that it finds
under the lock and of how the steps of `write_user_index` go; `Storage.returned_eq` says that
the calls of `storage`, with all that happens to the file in between, are calls of this kind.

## Main definitions

* `WriteSteps`, `writeUserIndex`, `UserService.addUser` — a whole call.
* `Refused` — the checks refuse the call.
* `Atomic` — a call that returns an error has changed nothing, and can be tried again.

## Main results

* `Storage.returned_eq` — what a call of `storage` returns and leaves in memory.
* `atomic_iff` — **a call is atomic exactly when the checks refuse it or no step of writing
  fails.**
-/

namespace Lapas
namespace Server

open Proto

variable {chrono : Chrono}

/-! ### A whole call -/

/-- What the fallible steps of `write_user_index` return. -/
structure WriteSteps where
  create : Except String Unit
  toStringPretty : Except String Unit
  writeAll : Except String Unit
  metadata : Except String Unit
  setPermissions : Except String Unit

/-- `write_user_index`, by what its five steps return; the first error ends it. -/
def writeUserIndex (steps : WriteSteps) : Except String Unit := do
  steps.create
  steps.toStringPretty
  steps.writeAll
  steps.metadata
  steps.setPermissions

/-- No step of `write_user_index` fails, from the opening of the file to its permissions. -/
structure WriteSteps.Working (steps : WriteSteps) : Prop where
  create : steps.create = .ok ()
  toStringPretty : steps.toStringPretty = .ok ()
  writeAll : steps.writeAll = .ok ()
  metadata : steps.metadata = .ok ()
  setPermissions : steps.setPermissions = .ok ()

theorem bind_eq_ok_unit {first rest : Except String Unit} :
    (first >>= fun _ => rest) = .ok () ↔ first = .ok () ∧ rest = .ok () := by
  cases first with
  | error e => exact iff_of_false nofun nofun
  | ok => exact (and_iff_right rfl).symm

/-- Writing returns the error of the first step that fails. -/
theorem writeUserIndex_eq_ok {steps : WriteSteps} :
    writeUserIndex steps = .ok () ↔ steps.Working := by
  rw [writeUserIndex, bind_eq_ok_unit, bind_eq_ok_unit, bind_eq_ok_unit, bind_eq_ok_unit]
  exact ⟨fun ⟨hcreate, htext, hwrite, hmetadata, hpermissions⟩ =>
    ⟨hcreate, htext, hwrite, hmetadata, hpermissions⟩, fun h =>
    ⟨h.create, h.toStringPretty, h.writeAll, h.metadata, h.setPermissions⟩⟩

section

variable (sha512Crypt : Sha512Crypt)

/-- `add_user`: the index that it leaves, and what it returns. -/
def UserService.addUser (index : UserIndex chrono) (call : Registration chrono)
    (steps : WriteSteps) : UserIndex chrono × Except String Unit :=
  match index.addUser sha512Crypt call with
  | .error e => (index, .error e)
  | .ok index => (index, writeUserIndex steps)

/-- The checks refuse the call before anything is changed: a short name, a name that is taken, or no
password. -/
def Refused (index : UserIndex chrono) (call : Registration chrono) : Prop :=
  call.username.utf8ByteSize < 3 ∨ call.username ∈ index.users.map (·.name) ∨
    call.password.utf8ByteSize = 0

/-- A call that returns an error has changed neither the lists nor `next_id`, and if writing
failed it returns `Ok` when it is tried again and writing works. -/
def Atomic (index : UserIndex chrono) (call : Registration chrono) (steps : WriteSteps) : Prop :=
  ∀ e, (UserService.addUser sha512Crypt index call steps).2 = .error e →
    let after := (UserService.addUser sha512Crypt index call steps).1
    after.passwdAll = index.passwdAll ∧ after.shadowAll = index.shadowAll ∧
      after.nextId = index.nextId ∧
      (¬ Refused index call → ∀ retry : Registration chrono, retry.username = call.username →
        retry.password = call.password → ∀ steps' : WriteSteps, steps'.Working →
          (UserService.addUser sha512Crypt after retry steps').2 = .ok ())

end

section

variable {sha512Crypt : Sha512Crypt}

theorem mem_names_iff {index : UserIndex chrono} {username : String} :
    (index.users.any (·.name = username)) = true ↔ username ∈ index.users.map (·.name) := by
  simp [List.any_eq_true]

theorem addUser_of_refused {index : UserIndex chrono} {call : Registration chrono}
    (h : Refused index call) : ∃ e, index.addUser sha512Crypt call = .error e := by
  rw [Refused, ← mem_names_iff] at h
  unfold UserIndex.addUser
  split
  · exact ⟨_, rfl⟩
  · next hlong =>
    split
    · exact ⟨_, rfl⟩
    · next hnew =>
      rw [if_pos ((h.resolve_left hlong).resolve_left hnew)]
      exact ⟨_, rfl⟩

theorem addUser_of_not_refused {index : UserIndex chrono} {call : Registration chrono}
    (h : ¬ Refused index call) : index.addUser sha512Crypt call = .ok
      { users := index.users ++ [call.entry sha512Crypt index.nextId]
        nextId := index.nextId + 1 } := by
  rw [Refused, ← mem_names_iff, not_or, not_or] at h
  rw [UserIndex.addUser, if_neg h.1, if_neg h.2.1, if_neg h.2.2]

/-- **When a call is atomic.** -/
theorem atomic_iff (index : UserIndex chrono) (call : Registration chrono) (steps : WriteSteps) :
    Atomic sha512Crypt index call steps ↔ Refused index call ∨ steps.Working := by
  by_cases hrefused : Refused index call
  · obtain ⟨e, he⟩ : ∃ e, index.addUser sha512Crypt call = .error e := addUser_of_refused hrefused
    have hadd : UserService.addUser sha512Crypt index call steps = (index, .error e) := by
      rw [UserService.addUser, he]
    refine iff_of_true (fun e _ => ?_) (Or.inl hrefused)
    rw [hadd]
    exact ⟨rfl, rfl, rfl, absurd hrefused⟩
  · rw [or_iff_right hrefused, ← writeUserIndex_eq_ok]
    have hadd : UserService.addUser sha512Crypt index call steps =
        ({ users := index.users ++ [call.entry sha512Crypt index.nextId]
           nextId := index.nextId + 1 }, writeUserIndex steps) := by
      rw [UserService.addUser, addUser_of_not_refused hrefused]
    rw [Atomic, hadd]
    cases writeUserIndex steps with
    | ok => exact iff_of_true nofun rfl
    | error e =>
      -- the user is in the lists
      refine iff_of_false (fun h => ?_) nofun
      have hlength := congrArg List.length (h e rfl).1
      simp [UserIndex.passwdAll] at hlength

/-! ### The calls of `storage` -/

variable {serde : SerdeJson chrono} {s s₁ w w' : Storage chrono} {call : Registration chrono}

/-- A call that has started at `s` holds the lock, or has returned; with the error of the
checks if they refused it. -/
structure Storage.Calling (s s₁ : Storage chrono) (call : Registration chrono)
    (refused : Option String) (w : Storage chrono) : Prop where
  index_eq : w.index = s₁.index
  call_eq : (refused = none ∧ (∃ stage, w.writing = some (call, stage)) ∧
      w.returned = s.returned) ∨
    w.writing = none ∧ ∃ result, (∀ e, refused = some e → result = .error e) ∧
      w.returned = s.returned ++ [(call, result)]

variable {refused : Option String}

theorem Storage.Calling.finish (h : Storage.Calling s s₁ call refused w)
    {call' : Registration chrono} {stage : Writing} (hcall : w.writing = some (call', stage))
    (result : Except String Unit) :
    Storage.Calling s s₁ call refused (w.finish call' result) := by
  rcases h.call_eq with ⟨rfl, ⟨stage', hstage⟩, hreturned⟩ | ⟨hnone, -⟩
  · cases hcall.symm.trans hstage
    exact ⟨h.index_eq, Or.inr ⟨rfl, result, nofun, congrArg (· ++ [(call, result)]) hreturned⟩⟩
  · cases hnone.symm.trans hcall

theorem Storage.Calling.stage (h : Storage.Calling s s₁ call refused w)
    {call' : Registration chrono} {stage stage' : Writing}
    (hcall : w.writing = some (call', stage)) (disk : Option (List UInt8))
    (files : List TokioFile) :
    Storage.Calling s s₁ call refused { w with disk, files, writing := some (call', stage') } := by
  rcases h.call_eq with ⟨hrefused, ⟨stage'', hstage⟩, hreturned⟩ | ⟨hnone, -⟩
  · cases hcall.symm.trans hstage
    exact ⟨h.index_eq, Or.inl ⟨hrefused, ⟨stage', rfl⟩, hreturned⟩⟩
  · cases hnone.symm.trans hcall

theorem Storage.Calling.step (h : Storage.Calling s s₁ call refused w) {e : Storage.Event chrono}
    (hwithin : Within w e) (hstep : w.step sha512Crypt serde e = some w') :
    Storage.Calling s s₁ call refused w' := by
  cases e with
  | addUser call => exact hwithin.elim
  | restart => exact hwithin.elim
  | create result =>
    obtain ⟨call', hcall, ⟨-, rfl⟩ | ⟨e, -, rfl⟩⟩ := Storage.step_create hstep
    · exact h.stage hcall _ _
    · exact h.finish hcall _
  | write n =>
    obtain ⟨call', unwritten, file, files, hcall, -, hcases⟩ := Storage.step_write hstep
    rcases hcases with ⟨-, rfl⟩ | ⟨e, -, rfl⟩ | ⟨-, -, rfl⟩
    · exact h.stage hcall _ _
    · exact h.finish hcall _
    · exact h.stage hcall _ _
  | metadata result =>
    obtain ⟨call', hcall, ⟨-, rfl⟩ | ⟨e, -, rfl⟩⟩ := Storage.step_metadata hstep
    · exact h.stage hcall _ _
    · exact h.finish hcall _
  | setPermissions result =>
    obtain ⟨call', hcall, rfl⟩ := Storage.step_setPermissions hstep
    exact h.finish hcall _
  | land i n =>
    obtain ⟨file, -, -, rfl⟩ := Storage.step_land hstep
    exact ⟨h.index_eq, h.call_eq⟩
  | lost i e =>
    obtain ⟨file, -, -, rfl⟩ := Storage.step_lost hstep
    exact ⟨h.index_eq, h.call_eq⟩

theorem Storage.Calling.of_reach (h : Storage.Calling s s₁ call refused s₁)
    (hreach : (storageFrom sha512Crypt serde s₁).Reach Within w) :
    Storage.Calling s s₁ call refused w := by
  refine hreach.invariant (fun w hstart => ?_) fun w e w' hw hwithin hstep => hw.step hwithin hstep
  obtain rfl : w = s₁ := hstart
  exact h

/-- **The calls of `storage`**: when a call has returned, it has left the index and returned
the value of `add_user`, for some outcome of the steps of writing. -/
theorem Storage.returned_eq (hpushed : s.step sha512Crypt serde (.addUser call) = some s₁)
    (hreach : (storageFrom sha512Crypt serde s₁).Reach Within w) (hdone : w.writing = none) :
    ∃ steps result, w.returned = s.returned ++ [(call, result)] ∧
      UserService.addUser sha512Crypt s.index call steps = (w.index, result) := by
  obtain ⟨-, ⟨e, he, rfl⟩ | ⟨index, hindex, rfl⟩⟩ := Storage.step_addUser hpushed
  · have hcalling : Storage.Calling s (s.finish call (.error e)) call (some e) w :=
      .of_reach ⟨rfl, Or.inr ⟨rfl, _, fun _ h => by cases h; rfl, rfl⟩⟩ hreach
    obtain ⟨hnone, -⟩ | ⟨-, result, hresult, hreturned⟩ := hcalling.call_eq
    · cases hnone
    · refine ⟨⟨.ok (), .ok (), .ok (), .ok (), .ok ()⟩, result, hreturned, ?_⟩
      rw [UserService.addUser, he, hresult e rfl, hcalling.index_eq]
      rfl
  · have hcalling : Storage.Calling s { s with index, writing := some (call, .create) } call
        none w := .of_reach ⟨rfl, Or.inl ⟨rfl, ⟨_, rfl⟩, rfl⟩⟩ hreach
    obtain ⟨-, ⟨stage, hstage⟩, -⟩ | ⟨-, result, -, hreturned⟩ := hcalling.call_eq
    · cases hdone.symm.trans hstage
    · -- the first step fails, or none does
      refine ⟨⟨result, .ok (), .ok (), .ok (), .ok ()⟩, result, hreturned, ?_⟩
      rw [UserService.addUser, hindex, hcalling.index_eq]
      cases result <;> rfl

end

/-! ### A disk that is full -/

/-- `bob` registers while the index file cannot be created, and tries again. -/
theorem not_atomic_bob :
    ¬ Atomic bobCrypt (.default : UserIndex epoch) bob
        ⟨.error "No space left on device", .ok (), .ok (), .ok (), .ok ()⟩ ∧
      let after := (UserService.addUser bobCrypt .default bob
        ⟨.error "No space left on device", .ok (), .ok (), .ok (), .ok ()⟩).1
      (UserService.addUser bobCrypt after bob ⟨.ok (), .ok (), .ok (), .ok (), .ok ()⟩).2 =
        .error "User with the requested name already exists!" := by
  constructor
  · intro h
    have hlists := (h _ rfl).2.2.1
    revert hlists
    decide
  · rfl

end Server
end Lapas
