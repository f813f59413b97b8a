import Mathlib.Data.Nat.Notation
import Lapas.Rust
import Lapas.Library.Transition

/-!
# The lock of a temporary folder

A process that wants the folder of a bottle writes its id into a file there.  A file that is
there already is removed when its process is not running.

A file is opened by its name and used without it: another process may remove the name, or
create it again, in between.

## Main definitions

* `Phase`, `Proc`, `State` — the processes and the file.
* `State.lockStep`, `Event`, `lockMachine` — one step of `lock`, and the system.
* `Exclusive` — no two processes have the lock.
* `Current` — a process acts on a lock file that still is as it has been seen.
* `Inv` — what holds in every state of such runs.

## Main results

* `exclusive_of_reach` — **when nobody acts on an outdated look, the lock excludes.**
-/

namespace Lapas
namespace Guest
namespace TmpFolder

/-! ### The system -/

/-- In front of which call of `lock` a process is.  A file that it has opened has a number. -/
inductive Phase
  | outside
  /-- `os.path.isfile`. -/
  | called
  /-- `open(lockFilePath, "r")`. -/
  | found
  /-- `file.read`. -/
  | opened (file : ℕ)
  /-- `_checkIsPidRunning`. -/
  | hasRead (file lockPid : ℕ)
  /-- `os.remove`. -/
  | stale (file : ℕ)
  /-- `open(lockFilePath, "w")`. -/
  | absent
  /-- `file.write`. -/
  | created (file : ℕ)
  deriving DecidableEq, Repr

/-- A process of the user: where it is in `lock`, and whether it has been told that it holds the
lock. -/
structure Proc where
  phase : Phase
  /-- A call has returned. -/
  locked : Bool
  deriving DecidableEq, Repr

/-- The processes of the user, and the lock file as they see it.  Files have numbers, so that one
that has been removed and made again is another file. -/
structure State where
  /-- The processes of the user, by id. -/
  procs : ℕ → Option Proc
  lockFile : Option ℕ
  content : ℕ → Str
  /-- The number of the next file. -/
  next : ℕ

/-- `str(os.getpid())`, which is what a process writes into the lock file: the decimal digits. -/
def digits (pid : ℕ) : Str := Nat.toDigits 10 pid

/-- `int(text.strip())` of what the lock file holds: the number, or a `ValueError` for a text that
is none. -/
def int (text : Str) : Option ℕ :=
  if trim text ≠ [] ∧ (trim text).all Char.isDigit then some (Nat.ofDigitChars 10 (trim text) 0)
  else none

namespace State

variable (s : State)

/-- The state with another process under the id. -/
def setProc (pid : ℕ) (proc : Proc) : State :=
  { s with procs := Function.update s.procs pid (some proc) }

/-- `_checkIsPidRunning`: whether there is a process with the id.  It need not be the one that has
written it. -/
def checkIsPidRunning (pid : ℕ) : Bool := (s.procs pid).isSome

/-- A file is written from its start on. -/
def write (file : ℕ) (text : Str) : State :=
  { s with content := Function.update s.content file (text ++ (s.content file).drop text.length) }

/-- `open(lockFilePath, "w")`: an existing lock file is emptied, and else there is a new one. The
result is the file that is open. -/
def openW : ℕ × State :=
  match s.lockFile with
  | some file => (file, { s with content := Function.update s.content file [] })
  | none => (s.next,
      { s with
        lockFile := some s.next
        content := Function.update s.content s.next []
        next := s.next + 1 })

/-- The next step of `lock`.  A call that raises leaves it. -/
def lockStep (pid : ℕ) (proc : Proc) : Option State :=
  let raise := some (s.setProc pid { proc with phase := .outside })
  let goto := fun (s : State) phase => some (s.setProc pid { proc with phase := phase })
  match proc.phase with
  | .outside => none
  | .called => goto s (if s.lockFile.isSome then .found else .absent)
  | .found =>
    match s.lockFile with
    | some file => goto s (.opened file)
    | none => raise
  | .opened file =>
    match int (s.content file) with
    | some lockPid => goto s (.hasRead file lockPid)
    | none => raise
  | .hasRead file lockPid => if s.checkIsPidRunning lockPid then raise else goto s (.stale file)
  | .stale _ => if s.lockFile.isSome then goto { s with lockFile := none } .absent else raise
  | .absent => goto s.openW.2 (.created s.openW.1)
  | .created file => some ((s.write file (digits pid)).setProc pid ⟨.outside, true⟩)

end State

/-- The steps of the processes: one is started, exits, calls `lock` or takes its next step in it,
and a call of the system can fail. -/
inductive Event
  | start (pid : ℕ)
  | exit (pid : ℕ)
  | call (pid : ℕ)
  | step (pid : ℕ)
  /-- A call of the system fails. -/
  | fail (pid : ℕ)
  deriving DecidableEq, Repr

/-- One step of one process.  The processes interleave in any order. -/
def step (s : State) : Event → Option State
  | .start pid => if (s.procs pid).isSome then none else some (s.setProc pid ⟨.outside, false⟩)
  | .exit pid => some { s with procs := Function.update s.procs pid none }
  | .call pid =>
    match s.procs pid with
    | some ⟨.outside, locked⟩ => some (s.setProc pid ⟨.called, locked⟩)
    | _ => none
  | .step pid => (s.procs pid).bind (s.lockStep pid)
  | .fail pid => (s.procs pid).map fun proc => s.setProc pid { proc with phase := .outside }

/-- The processes and their lock file, from a start without both. -/
def lockMachine : Machine State Event where
  start s := s = ⟨fun _ => none, none, fun _ => [], 0⟩
  step := step

/-! ### Exclusion -/

/-- No two processes that run have returned from `lock`. -/
def Exclusive (s : State) : Prop :=
  ∀ pid pid' proc proc', s.procs pid = some proc → s.procs pid' = some proc' →
    proc.locked = true → proc'.locked = true → pid = pid'

/-- What a process has seen is still so when it acts: the file that it removes is the one that it
has read, and there is none when it creates one. -/
def Current (s : State) : Event → Prop
  | .step pid =>
    match (s.procs pid).map Proc.phase with
    | some (.stale file) => s.lockFile = none ∨ s.lockFile = some file
    | some .absent => s.lockFile = none
    | _ => True
  | _ => True

instance (s : State) (event : Event) : Decidable (Current s event) := by
  unfold Current
  split
  · split <;> infer_instance
  · infer_instance

/-! ### Numbers -/

theorem isWhitespace_of_isDigit {c : Char} (h : c.isDigit = true) : isWhitespace c = false := by
  have hrange : 48 ≤ c.toNat ∧ c.toNat ≤ 57 := by
    simpa [Char.isDigit, UInt32.le_iff_toNat_le] using h
  simp only [isWhitespace, List.contains_cons, List.contains_nil, Bool.or_eq_false_iff,
    Bool.and_eq_false_iff, decide_eq_false_iff_not, beq_eq_false_iff_ne, Bool.or_false]
  omega

theorem trim_of_forall {text : Str} (h : ∀ c ∈ text, isWhitespace c = false) :
    trim text = text := by
  have hdrop : ∀ t : Str, (∀ c ∈ t, isWhitespace c = false) → t.dropWhile isWhitespace = t := by
    intro t ht
    cases t with
    | nil => rfl
    | cons c t =>
      refine List.dropWhile_cons_of_neg ?_
      rw [ht c List.mem_cons_self]
      exact Bool.false_ne_true
  rw [trim, hdrop text h, hdrop text.reverse fun c hc => h c (List.mem_reverse.mp hc),
    List.reverse_reverse]

/-- A number is read back. -/
theorem int_digits (pid : ℕ) : int (digits pid) = some pid := by
  have hdigit : ∀ c ∈ digits pid, c.isDigit = true := fun c hc =>
    Nat.isDigit_of_mem_toDigits (by decide) (by decide) hc
  have htrim : trim (digits pid) = digits pid :=
    trim_of_forall fun c hc => isWhitespace_of_isDigit (hdigit c hc)
  rw [int, htrim, if_pos ⟨Nat.toDigits_ne_nil, List.all_eq_true.mpr hdigit⟩, digits,
    Nat.ofDigitChars_ten_toDigits]

/-! ### The invariant -/

/-- The file that a process has opened. -/
def Phase.file : Phase → Option ℕ
  | .opened file | .hasRead file _ | .stale file | .created file => some file
  | _ => none

/-- The process has the lock, or is about to write its id. -/
def Proc.Holds (proc : Proc) : Prop := proc.locked = true ∨ ∃ file, proc.phase = .created file

/-- What a process knows at each line: the files it has open exist, what it has read is still there,
and a stale lock has no owner. -/
structure Knows (s : State) (pid : ℕ) (proc : Proc) : Prop where
  opened : ∀ file, proc.phase.file = some file → file < s.next
  hasRead : ∀ file lockPid, proc.phase = .hasRead file lockPid → int (s.content file) = some lockPid
  /-- The owner of a stale file has exited. -/
  stale : ∀ file, proc.phase = .stale file → s.lockFile = some file →
    ∀ pid' proc', s.procs pid' = some proc' → ¬ proc'.Holds
  created : ∀ file, proc.phase = .created file → s.lockFile = some file ∧ s.content file = []
  locked : proc.locked = true → ∃ file, s.lockFile = some file ∧ s.content file = digits pid

/-- What holds in every state that is reached: what is known of each process is true, and at most
one process holds the lock or is about to write its id. -/
structure Inv (s : State) : Prop where
  lockFile : ∀ file, s.lockFile = some file → file < s.next
  knows : ∀ pid proc, s.procs pid = some proc → Knows s pid proc
  unique : ∀ pid pid' proc proc', s.procs pid = some proc → s.procs pid' = some proc' →
    proc.Holds → proc'.Holds → pid = pid'

section

variable {s : State} {pid : ℕ} {proc : Proc}

theorem Inv.exclusive (h : Inv s) : Exclusive s :=
  fun pid pid' proc proc' hproc hproc' hlocked hlocked' =>
    h.unique pid pid' proc proc' hproc hproc' (Or.inl hlocked) (Or.inl hlocked')

/-- Who holds the lock has a file there. -/
theorem Knows.lockFile_ne_none (h : Knows s pid proc) (hholds : proc.Holds) :
    s.lockFile ≠ none := by
  rcases hholds with hlocked | ⟨file, hcreated⟩
  · obtain ⟨file, hfile, -⟩ := h.locked hlocked
    rw [hfile]
    exact fun heq => nomatch heq
  · rw [(h.created file hcreated).1]
    exact fun heq => nomatch heq

/-- A step in which only one process changes, and does not get the lock. -/
theorem Inv.update (h : Inv s) (pid : ℕ) (new : Option Proc)
    (hholds : ∀ proc, new = some proc → proc.Holds → ∃ old, s.procs pid = some old ∧ old.Holds)
    (hknows : ∀ proc, new = some proc → Knows s pid proc) :
    Inv { s with procs := Function.update s.procs pid new } := by
  have hold : ∀ pid' proc', Function.update s.procs pid new pid' = some proc' → proc'.Holds →
      ∃ old, s.procs pid' = some old ∧ old.Holds := by
    intro pid' proc' hproc' hholds'
    by_cases hpid : pid' = pid
    · rw [hpid, Function.update_self] at hproc'
      rw [hpid]
      exact hholds proc' hproc' hholds'
    · rw [Function.update_of_ne hpid] at hproc'
      exact ⟨proc', hproc', hholds'⟩
  refine ⟨h.lockFile, fun pid' proc' hproc' => ?_, fun p q P Q hP hQ hPholds hQholds => ?_⟩
  · change Function.update s.procs pid new pid' = some proc' at hproc'
    have hknows' : Knows s pid' proc' := by
      by_cases hpid : pid' = pid
      · rw [hpid] at hproc' ⊢
        rw [Function.update_self] at hproc'
        exact hknows proc' hproc'
      · rw [Function.update_of_ne hpid] at hproc'
        exact h.knows pid' proc' hproc'
    refine ⟨hknows'.opened, hknows'.hasRead, fun file hstale hfile q Q hQ hQholds => ?_,
      hknows'.created, hknows'.locked⟩
    obtain ⟨old, hold, hholds⟩ := hold q Q hQ hQholds
    exact hknows'.stale file hstale hfile q old hold hholds
  · obtain ⟨oldP, holdP, hPold⟩ := hold p P hP hPholds
    obtain ⟨oldQ, holdQ, hQold⟩ := hold q Q hQ hQholds
    exact h.unique p q oldP oldQ holdP holdQ hPold hQold

/-- A step in `lock` that leaves the file alone. -/
theorem Inv.goto (h : Inv s) (hproc : s.procs pid = some proc) {phase : Phase}
    (hopened : ∀ file, phase.file = some file → file < s.next)
    (hread : ∀ file lockPid, phase = .hasRead file lockPid → int (s.content file) = some lockPid)
    (hstale : ∀ file, phase = .stale file → s.lockFile = some file →
      ∀ pid' proc', s.procs pid' = some proc' → ¬ proc'.Holds)
    (hcreated : ∀ file, phase ≠ .created file) :
    Inv (s.setProc pid { proc with phase := phase }) := by
  refine h.update pid (some { proc with phase := phase }) (fun new hnew hholds => ?_)
    fun new hnew => ?_
  · obtain rfl := Option.some.inj hnew
    refine ⟨proc, hproc, Or.inl (hholds.resolve_right ?_)⟩
    rintro ⟨file, heq⟩
    exact hcreated file heq
  · obtain rfl := Option.some.inj hnew
    exact ⟨hopened, hread, hstale, fun file heq => absurd heq (hcreated file),
      (h.knows pid proc hproc).locked⟩

/-- A step to a place in `lock` where nothing is known. -/
theorem Inv.goto_plain (h : Inv s) (hproc : s.procs pid = some proc) {phase : Phase}
    (hplain : phase.file = none) : Inv (s.setProc pid { proc with phase := phase }) := by
  have hne : ∀ {other : Phase} {file}, other.file = some file → phase ≠ other := by
    rintro other file hother rfl
    rw [hplain] at hother
    cases hother
  refine h.goto hproc (fun file hfile => ?_) (fun file lockPid heq => absurd heq (hne rfl))
    (fun file heq => absurd heq (hne rfl)) fun file => hne rfl
  rw [hplain] at hfile
  cases hfile

/-- The process of a file that is held runs. -/
theorem Inv.checkIsPidRunning (h : Inv s) {file lockPid pid' : ℕ} {proc' : Proc}
    (hread : int (s.content file) = some lockPid) (hfile : s.lockFile = some file)
    (hproc' : s.procs pid' = some proc') (hholds : proc'.Holds) :
    s.checkIsPidRunning lockPid = true := by
  have hknows := h.knows pid' proc' hproc'
  rcases hholds with hlocked | ⟨file', hcreated⟩
  · obtain ⟨file', hfile', hcontent⟩ := hknows.locked hlocked
    obtain rfl := Option.some.inj (hfile.symm.trans hfile')
    rw [hcontent, int_digits] at hread
    rw [State.checkIsPidRunning, ← Option.some.inj hread, hproc']
    rfl
  · -- Nothing can be read before the id has been written.
    obtain ⟨hfile', hcontent⟩ := hknows.created file' hcreated
    obtain rfl := Option.some.inj (hfile.symm.trans hfile')
    have hempty : int [] = none := rfl
    rw [hcontent, hempty] at hread
    cases hread

/-- When nobody holds the lock, its file may be removed. -/
theorem Inv.remove (h : Inv s) (hproc : s.procs pid = some proc)
    (hnobody : ∀ pid' proc', s.procs pid' = some proc' → ¬ proc'.Holds) :
    Inv (({ s with lockFile := none } : State).setProc pid { proc with phase := .absent }) := by
  have hremoved : Inv { s with lockFile := none } := by
    refine ⟨fun _ heq => (nomatch heq), fun pid' proc' hproc' => ?_, h.unique⟩
    have hknows := h.knows pid' proc' hproc'
    refine ⟨hknows.opened, hknows.hasRead, fun _ _ heq => (nomatch heq), fun file heq => ?_,
      fun hlocked => ?_⟩
    · exact absurd (Or.inr ⟨file, heq⟩) (hnobody pid' proc' hproc')
    · exact absurd (Or.inl hlocked) (hnobody pid' proc' hproc')
  exact hremoved.goto_plain hproc rfl

/-- A step with which a process gets a file, when nobody else has to do with it. -/
theorem Inv.take (h : Inv s) {s' : State} {new : Proc} {file : ℕ}
    (hprocs : s'.procs = Function.update s.procs pid (some new))
    (hfile : s'.lockFile = some file) (hlt : file < s'.next) (hle : s.next ≤ s'.next)
    (hcontent : ∀ other, other ≠ file → s'.content other = s.content other)
    (hothers : ∀ pid' proc', pid' ≠ pid → s.procs pid' = some proc' → ¬ proc'.Holds ∧
      proc'.phase ≠ .stale file ∧ ∀ lockPid, proc'.phase ≠ .hasRead file lockPid)
    (hknows : Knows s' pid new) : Inv s' := by
  have hold : ∀ {pid' proc'}, pid' ≠ pid → s'.procs pid' = some proc' →
      s.procs pid' = some proc' := fun {pid' proc'} hpid hproc' => by
    rwa [hprocs, Function.update_of_ne hpid] at hproc'
  have hself : ∀ {proc'}, s'.procs pid = some proc' → proc' = new := fun {proc'} hproc' => by
    rw [hprocs, Function.update_self] at hproc'
    exact (Option.some.inj hproc').symm
  refine ⟨fun other heq => ?_, fun pid' proc' hproc' => ?_, fun p q P Q hP hQ hPholds hQholds => ?_⟩
  · rw [← Option.some.inj (hfile.symm.trans heq)]
    exact hlt
  · by_cases hpid : pid' = pid
    · subst hpid
      rwa [hself hproc']
    · have hknows' := h.knows pid' proc' (hold hpid hproc')
      obtain ⟨hnot, hstale, hread⟩ := hothers pid' proc' hpid (hold hpid hproc')
      refine ⟨fun other heq => Nat.lt_of_lt_of_le (hknows'.opened other heq) hle,
        fun other lockPid heq => ?_, fun other heq hother => ?_,
        fun other heq => absurd (Or.inr ⟨other, heq⟩) hnot,
        fun hlocked => absurd (Or.inl hlocked) hnot⟩
      · rw [hcontent other fun hother => hread lockPid (hother ▸ heq)]
        exact hknows'.hasRead other lockPid heq
      · rw [← Option.some.inj (hfile.symm.trans hother)] at heq
        exact absurd heq hstale
  · have honly : ∀ {p P}, s'.procs p = some P → P.Holds → p = pid := fun {p P} hP hholds => by
      by_contra hpid
      exact (hothers p P hpid (hold hpid hP)).1 hholds
    rw [honly hP hPholds, honly hQ hQholds]

/-- When there is no file, one may be created. -/
theorem Inv.create (h : Inv s) (hproc : s.procs pid = some proc) (hnone : s.lockFile = none) :
    Inv (s.openW.2.setProc pid { proc with phase := .created s.openW.1 }) := by
  have hnobody : ∀ pid' proc', s.procs pid' = some proc' → ¬ proc'.Holds :=
    fun pid' proc' hproc' hholds => (h.knows pid' proc' hproc').lockFile_ne_none hholds hnone
  have hopen : s.openW = (s.next,
      { s with
        lockFile := some s.next
        content := Function.update s.content s.next []
        next := s.next + 1 }) := by rw [State.openW, hnone]
  rw [hopen]
  refine h.take rfl rfl (Nat.lt_succ_self _) (Nat.le_succ _)
    (fun other hother => Function.update_of_ne hother _ _) (fun pid' proc' _ hproc' => ?_) ?_
  · -- The number of the file is new.
    have hfresh : ∀ phase, phase.file = some s.next → proc'.phase ≠ phase := by
      rintro phase hfile rfl
      exact absurd ((h.knows pid' proc' hproc').opened _ hfile) (Nat.lt_irrefl _)
    exact ⟨hnobody pid' proc' hproc', hfresh _ rfl, fun lockPid => hfresh _ rfl⟩
  · refine ⟨fun file hfile => ?_, fun _ _ heq => (nomatch heq), fun _ heq => (nomatch heq),
      fun file heq => ?_, fun hlocked => absurd (Or.inl hlocked) (hnobody pid proc hproc)⟩
    · rw [← Option.some.inj hfile]
      exact Nat.lt_succ_self _
    · cases heq
      exact ⟨rfl, Function.update_self ..⟩

/-- Who has created the file writes its id there. -/
theorem Inv.write (h : Inv s) (hproc : s.procs pid = some proc) {file : ℕ}
    (hphase : proc.phase = .created file) :
    Inv ((s.write file (digits pid)).setProc pid ⟨.outside, true⟩) := by
  have hholds : proc.Holds := Or.inr ⟨file, hphase⟩
  obtain ⟨hfile, hempty⟩ := (h.knows pid proc hproc).created file hphase
  refine h.take rfl hfile (h.lockFile file hfile) (Nat.le_refl _)
    (fun other hother => Function.update_of_ne hother _ _) (fun pid' proc' hpid hproc' => ?_) ?_
  · have hknows := h.knows pid' proc' hproc'
    refine ⟨fun hholds' => hpid (h.unique pid' pid proc' proc hproc' hproc hholds' hholds),
      fun heq => hknows.stale file heq hfile pid proc hproc hholds, fun lockPid heq => ?_⟩
    have hread := hknows.hasRead file lockPid heq
    have hnone : int [] = none := rfl
    rw [hempty, hnone] at hread
    cases hread
  · refine ⟨fun _ heq => (nomatch heq), fun _ _ heq => (nomatch heq), fun _ heq => (nomatch heq),
      fun _ heq => (nomatch heq), fun _ => ⟨file, hfile, ?_⟩⟩
    show Function.update s.content file _ file = _
    rw [Function.update_self, hempty, List.drop_nil, List.append_nil]

theorem Inv.lockStep (h : Inv s) (hproc : s.procs pid = some proc)
    (hcurrent : match some proc.phase with
      | some (.stale file) => s.lockFile = none ∨ s.lockFile = some file
      | some .absent => s.lockFile = none
      | _ => True) {s' : State} (hlock : s.lockStep pid proc = some s') : Inv s' := by
  have hknows := h.knows pid proc hproc
  -- by where the process is in `lock`; only the last three steps change the file
  cases hphase : proc.phase with
  | outside =>
    simp only [State.lockStep, hphase] at hlock
    cases hlock
  | called =>
    simp only [State.lockStep, hphase] at hlock
    obtain rfl := Option.some.inj hlock
    refine h.goto_plain hproc ?_
    split <;> rfl
  | found =>
    simp only [State.lockStep, hphase] at hlock
    cases hfile : s.lockFile with
    | none =>
      rw [hfile] at hlock
      obtain rfl := Option.some.inj hlock
      exact h.goto_plain hproc rfl
    | some file =>
      rw [hfile] at hlock
      obtain rfl := Option.some.inj hlock
      refine h.goto hproc (fun other heq => ?_) (fun _ _ heq => (nomatch heq))
        (fun _ heq => (nomatch heq)) fun _ heq => (nomatch heq)
      exact h.lockFile other (hfile.trans heq)
  | opened file =>
    simp only [State.lockStep, hphase] at hlock
    cases hread : int (s.content file) with
    | none =>
      rw [hread] at hlock
      obtain rfl := Option.some.inj hlock
      exact h.goto_plain hproc rfl
    | some lockPid =>
      rw [hread] at hlock
      obtain rfl := Option.some.inj hlock
      refine h.goto hproc (fun other heq => ?_) (fun other n heq => ?_)
        (fun _ heq => (nomatch heq)) fun _ heq => (nomatch heq)
      · exact hknows.opened other (by rw [hphase]; exact heq)
      · cases heq
        exact hread
  | hasRead file lockPid =>
    simp only [State.lockStep, hphase] at hlock
    split at hlock
    · obtain rfl := Option.some.inj hlock
      exact h.goto_plain hproc rfl
    · rename_i hrunning
      obtain rfl := Option.some.inj hlock
      refine h.goto hproc (fun other heq => ?_) (fun _ _ heq => (nomatch heq))
        (fun other heq hfile pid' proc' hproc' hholds => hrunning ?_) fun _ heq => (nomatch heq)
      · exact hknows.opened other (by rw [hphase]; exact heq)
      · cases heq
        -- an owner that held the lock would be running
        exact h.checkIsPidRunning (hknows.hasRead file lockPid hphase) hfile hproc' hholds
  | stale file =>
    rw [hphase] at hcurrent
    simp only [State.lockStep, hphase] at hlock
    -- the file is the one that was read, or somebody has removed it
    rcases hcurrent with hnone | hfile
    · rw [hnone, Option.isSome_none, if_neg Bool.false_ne_true] at hlock
      obtain rfl := Option.some.inj hlock
      exact h.goto_plain hproc rfl
    · rw [hfile, Option.isSome_some, if_pos rfl] at hlock
      obtain rfl := Option.some.inj hlock
      exact h.remove hproc (hknows.stale file hphase hfile)
  | absent =>
    rw [hphase] at hcurrent
    simp only [State.lockStep, hphase] at hlock
    obtain rfl := Option.some.inj hlock
    exact h.create hproc hcurrent
  | created file =>
    simp only [State.lockStep, hphase] at hlock
    obtain rfl := Option.some.inj hlock
    exact h.write hproc hphase

/-- The invariant is kept by the steps that do not act on an outdated look. -/
theorem Inv.step (h : Inv s) {event : Event} {s' : State} (hcurrent : Current s event)
    (hstep : step s event = some s') : Inv s' := by
  cases event with
  | start pid =>
    rw [TmpFolder.step] at hstep
    split at hstep
    · cases hstep
    · obtain rfl := Option.some.inj hstep
      -- a process that has just started holds nothing and knows nothing
      have hnot : ¬ (⟨.outside, false⟩ : Proc).Holds := by
        rintro (hlocked | ⟨file, hcreated⟩)
        · cases hlocked
        · cases hcreated
      refine h.update pid _ (fun proc hproc hholds => ?_) fun proc hproc => ?_
      · exact absurd (Option.some.inj hproc ▸ hholds) hnot
      · obtain rfl := Option.some.inj hproc
        exact ⟨fun _ heq => (nomatch heq), fun _ _ heq => (nomatch heq),
          fun _ heq => (nomatch heq), fun _ heq => (nomatch heq), fun heq => (nomatch heq)⟩
  | exit pid =>
    obtain rfl := Option.some.inj hstep
    exact h.update pid none (fun _ hproc => (nomatch hproc)) fun _ hproc => (nomatch hproc)
  | call pid =>
    rw [TmpFolder.step] at hstep
    split at hstep
    · rename_i locked hproc
      obtain rfl := Option.some.inj hstep
      exact h.goto_plain hproc rfl
    · cases hstep
  | fail pid =>
    obtain ⟨proc, hproc, rfl⟩ := Option.map_eq_some_iff.mp hstep
    exact h.goto_plain hproc rfl
  | step pid =>
    obtain ⟨proc, hproc, hlock⟩ := Option.bind_eq_some_iff.mp hstep
    rw [Current, hproc] at hcurrent
    exact h.lockStep hproc hcurrent hlock

/-- **When nobody acts on an outdated look, the lock excludes.** -/
theorem exclusive_of_reach (h : lockMachine.Reach Current s) : Exclusive s := by
  refine Inv.exclusive (h.invariant ?_ fun s event s' hs hcurrent hstep =>
    hs.step hcurrent hstep)
  rintro s rfl
  exact ⟨fun _ heq => (nomatch heq), fun _ _ heq => (nomatch heq), fun _ _ _ _ heq => (nomatch heq)⟩

end

/-! ### Two starters -/

/-- A user without processes and without a lock file. -/
def noProcs : State := ⟨fun _ => none, none, fun _ => [], 0⟩

/-- The process 7 has the lock and exits; the process 8 removes its file, and gets the lock. -/
def staleRun : List Event :=
  [.start 7, .call 7, .step 7, .step 7, .step 7, .exit 7, .start 8, .call 8] ++
    List.replicate 7 (.step 8)

/-- Neither process sees a file, and both write one. -/
def doubleRun : List Event :=
  [.start 7, .start 8, .call 7, .call 8, .step 7, .step 8, .step 7, .step 7, .step 8, .step 8]

theorem exclusive_staleRun :
    ∃ s, lockMachine.run noProcs staleRun = some s ∧ s.procs 8 = some ⟨.outside, true⟩ ∧
      Exclusive s := by
  have hrun : (lockMachine.run noProcs staleRun).isSome = true := rfl
  have hallowed : staleRun.foldlM (fun s e => if Current s e then step s e else none) noProcs =
      some ((lockMachine.run noProcs staleRun).get hrun) := rfl
  exact ⟨_, (Option.some_get hrun).symm, rfl,
    exclusive_of_reach (Machine.reach_of_run_allowed (.start rfl) hallowed)⟩

theorem not_exclusive_doubleRun :
    ¬ ∀ s, lockMachine.Reach (fun _ _ => True) s → Exclusive s := by
  intro h
  have hrun : (lockMachine.run noProcs doubleRun).isSome = true := rfl
  have hreach : lockMachine.Reach (fun _ _ => True)
      ((lockMachine.run noProcs doubleRun).get hrun) :=
    Machine.reach_of_run (.start rfl) (Option.some_get hrun).symm
  exact absurd (h _ hreach 7 8 ⟨.outside, true⟩ ⟨.outside, true⟩ rfl rfl rfl rfl) (by decide)

end TmpFolder
end Guest
end Lapas
