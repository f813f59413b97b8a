import Mathlib.Algebra.Group.Nat.Defs
import Mathlib.Data.List.Basic
import Mathlib.Data.Nat.Notation
import Mathlib.Tactic.Common

/-!
# Reading a byte stream

A decoder is a program that asks for exactly so many bytes, again and again, and in the end
returns a value or fails.  `Reads p bs a` says that `p` takes exactly the bytes `bs` and
returns `a`; it is compositional, and what a program does on any input follows from it.

* `Reader`, `Reader.run` — the programs, and running them on the bytes that have arrived.
* `Reader.Reads` — a program takes exactly these bytes.
* `run_eq_ok_iff`, `run_append_of_reads`, `run_prefix_of_reads` — more input changes
  nothing, and less input fails.
* `Reader.resume`, `resume_append`, `resume_of_reads` — input that arrives in pieces.
* `toBigEndian`, `ofBigEndian` — big-endian words.
-/

namespace Lapas

/-- A program that reads bytes, as a tree: it returns, fails, or reads a number of bytes and goes on
with what it has read. -/
inductive Reader (ε α : Type) where
  /-- Return a value. -/
  | pure (a : α)
  /-- Fail for a reason of its own. -/
  | fail (e : ε)
  /-- Read exactly `n` bytes. -/
  | exact (n : ℕ) (next : List UInt8 → Reader ε α)

/-- Why reading ended without a value: the input is too short, or the program has failed by
itself. -/
inductive Ended (ε : Type) where
  /-- The input has ended within a read. -/
  | eof
  | fail (e : ε)
  deriving DecidableEq

namespace Reader

variable {ε α β : Type}

/-- One reader after another one, with what the first has read. -/
def bind : Reader ε α → (α → Reader ε β) → Reader ε β
  | pure a, f => f a
  | fail e, _ => fail e
  | exact n next, f => exact n fun bs => (next bs).bind f

instance : Monad (Reader ε) where
  pure := Reader.pure
  bind := Reader.bind

/-- Running a program on all of the input; what it has not read is left. -/
def run : Reader ε α → List UInt8 → Except (Ended ε) (α × List UInt8)
  | pure a, bs => .ok (a, bs)
  | fail e, _ => .error (.fail e)
  | exact n next, bs =>
    if n ≤ bs.length then (next (bs.take n)).run (bs.drop n) else .error .eof

/-- The program takes exactly these bytes and returns the value. -/
def Reads (p : Reader ε α) (bs : List UInt8) (a : α) : Prop := p.run bs = .ok (a, [])

/-- The same program `n` times over, with the values in order; the number of the values is kept in
the type. -/
def replicate (p : Reader ε α) : (n : ℕ) → Reader ε {as : List α // as.length = n}
  | 0 => pure ⟨[], rfl⟩
  | n + 1 => do
    let a ← p
    let as ← replicate p n
    return ⟨a :: as.1, by rw [List.length_cons, as.2]⟩

theorem bind_pure' (p : Reader ε α) : p.bind Reader.pure = p := by
  induction p with
  | pure a => rfl
  | fail e => rfl
  | exact n next ih =>
    rw [bind]
    exact congrArg (exact n) (funext ih)

theorem bind_assoc' {γ : Type} (p : Reader ε α) (f : α → Reader ε β) (g : β → Reader ε γ) :
    (p.bind f).bind g = p.bind fun a => (f a).bind g := by
  induction p with
  | pure a => rfl
  | fail e => rfl
  | exact n next ih =>
    rw [bind, bind, bind]
    exact congrArg (exact n) (funext ih)

instance : LawfulMonad (Reader ε) := .mk' _ bind_pure' (fun _ _ => rfl) bind_assoc'

/-! ### Running on more input and on less -/

/-- A program that returns has taken a part of the input, and would take that part of any
other input too. -/
theorem run_eq_ok_iff {p : Reader ε α} {bs rest : List UInt8} {a : α} :
    p.run bs = .ok (a, rest) ↔ ∃ taken, bs = taken ++ rest ∧ p.Reads taken a := by
  induction p generalizing bs with
  | pure a' =>
    simp only [run, Reads, Except.ok.injEq, Prod.mk.injEq]
    constructor
    · rintro ⟨rfl, rfl⟩
      exact ⟨[], rfl, rfl, rfl⟩
    · rintro ⟨taken, rfl, rfl, rfl⟩
      exact ⟨rfl, rfl⟩
  | fail e => simp [run, Reads]
  | exact n next ih =>
    unfold Reads
    rw [run]
    constructor
    · intro h
      split at h
      · next hn =>
        obtain ⟨taken, hdrop, htaken⟩ := (ih _).mp h
        -- the program has taken the `n` bytes of this read and what the rest of it takes
        have hlen : (bs.take n).length = n := by rw [List.length_take]; omega
        refine ⟨bs.take n ++ taken, ?_, ?_⟩
        · rw [List.append_assoc, ← hdrop, List.take_append_drop]
        · rw [run, if_pos (by rw [List.length_append, hlen]; omega), List.take_left' hlen,
            List.drop_left' hlen]
          exact htaken
      · cases h
    · rintro ⟨taken, rfl, h⟩
      rw [run] at h
      split at h
      · next hn =>
        rw [if_pos (by rw [List.length_append]; omega), List.take_append_of_le_length hn,
          List.drop_append_of_le_length hn]
        exact (ih _).mpr ⟨taken.drop n, rfl, h⟩
      · cases h

/-- More input is left over. -/
theorem run_append_of_reads {p : Reader ε α} {bs : List UInt8} {a : α} (h : p.Reads bs a)
    (rest : List UInt8) : p.run (bs ++ rest) = .ok (a, rest) :=
  run_eq_ok_iff.mpr ⟨bs, rfl, h⟩

/-- **Prefix freeness**: on less than the bytes it takes, a program fails. -/
theorem run_prefix_of_reads {p : Reader ε α} {bs : List UInt8} {a : α} (h : p.Reads bs a)
    {part : List UInt8} (hpart : part <+: bs) (hne : part ≠ bs) : ∃ e, p.run part = .error e := by
  cases hrun : p.run part with
  | error e => exact ⟨e, rfl⟩
  | ok result =>
    obtain ⟨a', rest⟩ := result
    obtain ⟨taken, rfl, htaken⟩ := run_eq_ok_iff.mp hrun
    obtain ⟨more, rfl⟩ := hpart
    -- on the whole input it would have stopped at the same place
    have hall : p.run ((taken ++ rest) ++ more) = .ok (a', rest ++ more) := by
      rw [List.append_assoc]
      exact run_append_of_reads htaken _
    rw [h, Except.ok.injEq, Prod.mk.injEq] at hall
    have hnil := List.append_eq_nil_iff.mp hall.2.symm
    rw [hnil.2, List.append_nil] at hne
    exact absurd rfl hne

/-! ### What programs take -/

@[simp] theorem reads_pure {a a' : α} {bs : List UInt8} :
    (Pure.pure a : Reader ε α).Reads bs a' ↔ bs = [] ∧ a' = a := by
  show Except.ok (a, bs) = Except.ok (a', []) ↔ _
  rw [Except.ok.injEq, Prod.mk.injEq, and_comm, eq_comm (a := a)]

@[simp] theorem reads_fail {e : ε} {a : α} {bs : List UInt8} :
    (fail e : Reader ε α).Reads bs a ↔ False := by
  simp [Reads, run]

theorem reads_exact {n : ℕ} {next : List UInt8 → Reader ε α} {bs : List UInt8} {a : α} :
    (exact n next).Reads bs a ↔
      ∃ front back, bs = front ++ back ∧ front.length = n ∧ (next front).Reads back a := by
  unfold Reads
  rw [run]
  constructor
  · intro h
    split at h
    · next hn =>
      refine ⟨bs.take n, bs.drop n, (List.take_append_drop n bs).symm, ?_, h⟩
      rw [List.length_take]
      omega
    · cases h
  · rintro ⟨front, back, rfl, rfl, h⟩
    rw [if_pos (by rw [List.length_append]; omega), List.take_left, List.drop_left]
    exact h

theorem reads_bind {p : Reader ε α} {f : α → Reader ε β} {bs : List UInt8} {b : β} :
    (p >>= f).Reads bs b ↔
      ∃ front back a, bs = front ++ back ∧ p.Reads front a ∧ (f a).Reads back b := by
  show (p.bind f).Reads bs b ↔ _
  induction p generalizing bs with
  | pure a =>
    constructor
    · intro h
      exact ⟨[], bs, a, rfl, rfl, h⟩
    · rintro ⟨front, back, a', rfl, hfront, hback⟩
      obtain ⟨rfl, rfl⟩ := reads_pure.mp hfront
      exact hback
  | fail e => simp [bind]
  | exact n next ih =>
    rw [bind, reads_exact]
    constructor
    · rintro ⟨front, back, rfl, hlen, h⟩
      obtain ⟨front', back', a, rfl, hfront', hback'⟩ := (ih _).mp h
      exact ⟨front ++ front', back', a, (List.append_assoc _ _ _).symm,
        reads_exact.mpr ⟨front, front', rfl, hlen, hfront'⟩, hback'⟩
    · rintro ⟨front, back, a, rfl, hfront, hback⟩
      obtain ⟨front', back', rfl, hlen, h⟩ := reads_exact.mp hfront
      exact ⟨front', back' ++ back, List.append_assoc _ _ _, hlen,
        (ih _).mpr ⟨back', back, a, rfl, h, hback⟩⟩

/-- One program behind another. -/
theorem Reads.bind {p : Reader ε α} {f : α → Reader ε β} {bs bs' : List UInt8} {a : α} {b : β}
    (h : p.Reads bs a) (h' : (f a).Reads bs' b) : (p >>= f).Reads (bs ++ bs') b :=
  reads_bind.mpr ⟨bs, bs', a, rfl, h, h'⟩

/-- A program whose last step only builds the value. -/
theorem Reads.map {p : Reader ε α} {f : α → β} {bs : List UInt8} {a : α} (h : p.Reads bs a) :
    (p >>= fun a => Pure.pure (f a)).Reads bs (f a) := by
  rw [← List.append_nil bs]
  exact h.bind (reads_pure.mpr ⟨rfl, rfl⟩)

/-- A repeated program takes the bytes of the elements one after the other. -/
theorem reads_replicate {p : Reader ε α} {bytes : α → List UInt8} {as : List α}
    (h : ∀ a ∈ as, p.Reads (bytes a) a) :
    (replicate p as.length).Reads (as.flatMap bytes) ⟨as, rfl⟩ := by
  induction as with
  | nil => exact reads_pure.mpr ⟨rfl, rfl⟩
  | cons a as ih =>
    rw [List.flatMap_cons]
    show (replicate p (as.length + 1)).Reads _ _
    refine (h a List.mem_cons_self).bind ?_
    exact (ih fun a' ha' => h a' (List.mem_cons_of_mem a ha')).map (f := fun as' =>
      (⟨a :: as'.1, by rw [List.length_cons, as'.2]⟩ : {l : List α // l.length = as.length + 1}))

/-- What a repeated program takes, when each element determines its bytes. -/
theorem bytes_of_reads_replicate {p : Reader ε α} {bytes : α → List UInt8} {n : ℕ}
    {as : {as : List α // as.length = n}} {bs : List UInt8}
    (hbytes : ∀ a ∈ as.1, ∀ bs, p.Reads bs a → bytes a = bs)
    (h : (replicate p n).Reads bs as) : as.1.flatMap bytes = bs := by
  induction n generalizing bs with
  | zero =>
    obtain ⟨rfl, rfl⟩ := reads_pure.mp h
    rfl
  | succ n ih =>
    rw [replicate] at h
    obtain ⟨front, back, a, rfl, hfront, h⟩ := reads_bind.mp h
    obtain ⟨middle, back, as', rfl, hmiddle, h⟩ := reads_bind.mp h
    obtain ⟨rfl, rfl⟩ := reads_pure.mp h
    rw [List.flatMap_cons, List.append_nil, hbytes a List.mem_cons_self front hfront,
      ih (fun a' ha' => hbytes a' (List.mem_cons_of_mem a ha')) hmiddle]

/-! ### Reading in pieces -/

/-- Running a program on what has arrived so far.  What it has taken of an unfinished read
becomes part of the program that is left. -/
def resume : Reader ε α → List UInt8 → Reader ε α × List UInt8
  | exact n next, bs =>
    if n ≤ bs.length then (next (bs.take n)).resume (bs.drop n)
    else (exact (n - bs.length) fun more => next (bs ++ more), [])
  | p, bs => (p, bs)

@[simp] theorem resume_pure (a : α) (bs : List UInt8) :
    (pure a : Reader ε α).resume bs = (pure a, bs) := rfl

@[simp] theorem resume_fail (e : ε) (bs : List UInt8) :
    (fail e : Reader ε α).resume bs = (fail e, bs) := rfl

/-- A program that has not ended waits for at least one byte, and nothing is left. -/
theorem resume_exact {p : Reader ε α} {bs rest : List UInt8} {n : ℕ}
    {next : List UInt8 → Reader ε α} (h : p.resume bs = (exact n next, rest)) :
    rest = [] ∧ 0 < n := by
  induction p generalizing bs with
  | pure a => cases h
  | fail e => cases h
  | exact n' next' ih =>
    rw [resume] at h
    split at h
    · exact ih _ h
    · next hn =>
      simp only [Prod.mk.injEq, exact.injEq] at h
      exact ⟨h.2.symm, by omega⟩

/-- Pieces can be put together. -/
theorem resume_append (p : Reader ε α) (bs bs' : List UInt8) :
    p.resume (bs ++ bs') = (p.resume bs).1.resume ((p.resume bs).2 ++ bs') := by
  induction p generalizing bs with
  | pure a => rfl
  | fail e => rfl
  | exact n next ih =>
    by_cases hn : n ≤ bs.length
    · have hn' : n ≤ (bs ++ bs').length := by
        rw [List.length_append]
        omega
      rw [resume, resume, if_pos hn, if_pos hn', List.take_append_of_le_length hn,
        List.drop_append_of_le_length hn]
      exact ih _ _
    -- the first piece ends within this read, and the second may end it
    · rw [resume, resume, if_neg hn, List.nil_append, resume, List.length_append]
      by_cases hn' : n ≤ bs.length + bs'.length
      · have htake : (bs ++ bs').take n = bs ++ bs'.take (n - bs.length) := by
          rw [List.take_append, List.take_of_length_le (by omega)]
        have hdrop : (bs ++ bs').drop n = bs'.drop (n - bs.length) := by
          rw [List.drop_append, List.drop_of_length_le (by omega), List.nil_append]
        rw [if_pos hn', if_pos (by omega), htake, hdrop]
      · rw [if_neg hn', if_neg (by omega), Nat.sub_add_eq]
        simp only [List.append_assoc]

/-- Running to the end and running in pieces. -/
theorem resume_eq_pure_iff {p : Reader ε α} {bs rest : List UInt8} {a : α} :
    p.resume bs = (pure a, rest) ↔ p.run bs = .ok (a, rest) := by
  induction p generalizing bs with
  | pure a' => simp [run]
  | fail e => simp [run]
  | exact n next ih =>
    rw [resume, run]
    split
    · exact ih _
    · simp

/-- What happens on a part of a stream that starts with the bytes a program takes: the
program has its value and has taken these bytes, or it still waits. -/
theorem resume_of_reads {p : Reader ε α} {bs more : List UInt8} {a : α} (h : p.Reads bs a)
    {part rest : List UInt8} (hstream : part ++ rest = bs ++ more) :
    (∃ left, p.resume part = (pure a, left) ∧ part = bs ++ left) ∨
      ∃ n next, p.resume part = (exact n next, []) := by
  have hwhole := resume_append p part rest
  rw [hstream, resume_eq_pure_iff.mpr (run_append_of_reads h more)] at hwhole
  cases hpart : p.resume part with
  | mk p' left =>
    rw [hpart] at hwhole
    cases p' with
    | pure a' =>
      simp only [resume_pure, Prod.mk.injEq, pure.injEq] at hwhole
      obtain ⟨rfl, hmore⟩ := hwhole
      refine Or.inl ⟨left, rfl, ?_⟩
      rw [hmore, ← List.append_assoc] at hstream
      exact List.append_cancel_right hstream
    | fail e =>
      simp at hwhole
    | exact n next =>
      obtain ⟨rfl, -⟩ := resume_exact hpart
      exact Or.inr ⟨n, next, rfl⟩

end Reader

/-! ### Big-endian words -/

/-- The `w` bytes of a number, the most significant one first. -/
def toBigEndian : ℕ → ℕ → List UInt8
  | 0, _ => []
  | w + 1, n => UInt8.ofNat (n / 256 ^ w) :: toBigEndian w (n % 256 ^ w)

/-- The number that these bytes stand for, the most significant byte first. -/
def ofBigEndian : List UInt8 → ℕ
  | [] => 0
  | b :: bs => b.toNat * 256 ^ bs.length + ofBigEndian bs

@[simp] theorem length_toBigEndian (w n : ℕ) : (toBigEndian w n).length = w := by
  induction w generalizing n with
  | zero => rfl
  | succ w ih => rw [toBigEndian, List.length_cons, ih]

theorem ofBigEndian_lt (bs : List UInt8) : ofBigEndian bs < 256 ^ bs.length := by
  induction bs with
  | nil => exact Nat.one_pos
  | cons b bs ih =>
    have hb : b.toNat ≤ 255 := Nat.le_of_lt_succ b.toNat_lt
    have hmul : b.toNat * 256 ^ bs.length ≤ 255 * 256 ^ bs.length := Nat.mul_le_mul_right _ hb
    rw [ofBigEndian, List.length_cons, Nat.pow_succ]
    omega

theorem ofBigEndian_toBigEndian {w n : ℕ} (h : n < 256 ^ w) :
    ofBigEndian (toBigEndian w n) = n := by
  induction w generalizing n with
  | zero =>
    rw [Nat.pow_zero, Nat.lt_one_iff] at h
    rw [h]
    rfl
  | succ w ih =>
    have hpos : 0 < 256 ^ w := Nat.pow_pos (by decide)
    have hdiv : n / 256 ^ w < 256 := Nat.div_lt_of_lt_mul (by rwa [← Nat.pow_succ])
    rw [toBigEndian, ofBigEndian, length_toBigEndian, ih (Nat.mod_lt n hpos), UInt8.toNat_ofNat',
      Nat.mod_eq_of_lt hdiv, Nat.div_add_mod']

theorem toBigEndian_ofBigEndian (bs : List UInt8) :
    toBigEndian bs.length (ofBigEndian bs) = bs := by
  induction bs with
  | nil => rfl
  | cons b bs ih =>
    have hpos : 0 < 256 ^ bs.length := Nat.pow_pos (by decide)
    have hlt := ofBigEndian_lt bs
    rw [List.length_cons, toBigEndian, ofBigEndian, Nat.mul_comm, Nat.mul_add_div hpos,
      Nat.div_eq_of_lt hlt, Nat.add_zero, Nat.mul_add_mod, Nat.mod_eq_of_lt hlt, ih,
      UInt8.ofNat_toNat]

namespace Reader

variable {ε α : Type}

/-- The next `n` bytes of the input as they are. -/
def bytes (n : ℕ) : Reader ε (List UInt8) := exact n pure

theorem reads_bytes {n : ℕ} {bs bs' : List UInt8} :
    (bytes n : Reader ε (List UInt8)).Reads bs bs' ↔ bs = bs' ∧ bs.length = n := by
  rw [bytes, reads_exact]
  constructor
  · rintro ⟨front, back, rfl, hlen, h⟩
    obtain ⟨rfl, rfl⟩ := reads_pure.mp h
    rw [List.append_nil]
    exact ⟨rfl, hlen⟩
  · rintro ⟨rfl, hlen⟩
    exact ⟨bs, [], (List.append_nil bs).symm, hlen, reads_pure.mpr ⟨rfl, rfl⟩⟩

/-- A big-endian word of `w` bytes, turned into a value by the function that is given. -/
def word (w : ℕ) (ofNat : ℕ → α) : Reader ε α := do
  let bs ← bytes w
  return ofNat (ofBigEndian bs)

/-- Reading a word takes exactly the bytes that writing it makes. -/
theorem reads_word {w : ℕ} {ofNat : ℕ → α} {toNat : α → ℕ} (hlt : ∀ a, toNat a < 256 ^ w)
    (hleft : ∀ a, ofNat (toNat a) = a) (hright : ∀ n < 256 ^ w, toNat (ofNat n) = n)
    {bs : List UInt8} {a : α} :
    (word w ofNat : Reader ε α).Reads bs a ↔ bs = toBigEndian w (toNat a) := by
  constructor
  · intro h
    obtain ⟨front, back, bs', rfl, hfront, hback⟩ := reads_bind.mp h
    obtain ⟨rfl, hlen⟩ := reads_bytes.mp hfront
    obtain ⟨rfl, rfl⟩ := reads_pure.mp hback
    have hvalue := ofBigEndian_lt front
    rw [hlen] at hvalue
    rw [List.append_nil, hright _ hvalue, ← hlen, toBigEndian_ofBigEndian]
  · rintro rfl
    have h := (reads_bytes (ε := ε)).mpr ⟨rfl, length_toBigEndian w (toNat a)⟩
    have hword := h.map (f := fun bs => ofNat (ofBigEndian bs))
    rw [ofBigEndian_toBigEndian (hlt a), hleft] at hword
    exact hword

end Reader

end Lapas
