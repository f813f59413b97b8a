import Mathlib.Data.List.Induction
import Mathlib.Tactic.Common

/-!
# Transition systems

A system is given by its starting states and a partial step function on the events.  Runs
may be restricted to steps that satisfy a condition on the state before the step and the
event.

* `Machine`, `Machine.Reach` — systems, and the states that restricted runs reach.
* `Machine.Reach.invariant` — what holds at the start and is kept by every allowed step.
* `Machine.run`, `Machine.reach_of_run`, `Machine.reach_of_run_allowed` — executing a list of
  events.
* `Machine.Happens`, `Machine.run_induction` — what happens in an execution, and its invariants.
* `Machine.Runs`, `Machine.Runs.view_eq` — runs of allowed steps, and a view of the state that
  the events alone determine.
-/

namespace Lapas

/-- A system that takes steps: the states that it starts in, and what an event does to a state. -/
structure Machine (S E : Type*) where
  start : S → Prop
  /-- `none` when the event cannot happen in the state. -/
  step : S → E → Option S

namespace Machine

variable {S E : Type*} (m : Machine S E)

/-- The states that are reached by runs all of whose steps are allowed. -/
inductive Reach (allowed : S → E → Prop) : S → Prop
  | start {s : S} (h : m.start s) : Reach allowed s
  | step {s s' : S} {e : E} (h : Reach allowed s) (hallowed : allowed s e)
      (hstep : m.step s e = some s') : Reach allowed s'

variable {m}

/-- **Invariants**: what holds at the start and is kept by the allowed steps holds in every
state that is reached. -/
theorem Reach.invariant {allowed : S → E → Prop} {s : S} (h : m.Reach allowed s)
    {Inv : S → Prop} (hstart : ∀ s, m.start s → Inv s)
    (hstep : ∀ s e s', Inv s → allowed s e → m.step s e = some s' → Inv s') : Inv s := by
  induction h with
  | start h => exact hstart _ h
  | step _ hallowed hs ih => exact hstep _ _ _ ih hallowed hs

/-- A condition that allows more steps lets a run reach more states. -/
theorem Reach.mono {allowed allowed' : S → E → Prop} (hle : ∀ s e, allowed s e → allowed' s e)
    {s : S} (h : m.Reach allowed s) : m.Reach allowed' s := by
  induction h with
  | start h => exact .start h
  | step _ hallowed hs ih => exact .step ih (hle _ _ hallowed) hs

/-- Executing events; `none` when one of them cannot happen. -/
def run (m : Machine S E) (s : S) (events : List E) : Option S := events.foldlM m.step s

/-- A state that an execution ends in is reached. -/
theorem reach_of_run {s : S} (h : m.Reach (fun _ _ => True) s) {events : List E} {s' : S}
    (hrun : m.run s events = some s') : m.Reach (fun _ _ => True) s' := by
  induction events generalizing s with
  | nil =>
    cases hrun
    exact h
  | cons e events ih =>
    rw [run, List.foldlM_cons] at hrun
    obtain ⟨s₁, hs₁, hrest⟩ := Option.bind_eq_some_iff.mp hrun
    exact ih (.step h trivial hs₁) hrest

/-- So it is by events that are allowed in every state. -/
theorem reach_of_run_forall {allowed : S → E → Prop} {s : S} (h : m.Reach allowed s)
    {events : List E} (hallowed : ∀ s, ∀ e ∈ events, allowed s e) {s' : S}
    (hrun : m.run s events = some s') : m.Reach allowed s' := by
  induction events generalizing s with
  | nil =>
    cases hrun
    exact h
  | cons e events ih =>
    rw [run, List.foldlM_cons] at hrun
    obtain ⟨s₁, hs₁, hrest⟩ := Option.bind_eq_some_iff.mp hrun
    exact ih (.step h (hallowed s e List.mem_cons_self) hs₁)
      (fun s e' he' => hallowed s e' (List.mem_cons_of_mem _ he')) hrest

/-- So is a state that an execution of allowed steps ends in. -/
theorem reach_of_run_allowed {allowed : S → E → Prop} [∀ s e, Decidable (allowed s e)] {s : S}
    (h : m.Reach allowed s) {events : List E} {s' : S}
    (hrun : events.foldlM (fun s e => if allowed s e then m.step s e else none) s = some s') :
    m.Reach allowed s' := by
  induction events generalizing s with
  | nil =>
    cases hrun
    exact h
  | cons e events ih =>
    rw [List.foldlM_cons] at hrun
    obtain ⟨s₁, hs₁, hrest⟩ := Option.bind_eq_some_iff.mp hrun
    split at hs₁
    · exact ih (.step h ‹_› hs₁) hrest
    · cases hs₁

/-! ### What happens in an execution -/

section

variable {start s s' : S} {events : List E} {e : E}

theorem run_concat (hrun : m.run start events = some s) :
    m.run start (events ++ [e]) = m.step s e := by
  have hlast : (m.step s e).bind some = m.step s e := by
    cases m.step s e <;> rfl
  rw [run, List.foldlM_append, ← run, hrun]
  exact hlast

/-- **Invariants of executions**, which may speak of the events. -/
theorem run_induction (hrun : m.run start events = some s) (Inv : List E → S → Prop)
    (hstart : Inv [] start)
    (hstep : ∀ events s e s', m.run start events = some s → Inv events s → m.step s e = some s' →
      Inv (events ++ [e]) s') : Inv events s := by
  induction events using List.reverseRecOn generalizing s with
  | nil =>
    cases hrun
    exact hstart
  | append_singleton events e ih =>
    have hfirst := hrun
    rw [run, List.foldlM_append] at hfirst
    obtain ⟨s₀, hs₀, -⟩ := Option.bind_eq_some_iff.mp hfirst
    exact hstep events s₀ e s hs₀ (ih hs₀) ((run_concat hs₀).symm.trans hrun)

/-- In the execution of the events, one of them happens in the state. -/
def Happens (m : Machine S E) (start : S) (events : List E) (s : S) (e : E) : Prop :=
  ∃ earlier later, events = earlier ++ e :: later ∧ m.run start earlier = some s

theorem Happens.concat (h : m.Happens start events s e) (e' : E) :
    m.Happens start (events ++ [e']) s e := by
  obtain ⟨earlier, later, rfl, hrun⟩ := h
  exact ⟨earlier, later ++ [e'], by rw [List.append_assoc, List.cons_append], hrun⟩

theorem happens_concat_self (hrun : m.run start events = some s) (e : E) :
    m.Happens start (events ++ [e]) s e := ⟨events, [], rfl, hrun⟩

/-- What happens up to the last event has happened before it, or is that event. -/
theorem happens_concat_iff {s₀ : S} {e' : E} (hrun : m.run start events = some s) :
    m.Happens start (events ++ [e']) s₀ e ↔
      m.Happens start events s₀ e ∨ s₀ = s ∧ e = e' := by
  constructor
  · rintro ⟨earlier, later, heq, hrun'⟩
    rcases List.eq_nil_or_concat later with rfl | ⟨later, last, rfl⟩
    · obtain ⟨rfl, hlast⟩ := List.append_inj' heq rfl
      cases hlast
      exact .inr ⟨Option.some.inj (hrun'.symm.trans hrun), rfl⟩
    · rw [List.concat_eq_append, ← List.cons_append, ← List.append_assoc] at heq
      exact .inl ⟨earlier, later, (List.append_inj' heq rfl).1, hrun'⟩
  · rintro (h | ⟨rfl, rfl⟩)
    · exact h.concat e'
    · exact happens_concat_self hrun e

end

/-! ### Runs of allowed steps -/

/-- A run of allowed steps, with its events. -/
inductive Runs (m : Machine S E) (allowed : S → E → Prop) : S → List E → S → Prop
  | nil (s : S) : Runs m allowed s [] s
  | cons {s s₁ s' : S} {e : E} {events : List E} (hallowed : allowed s e)
      (hstep : m.step s e = some s₁) (h : Runs m allowed s₁ events s') :
      Runs m allowed s (e :: events) s'

section

variable {allowed : S → E → Prop} {s s' : S} {events : List E}

theorem Runs.invariant (h : m.Runs allowed s events s') (Inv : S → Prop)
    (hstep : ∀ s e s', Inv s → allowed s e → m.step s e = some s' → Inv s') (hs : Inv s) :
    Inv s' := by
  induction h with
  | nil => exact hs
  | cons hallowed hs₁ _ ih => exact ih (hstep _ _ _ hs hallowed hs₁)

/-- **Refinement by a view.**  When every allowed step changes what is seen of the state in a way
that the event determines, so does every run. -/
theorem Runs.view_eq (h : m.Runs allowed s events s') {V : Type*} (view : S → V) (f : V → E → V)
    (Inv : S → Prop)
    (hstep : ∀ s e s', Inv s → allowed s e → m.step s e = some s' →
      Inv s' ∧ view s' = f (view s) e) (hs : Inv s) : view s' = events.foldl f (view s) := by
  induction h with
  | nil => rfl
  | cons hallowed hs₁ _ ih =>
    obtain ⟨hinv, hview⟩ := hstep _ _ _ hs hallowed hs₁
    rw [List.foldl_cons, ← hview]
    exact ih hinv

theorem Runs.append {s'' : S} {later : List E} (h : m.Runs allowed s events s')
    (h' : m.Runs allowed s' later s'') : m.Runs allowed s (events ++ later) s'' := by
  induction h with
  | nil => exact h'
  | cons hallowed hs₁ _ ih => exact .cons hallowed hs₁ (ih h')

theorem Runs.split {later : List E} (h : m.Runs allowed s (events ++ later) s') :
    ∃ s₁, m.Runs allowed s events s₁ ∧ m.Runs allowed s₁ later s' := by
  induction events generalizing s with
  | nil => exact ⟨s, .nil s, h⟩
  | cons e events ih =>
    cases h with
    | cons hallowed hs₁ h =>
      obtain ⟨s₁, hfirst, hlater⟩ := ih h
      exact ⟨s₁, .cons hallowed hs₁ hfirst, hlater⟩

end

end Machine

end Lapas
