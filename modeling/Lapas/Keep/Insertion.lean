import Lapas.Keep.DecisionGraph
import Mathlib.Data.List.Forall2

/-!
# What an accepted insertion does

`traverseAdd_ok` says everything a successful `traverseAdd` can do to a list of
nodes: at the last segment the nodes with that pattern are replaced by a new leaf
at the end; before it, the last node gets the pattern, if need be by a new node,
and the insertion goes on below all nodes that have it.  The properties of the
decision graph are derived from this alone.

* `nodeFromSegmentPattern_ok` — a new node.
* `traverseAdd_ok` — one level of an insertion.
* `addRuleFromStr_ok`, `addRules_cons` — accepted rule lines.
-/

namespace Lapas
namespace Keep

variable {rx : RegexCrate}

/-! ### Lists related element by element -/

theorem exists_left_of_forall₂ {α β : Type*} {r : α → β → Prop} {xs : List α} {ys : List β}
    (h : List.Forall₂ r xs ys) {y : β} (hy : y ∈ ys) : ∃ x ∈ xs, r x y := by
  induction h with
  | nil => simp at hy
  | @cons x y' xs ys hxy _ ih =>
    rcases List.mem_cons.mp hy with rfl | hy
    · exact ⟨x, List.mem_cons_self .., hxy⟩
    · obtain ⟨x', hx', hr⟩ := ih hy
      exact ⟨x', List.mem_cons_of_mem _ hx', hr⟩

theorem forall₂_concat {α β : Type*} {r : α → β → Prop} {xs : List α} {x : α} {ys : List β}
    (h : List.Forall₂ r (xs ++ [x]) ys) :
    ∃ ys' y, ys = ys' ++ [y] ∧ List.Forall₂ r xs ys' ∧ r x y := by
  induction xs generalizing ys with
  | nil =>
    obtain ⟨y, ys', hxy, hnil, rfl⟩ := List.forall₂_cons_left_iff.mp h
    rw [List.forall₂_nil_left_iff.mp hnil]
    exact ⟨[], y, rfl, .nil, hxy⟩
  | cons x' xs ih =>
    obtain ⟨y', ys', hxy, hrest, rfl⟩ := List.forall₂_cons_left_iff.mp h
    obtain ⟨zs, y, rfl, hzs, hy⟩ := ih hrest
    exact ⟨y' :: zs, y, rfl, .cons hxy hzs, hy⟩

/-! ### New nodes -/

/-- A new node is a leaf with the pattern and the actions it was made for; it is a
`**` node exactly for that pattern. -/
theorem nodeFromSegmentPattern_ok {pattern : Str} {actions : Option Actions}
    {node : DecisionNode rx.Regex}
    (h : nodeFromSegmentPattern rx pattern actions = .ok node) :
    (pattern = "**".toList ∧ node = .multi actions []) ∨
      (pattern ≠ "**".toList ∧ contains "**".toList pattern = false ∧
        ∃ r, rx.fromPattern pattern = .ok r ∧ node = .single pattern r actions []) := by
  unfold nodeFromSegmentPattern at h
  split at h
  · next hp =>
    cases h
    exact Or.inl ⟨hp, rfl⟩
  · next hp =>
    split at h
    · cases h
    · next hc =>
      unfold singleFromPattern at h
      cases hr : rx.fromPattern pattern with
      | error e => rw [hr] at h; cases h
      | ok r =>
        rw [hr] at h
        cases h
        exact Or.inr ⟨hp, by simpa using hc, r, rfl, rfl⟩

theorem pattern_of_nodeFromSegmentPattern {pattern : Str} {actions : Option Actions}
    {node : DecisionNode rx.Regex}
    (h : nodeFromSegmentPattern rx pattern actions = .ok node) : node.pattern = pattern := by
  rcases nodeFromSegmentPattern_ok h with ⟨rfl, rfl⟩ | ⟨-, -, r, -, rfl⟩ <;> rfl

theorem children_of_nodeFromSegmentPattern {pattern : Str} {actions : Option Actions}
    {node : DecisionNode rx.Regex}
    (h : nodeFromSegmentPattern rx pattern actions = .ok node) : node.children = [] := by
  rcases nodeFromSegmentPattern_ok h with ⟨-, rfl⟩ | ⟨-, -, r, -, rfl⟩ <;> rfl

/-! ### One level of an insertion -/

/-- One step of the descending loop: a node with the pattern gets other children,
the others stay. -/
def Descended {R : Type} (pattern : Str)
    (f : List (DecisionNode R) → List (DecisionNode R) × Except Failure Unit)
    (n n' : DecisionNode R) : Prop :=
  (n.pattern ≠ pattern ∧ n' = n) ∨
    (n.pattern = pattern ∧ ∃ below, f n.children = (below, .ok ()) ∧ n' = n.withChildren below)

/-- The descending loop, when it does not fail. -/
theorem forMatching_ok {R : Type} {pattern : Str}
    {f : List (DecisionNode R) → List (DecisionNode R) × Except Failure Unit} :
    ∀ {ns ns' : List (DecisionNode R)}, forMatching pattern f ns = (ns', .ok ()) →
      List.Forall₂ (Descended pattern f) ns ns' := by
  intro ns
  induction ns with
  | nil =>
    intro ns' h
    simp only [forMatching, Prod.mk.injEq, and_true] at h
    subst h
    exact .nil
  | cons n ns ih =>
    intro ns' h
    rw [forMatching] at h
    split at h
    · next hp =>
      split at h
      · cases h
      · next below hbelow =>
        simp only [Prod.mk.injEq] at h
        obtain ⟨rfl, hres⟩ := h
        exact .cons (Or.inr ⟨hp, below, hbelow, rfl⟩) (ih (Prod.ext rfl hres))
    · next hp =>
      simp only [Prod.mk.injEq] at h
      obtain ⟨rfl, hres⟩ := h
      exact .cons (Or.inl ⟨hp, rfl⟩) (ih (Prod.ext rfl hres))

/-- Everything an accepted insertion does to a list of nodes. -/
theorem traverseAdd_ok {segment : Str} {segments : List Str} {actions : Actions}
    {ns ns' : List (DecisionNode rx.Regex)}
    (h : traverseAdd rx (segment :: segments) actions ns = (ns', .ok ())) :
    (segments = [] ∧ ∃ node, nodeFromSegmentPattern rx segment (some actions) = .ok node ∧
      ns' = ns.filter (·.pattern ≠ segment) ++ [node]) ∨
    (segments ≠ [] ∧ ∃ mid,
      (mid = ns ∨ ns.getLast?.map (·.pattern) ≠ some segment ∧
        ∃ node, nodeFromSegmentPattern rx segment none = .ok node ∧ mid = ns ++ [node]) ∧
      mid.getLast?.map (·.pattern) = some segment ∧
      List.Forall₂ (Descended segment (traverseAdd rx segments actions)) mid ns') := by
  rw [traverseAdd] at h
  cases segments with
  | nil =>
    -- the last segment: older nodes with the pattern go, and a new one comes last
    simp only [List.length_nil, ne_eq, not_true_eq_false, ↓reduceIte, true_or, gt_iff_lt,
      Nat.lt_irrefl] at h
    cases hnode : nodeFromSegmentPattern rx segment (some actions) with
    | error e => rw [hnode] at h; cases h
    | ok node =>
      rw [hnode] at h
      simp only [Except.map, Prod.mk.injEq, and_true] at h
      exact Or.inl ⟨rfl, node, rfl, h.symm⟩
  | cons t ts =>
    -- an inner segment: a node is added unless the last one has the pattern already
    have hne : (t :: ts).length ≠ 0 := by simp
    have hpos : (t :: ts).length > 0 := by simp
    simp only [hne, hpos, ne_eq, not_false_eq_true, ↓reduceIte, false_or] at h
    refine Or.inr ⟨by simp, ?_⟩
    by_cases hlast : ns.getLast?.map (·.pattern) = some segment
    · rw [if_neg (not_not.mpr hlast)] at h
      exact ⟨ns, Or.inl rfl, hlast, forMatching_ok h⟩
    · rw [if_pos hlast] at h
      cases hnode : nodeFromSegmentPattern rx segment none with
      | error e => rw [hnode] at h; cases h
      | ok node =>
        rw [hnode] at h
        simp only [Except.map] at h
        refine ⟨ns ++ [node], Or.inr ⟨hlast, node, rfl, rfl⟩, ?_, forMatching_ok h⟩
        simp [pattern_of_nodeFromSegmentPattern hnode]

/-! ### Rule lines -/

/-- An accepted line states a rule, which is inserted. -/
theorem addRuleFromStr_ok {graph graph' : DecisionGraph rx} {line : Str}
    (h : graph.addRuleFromStr line = (graph', .ok ())) :
    ∃ pattern actions, ruleOfLine line = .ok (pattern, actions) ∧
      traverseAdd rx pattern actions graph.children = (graph'.children, .ok ()) := by
  unfold DecisionGraph.addRuleFromStr at h
  cases hline : ruleOfLine line with
  | error e => rw [hline] at h; cases h
  | ok rule =>
    obtain ⟨pattern, actions⟩ := rule
    rw [hline] at h
    simp only [DecisionGraph.addRule, Prod.mk.injEq] at h
    obtain ⟨rfl, hres⟩ := h
    exact ⟨pattern, actions, rfl, Prod.ext rfl hres⟩

/-- The first of several accepted lines. -/
theorem addRules_cons {graph final : DecisionGraph rx} {line : Str} {lines : List Str}
    (h : graph.addRules (line :: lines) = .ok final) :
    ∃ graph', graph.addRuleFromStr line = (graph', .ok ()) ∧ graph'.addRules lines = .ok final := by
  rw [DecisionGraph.addRules] at h
  split at h
  · next graph' hline => exact ⟨graph', hline, h⟩
  · cases h

/-- The graph of no lines: a leaf that matches every segment. -/
theorem new_ok {graph : DecisionGraph rx} (h : DecisionGraph.new rx = .ok graph) :
    ∃ r, rx.fromPattern "**".toList = .ok r ∧
      graph.children = [.single "**".toList r (some defaultActions) []] := by
  unfold DecisionGraph.new singleFromPattern at h
  cases hr : rx.fromPattern "**".toList with
  | error e => rw [hr] at h; cases h
  | ok r =>
    rw [hr] at h
    cases h
    exact ⟨r, rfl, rfl⟩

theorem ofLines_ok {lines : List Str} {graph : DecisionGraph rx}
    (h : DecisionGraph.ofLines rx lines = .ok graph) :
    ∃ graph₀, DecisionGraph.new rx = .ok graph₀ ∧ graph₀.addRules lines = .ok graph := by
  unfold DecisionGraph.ofLines at h
  cases hnew : DecisionGraph.new rx with
  | error e => rw [hnew] at h; cases h
  | ok graph₀ =>
    rw [hnew] at h
    exact ⟨graph₀, rfl, h⟩

end Keep
end Lapas
