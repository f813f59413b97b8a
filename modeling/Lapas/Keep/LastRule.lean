import Lapas.Keep.Insertion
import Lapas.Library.RuleList

/-!
# The last matching rule wins

A tree of nodes stands for an ordered list of rules, read off depth first
(`rulesOf`).  As long as no `**` has nodes below it, evaluating the tree is
evaluating that list (`getActionChildren_plain`), and adding a rule changes what
the list decides on exactly the paths that the rule covers (`traverseAdd_decided`).
So the graph of a `.keep` file decides like the list of its lines.

## Main definitions

* `segmentHit` — a segment pattern against a segment of a path.
* `DecisionNode.rules`, `rulesOf` — the ordered rules of a tree.
* `DecisionNode.Plain` — no node below a `**`, every regex compiled from its pattern.
* `linesRules` — the rules of a list of lines.

## Main results

* `traverseAdd_decided` — what an accepted insertion changes.
* `getAction_eq_lastRule` — the graph of an accepted list of rule lines decides
  every path by the last line that covers it.
-/

namespace Lapas
namespace Keep

/-! ### Patterns -/

/-- Whether a segment pattern matches a path segment: `**` matches any, and every
other pattern matches by its regular expression. -/
def segmentHit (rx : RegexCrate) (pattern segment : Str) : Bool :=
  if pattern = "**".toList then true
  else match rx.fromPattern pattern with
    | .ok r => rx.isMatch r segment
    | .error _ => false

/-- `**` occurs in a pattern at most as its last segment. -/
def DoubleStarLast (pattern : List Str) : Prop := ∀ p ∈ pattern.dropLast, p ≠ "**".toList

/-- The rule that a line states, if it states one. -/
def lineRule (line : Str) : Option (Rule Str Actions) :=
  match ruleOfLine line with
  | .ok (pattern, actions) => some ⟨pattern, actions⟩
  | .error _ => none

/-- The rules of a list of lines, in order. -/
def linesRules (lines : List Str) : List (Rule Str Actions) := lines.filterMap lineRule

/-! ### The rules of a tree -/

section

variable {R : Type}

/-- The rule of a node itself. -/
def ownRule (pattern : Str) (actions : Option Actions) : List (Rule Str Actions) :=
  actions.toList.map (⟨[pattern], ·⟩)

mutual

/-- The rules of a node and of those below it, depth first. -/
def DecisionNode.rules : DecisionNode R → List (Rule Str Actions)
  | .multi actions children =>
    ownRule "**".toList actions ++ (rulesOf children).map (Rule.under "**".toList)
  | .single pattern _ actions children =>
    ownRule pattern actions ++ (rulesOf children).map (Rule.under pattern)

/-- The rules of a list of nodes, depth first. -/
def rulesOf : List (DecisionNode R) → List (Rule Str Actions)
  | [] => []
  | node :: nodes => node.rules ++ rulesOf nodes

end

theorem DecisionNode.rules_eq (n : DecisionNode R) :
    n.rules = ownRule n.pattern n.actions ++ (rulesOf n.children).map (Rule.under n.pattern) := by
  cases n with
  | multi actions children => rw [DecisionNode.rules]; rfl
  | single pattern r actions children => rw [DecisionNode.rules]; rfl

@[simp] theorem rulesOf_nil : rulesOf ([] : List (DecisionNode R)) = [] := by rw [rulesOf]

@[simp] theorem rulesOf_cons (n : DecisionNode R) (ns : List (DecisionNode R)) :
    rulesOf (n :: ns) = n.rules ++ rulesOf ns := by rw [rulesOf]

@[simp] theorem rulesOf_append (ms ns : List (DecisionNode R)) :
    rulesOf (ms ++ ns) = rulesOf ms ++ rulesOf ns := by
  induction ms with
  | nil => simp
  | cons m ms ih => simp [ih]

end

section

variable (rx : RegexCrate)

mutual

/-- There are no nodes below a `**`, and regular expressions are those of their
patterns. -/
def DecisionNode.Plain : DecisionNode rx.Regex → Prop
  | .multi _ children => children = []
  | .single pattern r _ children => rx.fromPattern pattern = .ok r ∧ PlainAll children

/-- All nodes of a list are plain, and so are those below them. -/
def PlainAll : List (DecisionNode rx.Regex) → Prop
  | [] => True
  | node :: nodes => node.Plain ∧ PlainAll nodes

end

variable {rx}

theorem plainAll_iff {nodes : List (DecisionNode rx.Regex)} :
    PlainAll rx nodes ↔ ∀ n ∈ nodes, n.Plain := by
  induction nodes with
  | nil => simp [PlainAll]
  | cons n nodes ih => simp [PlainAll, ih]

theorem DecisionNode.Plain.children {n : DecisionNode rx.Regex} (hn : n.Plain) :
    PlainAll rx n.children := by
  cases n with
  | multi actions children =>
    rw [DecisionNode.Plain] at hn
    subst hn
    simp [DecisionNode.children, PlainAll]
  | single pattern r actions children =>
    rw [DecisionNode.Plain] at hn
    exact hn.2

/-- Other nodes may be put below a node that is not a `**`. -/
theorem DecisionNode.Plain.withChildren {n : DecisionNode rx.Regex} (hn : n.Plain)
    (hp : n.pattern ≠ "**".toList) {cs : List (DecisionNode rx.Regex)} (hcs : PlainAll rx cs) :
    (n.withChildren cs).Plain := by
  cases n with
  | multi actions children => exact absurd rfl hp
  | single pattern r actions children =>
    rw [DecisionNode.Plain] at hn
    rw [DecisionNode.withChildren, DecisionNode.Plain]
    exact ⟨hn.1, hcs⟩

/-! ### Evaluation of a plain tree -/

theorem segmentHit_eq_isMatch (hrx : rx.Documented) {pattern : Str} {r : rx.Regex}
    (hr : rx.fromPattern pattern = .ok r) {s : Str} (hs : '/' ∉ s) :
    segmentHit rx pattern s = rx.isMatch r s := by
  unfold segmentHit
  split
  · next h => subst h; exact (hrx.isMatch_doubleStar hr hs).symm
  · rw [hr]

/-- No rule of a tree decides the empty path. -/
theorem decided_rulesOf_nil (ns : List (DecisionNode rx.Regex)) (d : Actions) :
    decided (segmentHit rx) (rulesOf ns) ([] : List Str) d = d := by
  induction ns generalizing d with
  | nil => simp
  | cons n ns ih =>
    rw [rulesOf_cons, decided_append, ih, n.rules_eq, decided_append, decided_map_under_nil]
    cases n.actions <;> rfl

/-- What the rules of a node decide on a path. -/
theorem decided_rules (n : DecisionNode rx.Regex) (s : Str) (ss : List Str) (d : Actions) :
    decided (segmentHit rx) n.rules (s :: ss) d =
      if segmentHit rx n.pattern s then
        decided (segmentHit rx) (rulesOf n.children) ss (n.actions.getD d)
      else d := by
  rw [n.rules_eq, decided_append, decided_map_under]
  cases h : segmentHit rx n.pattern s <;> cases ha : n.actions <;>
    simp [ownRule, decided_singleton, h]

theorem write_actions (result : ActionResult) (actions : Option Actions) :
    (result.write actions).actions = actions.getD result.actions := by cases actions <;> rfl

mutual

/-- A plain node overwrites the actions of the result by what its rules decide. -/
theorem DecisionNode.getAction_plain (hrx : rx.Documented) :
    ∀ (n : DecisionNode rx.Regex), n.Plain → ∀ (path : List Str), path ≠ [] →
      (∀ s ∈ path, '/' ∉ s) → ∀ result : ActionResult,
      (n.getAction rx path result).map ActionResult.actions =
        some (decided (segmentHit rx) n.rules path result.actions)
  | .multi actions children, hn, s :: ss, _, _, result => by
    rw [DecisionNode.Plain] at hn
    subst hn
    rw [DecisionNode.getAction, decided_rules]
    simp [segmentHit, DecisionNode.children, DecisionNode.actions, write_actions]
  | .single pattern r actions children, hn, s :: ss, _, hslash, result => by
    rw [DecisionNode.Plain] at hn
    have hs : '/' ∉ s := hslash s (List.mem_cons_self ..)
    rw [DecisionNode.getAction, decided_rules, DecisionNode.pattern_single,
      segmentHit_eq_isMatch hrx hn.1 hs]
    cases hm : rx.isMatch r s with
    | false => simp
    | true =>
      cases ss with
      | nil =>
        rw [decided_rulesOf_nil]
        simp only [Bool.not_true, Bool.false_eq_true, ↓reduceIte, List.length_nil,
          Option.map_some, DecisionNode.actions, ← write_actions]
        split <;> rfl
      | cons t ts =>
        have hrest := getActionChildren_plain hrx children hn.2 (t :: ts) (by simp)
          (fun u hu => hslash u (List.mem_cons_of_mem _ hu)) (result.write actions)
        simpa [write_actions, DecisionNode.children, DecisionNode.actions] using hrest

/-- The same for a list of nodes. -/
theorem getActionChildren_plain (hrx : rx.Documented) :
    ∀ (ns : List (DecisionNode rx.Regex)), PlainAll rx ns → ∀ (path : List Str), path ≠ [] →
      (∀ s ∈ path, '/' ∉ s) → ∀ result : ActionResult,
      (getActionChildren rx ns path result).map ActionResult.actions =
        some (decided (segmentHit rx) (rulesOf ns) path result.actions)
  | [], _, path, _, _, result => by simp [getActionChildren]
  | n :: ns, hns, path, hne, hslash, result => by
    rw [PlainAll] at hns
    have hn := DecisionNode.getAction_plain hrx n hns.1 path hne hslash result
    rw [getActionChildren, rulesOf_cons, decided_append]
    cases hres : n.getAction rx path result with
    | none => rw [hres] at hn; simp at hn
    | some result' =>
      rw [hres, Option.map_some, Option.some.injEq] at hn
      rw [Option.bind_some, getActionChildren_plain hrx ns hns.2 path hne hslash result', hn]

end

/-! ### Inserting a rule -/

/-- An accepted insertion keeps the tree plain, as long as the pattern puts nothing
below a `**`. -/
theorem traverseAdd_plain {ps : List Str} {actions : Actions} (hstar : DoubleStarLast ps) :
    ∀ {ns ns' : List (DecisionNode rx.Regex)},
      traverseAdd rx ps actions ns = (ns', .ok ()) → PlainAll rx ns → PlainAll rx ns' := by
  induction ps with
  | nil => intro ns ns' h _; rw [traverseAdd] at h; cases h
  | cons p ps ih =>
    intro ns ns' h hns
    rw [plainAll_iff] at hns ⊢
    -- a new node has no children
    have hleaf : ∀ {acts node}, nodeFromSegmentPattern rx p acts = .ok node → node.Plain := by
      intro acts node hnode
      rcases nodeFromSegmentPattern_ok hnode with ⟨-, rfl⟩ | ⟨-, -, r, hr, rfl⟩
      · rw [DecisionNode.Plain]
      · rw [DecisionNode.Plain]
        exact ⟨hr, trivial⟩
    rcases traverseAdd_ok h with ⟨-, node, hnode, rfl⟩ | ⟨hps, mid, hmid, -, hdesc⟩
    · intro n hn
      rcases List.mem_append.mp hn with hn | hn
      · exact hns n (List.mem_of_mem_filter hn)
      · rw [List.mem_singleton.mp hn]
        exact hleaf hnode
    · have hmidPlain : ∀ n ∈ mid, n.Plain := by
        rcases hmid with rfl | ⟨-, node, hnode, rfl⟩
        · exact hns
        · intro n hn
          rcases List.mem_append.mp hn with hn | hn
          · exact hns n hn
          · rw [List.mem_singleton.mp hn]
            exact hleaf hnode
      -- the nodes that get children are not `**` nodes
      have hp : p ≠ "**".toList := hstar p (by
        rw [List.dropLast_cons_of_ne_nil hps]
        exact List.mem_cons_self ..)
      have hstar' : DoubleStarLast ps := by
        intro q hq
        apply hstar q
        rw [List.dropLast_cons_of_ne_nil hps]
        exact List.mem_cons_of_mem _ hq
      intro n' hn'
      obtain ⟨n, hn, hnn'⟩ := exists_left_of_forall₂ hdesc hn'
      rcases hnn' with ⟨-, rfl⟩ | ⟨hnp, below, hbelow, rfl⟩
      · exact hmidPlain _ hn
      · exact (hmidPlain n hn).withChildren (hnp ▸ hp)
          (ih hstar' hbelow (hmidPlain n hn).children)

/-- A new inner node has no rules. -/
theorem rules_of_inner {p : Str} {node : DecisionNode rx.Regex}
    (h : nodeFromSegmentPattern rx p none = .ok node) : node.rules = [] := by
  rcases nodeFromSegmentPattern_ok h with ⟨-, rfl⟩ | ⟨-, -, r, -, rfl⟩ <;>
    simp [DecisionNode.rules_eq, ownRule, DecisionNode.actions, DecisionNode.children]

/-- A node whose pattern does not hit the path decides nothing. -/
theorem decided_rules_of_not_covers {n : DecisionNode rx.Regex} {path : List Str}
    (h : covers (segmentHit rx) [n.pattern] path = false) (d : Actions) :
    decided (segmentHit rx) n.rules path d = d := by
  cases path with
  | nil => simpa using decided_rulesOf_nil [n] d
  | cons s ss =>
    rw [covers_cons_cons, covers_nil, Bool.and_true] at h
    rw [decided_rules, h]
    rfl

theorem decided_rulesOf_filter {p : Str} {path : List Str}
    (h : covers (segmentHit rx) [p] path = false) (ns : List (DecisionNode rx.Regex))
    (d : Actions) :
    decided (segmentHit rx) (rulesOf (ns.filter (·.pattern ≠ p))) path d =
      decided (segmentHit rx) (rulesOf ns) path d := by
  induction ns generalizing d with
  | nil => rfl
  | cons n ns ih =>
    rw [List.filter_cons, rulesOf_cons, decided_append]
    by_cases hn : n.pattern = p
    · subst hn
      rw [decided_rules_of_not_covers h]
      simpa using ih d
    · simp only [hn, ne_eq, not_false_eq_true, decide_true, ↓reduceIte, rulesOf_cons,
        decided_append]
      exact ih _

/-- An insertion does not change what is decided on the paths that the new rule does
not cover. -/
theorem traverseAdd_decided_of_not_covers {ps : List Str} {actions : Actions} :
    ∀ {ns ns' : List (DecisionNode rx.Regex)} {path : List Str},
      traverseAdd rx ps actions ns = (ns', .ok ()) → covers (segmentHit rx) ps path = false →
      ∀ d : Actions, decided (segmentHit rx) (rulesOf ns') path d =
        decided (segmentHit rx) (rulesOf ns) path d := by
  induction ps with
  | nil => intro ns ns' path h; rw [traverseAdd] at h; cases h
  | cons p ps ih =>
    intro ns ns' path h hcov d
    rcases traverseAdd_ok h with ⟨rfl, node, hnode, rfl⟩ | ⟨-, mid, hmid, -, hdesc⟩
    · have hcov' : covers (segmentHit rx) [node.pattern] path = false := by
        rwa [pattern_of_nodeFromSegmentPattern hnode]
      rw [rulesOf_append, decided_append, decided_rulesOf_filter hcov, rulesOf_cons,
        rulesOf_nil, List.append_nil, decided_rules_of_not_covers hcov']
    · -- the rest of the pattern is inserted below the nodes with pattern `p`
      have hnode : ∀ {n n' : DecisionNode rx.Regex},
          Descended p (traverseAdd rx ps actions) n n' → ∀ d,
          decided (segmentHit rx) n'.rules path d = decided (segmentHit rx) n.rules path d := by
        intro n n' hnn' d
        rcases hnn' with ⟨-, rfl⟩ | ⟨rfl, below, hbelow, rfl⟩
        · rfl
        · cases path with
          | nil =>
            rw [decided_rules_of_not_covers (by rfl), decided_rules_of_not_covers (by rfl)]
          | cons s ss =>
            rw [decided_rules, decided_rules, DecisionNode.pattern_withChildren,
              DecisionNode.children_withChildren, DecisionNode.actions_withChildren]
            cases hs : segmentHit rx n.pattern s with
            | false => rfl
            | true =>
              rw [covers_cons_cons, hs, Bool.true_and] at hcov
              simp only [↓reduceIte]
              exact ih hbelow hcov _
      -- so the whole level decides as before
      have hlist : ∀ {ms ms' : List (DecisionNode rx.Regex)},
          List.Forall₂ (Descended p (traverseAdd rx ps actions)) ms ms' → ∀ d,
          decided (segmentHit rx) (rulesOf ms') path d =
            decided (segmentHit rx) (rulesOf ms) path d := by
        intro ms ms' hms
        induction hms with
        | nil => intro d; rfl
        | cons hnn' _ ihms =>
          intro d
          rw [rulesOf_cons, rulesOf_cons, decided_append, decided_append, hnode hnn', ihms]
      rw [hlist hdesc]
      rcases hmid with rfl | ⟨-, node, hnew, rfl⟩
      · rfl
      · rw [rulesOf_append, decided_append, rulesOf_cons, rulesOf_nil, List.append_nil,
          rules_of_inner hnew, decided_nil]

/-- The new rule decides on the paths it covers. -/
theorem traverseAdd_decided_of_covers {ps : List Str} {actions : Actions} :
    ∀ {ns ns' : List (DecisionNode rx.Regex)} {path : List Str},
      traverseAdd rx ps actions ns = (ns', .ok ()) → covers (segmentHit rx) ps path = true →
      ∀ d : Actions, decided (segmentHit rx) (rulesOf ns') path d = actions := by
  induction ps with
  | nil => intro ns ns' path h; rw [traverseAdd] at h; cases h
  | cons p ps ih =>
    intro ns ns' path h hcov d
    cases path with
    | nil => simp at hcov
    | cons s ss =>
      rw [covers_cons_cons, Bool.and_eq_true] at hcov
      obtain ⟨hs, hss⟩ := hcov
      rcases traverseAdd_ok h with ⟨rfl, node, hnode, rfl⟩ | ⟨-, mid, -, hlast, hdesc⟩
      · have hacts : node.actions = some actions ∧ node.children = [] := by
          rcases nodeFromSegmentPattern_ok hnode with ⟨-, rfl⟩ | ⟨-, -, r, -, rfl⟩ <;>
            exact ⟨rfl, rfl⟩
        rw [rulesOf_append, decided_append, rulesOf_cons, rulesOf_nil, List.append_nil,
          decided_rules, pattern_of_nodeFromSegmentPattern hnode, hs, hacts.1, hacts.2]
        simp
      · -- the last node has the pattern, and what is below it comes last
        obtain ⟨last, hget, rfl⟩ := Option.map_eq_some_iff.mp hlast
        obtain ⟨init, rfl⟩ : ∃ init, mid = init ++ [last] :=
          ⟨mid.dropLast, (List.dropLast_append_getLast? last hget).symm⟩
        obtain ⟨init', last', rfl, -, hdescLast⟩ := forall₂_concat hdesc
        rcases hdescLast with ⟨hne, -⟩ | ⟨-, below, hbelow, rfl⟩
        · exact absurd rfl hne
        · rw [rulesOf_append, decided_append, rulesOf_cons, rulesOf_nil, List.append_nil,
            decided_rules, DecisionNode.pattern_withChildren,
            DecisionNode.children_withChildren, hs]
          exact ih hbelow hss _

/-- **One rule more.**  After an accepted insertion the new rule decides on the paths
it covers, and the tree as before on the others. -/
theorem traverseAdd_decided {ps : List Str} {actions : Actions}
    {ns ns' : List (DecisionNode rx.Regex)} (h : traverseAdd rx ps actions ns = (ns', .ok ()))
    (path : List Str) (d : Actions) :
    decided (segmentHit rx) (rulesOf ns') path d =
      decided (segmentHit rx) [⟨ps, actions⟩] path
        (decided (segmentHit rx) (rulesOf ns) path d) := by
  rw [decided_singleton]
  cases hcov : covers (segmentHit rx) ps path with
  | false => exact traverseAdd_decided_of_not_covers h hcov d
  | true => exact traverseAdd_decided_of_covers h hcov d

/-! ### The graph of a list of lines -/

/-- Accepted lines keep the tree plain, and decide after what was decided before. -/
theorem addRules_decided {lines : List Str} {graph final : DecisionGraph rx}
    (h : graph.addRules lines = .ok final)
    (hstar : ∀ rule ∈ linesRules lines, DoubleStarLast rule.pattern) :
    PlainAll rx graph.children → PlainAll rx final.children ∧ ∀ path d,
      decided (segmentHit rx) (rulesOf final.children) path d =
        decided (segmentHit rx) (linesRules lines) path
          (decided (segmentHit rx) (rulesOf graph.children) path d) := by
  induction lines generalizing graph with
  | nil => cases h; exact fun hplain => ⟨hplain, fun _ _ => rfl⟩
  | cons line lines ih =>
    intro hplain
    obtain ⟨graph', hline, hlines⟩ := addRules_cons h
    obtain ⟨pattern, actions, hrule, hadd⟩ := addRuleFromStr_ok hline
    have hrules : linesRules (line :: lines) = ⟨pattern, actions⟩ :: linesRules lines := by
      simp [linesRules, lineRule, hrule]
    rw [hrules, List.forall_mem_cons] at hstar
    obtain ⟨hplain', hdec⟩ := ih hlines hstar.2 (traverseAdd_plain hstar.1 hadd hplain)
    refine ⟨hplain', fun path d => ?_⟩
    rw [hdec, traverseAdd_decided hadd, hrules, ← decided_append, List.singleton_append]

theorem plainAll_of_new {graph : DecisionGraph rx} (hnew : DecisionGraph.new rx = .ok graph) :
    PlainAll rx graph.children := by
  obtain ⟨r, hr, hchildren⟩ := new_ok hnew
  rw [hchildren, PlainAll, DecisionNode.Plain]
  exact ⟨⟨hr, trivial⟩, trivial⟩

/-- The graph of rule lines with `**` at most at the end of their patterns is plain. -/
theorem plainAll_of_ofLines {lines : List Str} {graph : DecisionGraph rx}
    (hgraph : DecisionGraph.ofLines rx lines = .ok graph)
    (hstar : ∀ rule ∈ linesRules lines, DoubleStarLast rule.pattern) :
    PlainAll rx graph.children := by
  obtain ⟨graph₀, hnew, hadd⟩ := ofLines_ok hgraph
  exact (addRules_decided hadd hstar (plainAll_of_new hnew)).1

/-- **The graph is the ordered list of its rules.**  For rule lines that are all
accepted and have `**` at most at the end of their patterns, evaluating the graph on a
path gives the actions of the last rule that covers the path, and the default actions
when no rule does. -/
theorem getAction_eq_lastRule (hrx : rx.Documented) {lines : List Str} {graph : DecisionGraph rx}
    (hgraph : DecisionGraph.ofLines rx lines = .ok graph)
    (hstar : ∀ rule ∈ linesRules lines, DoubleStarLast rule.pattern)
    {path : List Segment} (hpath : path ≠ []) :
    (graph.getAction (path.map .utf8)).map ActionResult.actions =
      some ((((linesRules lines).filter fun rule =>
        covers (segmentHit rx) rule.pattern (path.map Segment.text)).getLast?.map
          Rule.value).getD defaultActions) := by
  obtain ⟨graph₀, hnew, hadd⟩ := ofLines_ok hgraph
  obtain ⟨r, -, hchildren⟩ := new_ok hnew
  obtain ⟨hplain, hdec⟩ := addRules_decided hadd hstar (plainAll_of_new hnew)
  have hslash : ∀ s ∈ path.map Segment.text, '/' ∉ s := by
    intro s hs
    obtain ⟨seg, -, rfl⟩ := List.mem_map.mp hs
    exact seg.slash_notMem
  have hne : path.map Segment.text ≠ [] := by simpa using hpath
  rw [DecisionGraph.getAction, Path.toStr_utf8, Option.bind_some,
    splitOn_intercalate_text hpath, getActionChildren_plain hrx _ hplain _ hne hslash, hdec,
    hchildren]
  obtain ⟨s, ss, hss⟩ := List.exists_cons_of_ne_nil hne
  rw [hss, rulesOf_cons, rulesOf_nil, List.append_nil, decided_rules]
  -- the node that the graph starts with decides first, with the default actions
  have hs : segmentHit rx "**".toList s = true := by simp [segmentHit]
  simp only [DecisionNode.pattern_single, hs, ↓reduceIte, DecisionNode.children, rulesOf_nil,
    decided_nil, DecisionNode.actions, Option.getD_some]
  rfl

instance (pattern : List Str) : Decidable (DoubleStarLast pattern) :=
  inferInstanceAs (Decidable (∀ p ∈ pattern.dropLast, p ≠ "**".toList))

/-- `.config/xfce4` is decided by the exception to the exception. -/
theorem getAction_eq_lastRule_xfce4 : ∃ graph : DecisionGraph pieceCrate,
    DecisionGraph.ofLines pieceCrate ["base:delete user:keep .config".toList,
      "base:keep user:delete *".toList, "base:delete user:keep .config/xfce4".toList] =
        .ok graph ∧
    (graph.getAction ([⟨".config".toList, by decide, by decide⟩,
      ⟨"xfce4".toList, by decide, by decide⟩].map .utf8)).map ActionResult.actions =
      some { base := .delete, user := .keep } := by
  obtain ⟨graph, hgraph⟩ : ∃ graph, DecisionGraph.ofLines pieceCrate
      ["base:delete user:keep .config".toList, "base:keep user:delete *".toList,
        "base:delete user:keep .config/xfce4".toList] = .ok graph := ⟨_, rfl⟩
  refine ⟨graph, hgraph, (getAction_eq_lastRule pieceCrate_documented hgraph (by decide)
    (List.cons_ne_nil _ _)).trans ?_⟩
  decide +kernel

end

end Keep
end Lapas
