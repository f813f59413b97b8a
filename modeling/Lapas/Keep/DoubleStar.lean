import Lapas.Keep.LastRule
import Mathlib.Data.List.TakeWhile

/-!
# Rules with an interior `**`

A `**` before the last segment of a pattern stands for one or more segments of the
path.  The node of such a `**` has the rest of the pattern below it, and
`MultiSegmentNode::get_action` is meant to try that rest after every number of
consumed segments; its loop runs up to the number of *children*, though, and a single
rule makes one child.  So the rest of the pattern is never tried: the graph of a
`.keep` file's first line and one such rule decides every path by the first line, and
looks ahead as far as the first `**` and one segment more.

## Main definitions

* `Splits` — a path, cut up among the segments of a pattern.
* `DoubleStarSpec` — what a rule with an interior `**` is meant to do.
* `Chain` — the nodes of one rule.

## Main results

* `getAction_interior` — what the graph answers.
* `doubleStarSpec_iff` — when that is what is meant.
-/

namespace Lapas
namespace Keep

variable (rx : RegexCrate)

/-- The path can be cut up among the segments of the pattern: one segment that it
matches for each ordinary one, one or more for each `**`. -/
inductive Splits : List Str → List Str → Prop
  | nil : Splits [] []
  | segment {p s : Str} {ps ss : List Str} (hp : p ≠ "**".toList)
      (hs : segmentHit rx p s = true) (h : Splits ps ss) : Splits (p :: ps) (s :: ss)
  | doubleStar {consumed : List Str} {ps ss : List Str} (hc : consumed ≠ [])
      (h : Splits ps ss) : Splits ("**".toList :: ps) (consumed ++ ss)

variable {rx} in
theorem Splits.of_segment {p s : Str} {ps ss : List Str} (hp : p ≠ "**".toList)
    (h : Splits rx (p :: ps) (s :: ss)) : segmentHit rx p s = true ∧ Splits rx ps ss := by
  generalize hl : s :: ss = l at h
  cases h with
  | segment _ hs h => cases hl; exact ⟨hs, h⟩
  | doubleStar _ _ => exact absurd rfl hp

/-- The path or one of its ancestors can be cut up among the segments. -/
def SplitsAncestor (pattern path : List Str) : Prop := ∃ n, Splits rx pattern (path.take n)

/-- The path can be cut up among the segments once it is extended. -/
def SplitsBelow (pattern path : List Str) : Prop :=
  ∃ more : List Segment, Splits rx pattern (path ++ more.map Segment.text)

variable {rx}

/-- What a rule is meant to do for a path: its actions are returned exactly when the
path or an ancestor matches, and matches below the path are looked for. -/
def DoubleStarSpec (graph : DecisionGraph rx) (pattern : List Str) (actions : Actions)
    (path : List Segment) : Prop :=
  ∃ result, graph.getAction (path.map .utf8) = some result ∧
    (result.actions = actions ↔ SplitsAncestor rx pattern (path.map Segment.text)) ∧
    (¬ Splits rx pattern (path.map Segment.text) →
      SplitsBelow rx pattern (path.map Segment.text) → result.descend = true)

/-- The first line of the shipped `.keep` file. -/
def firstLine : Str := "base:delete user:keep **".toList

/-! ### The nodes of one rule -/

/-- The nodes that inserting a rule into no nodes makes. -/
inductive Chain (actions : Actions) : List Str → DecisionNode rx.Regex → Prop
  | last {p : Str} {node : DecisionNode rx.Regex}
      (hnode : nodeFromSegmentPattern rx p (some actions) = .ok node) : Chain actions [p] node
  | inner {p q : Str} {ps : List Str} {node below : DecisionNode rx.Regex}
      (hnode : nodeFromSegmentPattern rx p none = .ok node) (h : Chain actions (q :: ps) below) :
      Chain actions (p :: q :: ps) (node.withChildren [below])

theorem chain_of_traverseAdd {actions : Actions} {ps : List Str} :
    ∀ {ns : List (DecisionNode rx.Regex)}, traverseAdd rx ps actions [] = (ns, .ok ()) →
      ∃ node, ns = [node] ∧ Chain actions ps node := by
  induction ps with
  | nil => intro ns h; rw [traverseAdd] at h; cases h
  | cons p ps ih =>
    intro ns h
    rcases traverseAdd_ok h with ⟨rfl, node, hnode, rfl⟩ | ⟨hps, mid, hmid, hlast, hdesc⟩
    · exact ⟨node, rfl, .last hnode⟩
    · rcases hmid with rfl | ⟨-, node, hnode, rfl⟩
      · simp at hlast
      · obtain ⟨n', ns', hn', hnil, rfl⟩ := List.forall₂_cons_left_iff.mp hdesc
        rw [List.forall₂_nil_left_iff.mp hnil]
        rcases hn' with ⟨hne, -⟩ | ⟨-, below, hbelow, rfl⟩
        · exact absurd (pattern_of_nodeFromSegmentPattern hnode) hne
        · rw [children_of_nodeFromSegmentPattern hnode] at hbelow
          obtain ⟨node', rfl, hchain⟩ := ih hbelow
          obtain ⟨q, qs, rfl⟩ := List.exists_cons_of_ne_nil hps
          exact ⟨_, rfl, .inner hnode hchain⟩

/-- The path is hit as far as it and the leading segments go, and is at most one
segment longer than they are. -/
def looksAhead (rx : RegexCrate) : List Str → List Str → Bool
  | [], ss => ss.length = 1
  | _ :: _, [] => false
  | p :: ps, s :: ss => segmentHit rx p s && (ss.isEmpty || looksAhead rx ps ss)

/-- A chain with an interior `**` never writes actions: it only looks ahead. -/
theorem getAction_chain {actions : Actions} {post : List Str} (hpost : post ≠ []) :
    ∀ {pre : List Str} {node : DecisionNode rx.Regex}, (∀ p ∈ pre, p ≠ "**".toList) →
      Chain actions (pre ++ "**".toList :: post) node →
      ∀ {path : List Str}, path ≠ [] → ∀ result : ActionResult,
        node.getAction rx path result =
          some { result with descend := result.descend || looksAhead rx pre path } := by
  obtain ⟨q, qs, rfl⟩ := List.exists_cons_of_ne_nil hpost
  intro pre
  induction pre with
  | nil =>
    intro node _ hchain path hpath result
    rw [List.nil_append] at hchain
    cases hchain with
    | @inner _ _ _ node below hnode hbelow =>
      -- a `**` with one child: its loop is over before it begins
      rcases nodeFromSegmentPattern_ok hnode with ⟨-, rfl⟩ | ⟨hne, -⟩
      · rw [DecisionNode.withChildren, DecisionNode.getAction]
        by_cases hlen : path.length = 1 <;>
          simp [hlen, looksAhead, ActionResult.write]
      · exact absurd rfl hne
  | cons p pre ih =>
    intro node hpre hchain path hpath result
    obtain ⟨s, ss, rfl⟩ := List.exists_cons_of_ne_nil hpath
    have hp : p ≠ "**".toList := hpre p (List.mem_cons_self ..)
    obtain ⟨t, ts, hts⟩ : ∃ t ts, pre ++ "**".toList :: q :: qs = t :: ts :=
      List.exists_cons_of_ne_nil (by simp)
    rw [List.cons_append, hts] at hchain
    cases hchain with
    | @inner _ _ _ node below hnode hbelow =>
      rcases nodeFromSegmentPattern_ok hnode with ⟨heq, -⟩ | ⟨-, -, r, hr, rfl⟩
      · exact absurd heq hp
      · rw [← hts] at hbelow
        have hih := fun {path : List Str} (hne : path ≠ []) (result : ActionResult) =>
          ih (fun p' hp' => hpre p' (List.mem_cons_of_mem _ hp')) hbelow hne result
        rw [DecisionNode.withChildren, DecisionNode.getAction]
        have hhit : segmentHit rx p s = rx.isMatch r s := by
          rw [segmentHit, if_neg hp, hr]
        cases hm : rx.isMatch r s with
        | false => simp [looksAhead, hhit, hm]
        | true =>
          cases ss with
          | nil => simp [looksAhead, hhit, hm, ActionResult.write]
          | cons u us =>
            simp [looksAhead, hhit, hm, ActionResult.write, getActionChildren,
              hih (List.cons_ne_nil u us)]

/-! ### The graph of the first line and one such rule -/

/-- A pattern with an interior `**` has its first one before the last segment. -/
theorem exists_interior {pattern : List Str} (h : ¬ DoubleStarLast pattern) :
    ∃ post, post ≠ [] ∧
      pattern = pattern.takeWhile (· ≠ "**".toList) ++ "**".toList :: post := by
  induction pattern with
  | nil => exact absurd (fun p hp => by simp at hp) h
  | cons p ps ih =>
    by_cases hp : p = "**".toList
    · subst hp
      refine ⟨ps, ?_, by simp⟩
      rintro rfl
      exact h fun p hp => by simp at hp
    · have hps : ¬ DoubleStarLast ps := by
        intro hlast
        refine h fun q hq => ?_
        cases ps with
        | nil => simp at hq
        | cons t ts =>
          rw [List.dropLast_cons_cons] at hq
          rcases List.mem_cons.mp hq with rfl | hq
          · exact hp
          · exact hlast q hq
      obtain ⟨post, hpost, heq⟩ := ih hps
      refine ⟨post, hpost, ?_⟩
      rw [List.takeWhile_cons_of_pos (by simpa using hp), List.cons_append, ← heq]

theorem ruleOfLine_firstLine :
    ruleOfLine firstLine = .ok (["**".toList], defaultActions) := by decide +kernel

/-- The first line replaces the node that the graph starts with. -/
theorem addRuleFromStr_firstLine {graph₀ graph : DecisionGraph rx}
    (hnew : DecisionGraph.new rx = .ok graph₀)
    (h : graph₀.addRuleFromStr firstLine = (graph, .ok ())) :
    graph.children = [.multi (some defaultActions) []] := by
  obtain ⟨r, -, hchildren⟩ := new_ok hnew
  obtain ⟨pattern, actions, hrule, hadd⟩ := addRuleFromStr_ok h
  rw [ruleOfLine_firstLine] at hrule
  cases hrule
  rcases traverseAdd_ok hadd with ⟨-, node, hnode, heq⟩ | ⟨hne, -⟩
  · rcases nodeFromSegmentPattern_ok hnode with ⟨-, rfl⟩ | ⟨hne, -⟩
    · rw [heq, hchildren]
      simp
    · exact absurd rfl hne
  · exact absurd rfl hne

/-- **What the graph answers.**  With an interior `**` in the only rule after the first
line, every path is decided by the first line, and the graph looks ahead as far as the
first `**` and one segment more. -/
theorem getAction_interior {line : Str} {graph : DecisionGraph rx}
    (hgraph : DecisionGraph.ofLines rx [firstLine, line] = .ok graph)
    {pattern : List Str} {actions : Actions} (hline : ruleOfLine line = .ok (pattern, actions))
    (hstar : ¬ DoubleStarLast pattern) {path : List Segment} (hpath : path ≠ []) :
    graph.getAction (path.map .utf8) = some
      { actions := defaultActions
        descend := looksAhead rx (pattern.takeWhile (· ≠ "**".toList))
          (path.map Segment.text) } := by
  obtain ⟨graph₀, hnew, hadd⟩ := ofLines_ok hgraph
  obtain ⟨graph₁, hfirst, hadd⟩ := addRules_cons hadd
  obtain ⟨graph₂, hsecond, hadd⟩ := addRules_cons hadd
  cases hadd
  have hroot := addRuleFromStr_firstLine hnew hfirst
  obtain ⟨pattern', actions', hrule, hins⟩ := addRuleFromStr_ok hsecond
  rw [hline] at hrule
  cases hrule
  rw [hroot] at hins
  obtain ⟨post, hpost, heq⟩ := exists_interior hstar
  have hpre : ∀ p ∈ pattern.takeWhile (· ≠ "**".toList), p ≠ "**".toList := by
    intro p hp
    simpa using List.mem_takeWhile_imp hp
  generalize pattern.takeWhile (· ≠ "**".toList) = pre at heq hpre ⊢
  subst heq
  have hne : path.map Segment.text ≠ [] := by simpa using hpath
  rw [DecisionGraph.getAction, Path.toStr_utf8, Option.bind_some, splitOn_intercalate_text hpath]
  cases pre with
  | nil =>
    -- the rest of the pattern goes below the node of the first line
    rcases traverseAdd_ok hins with ⟨rfl, -⟩ | ⟨-, mid, hmid, -, hdesc⟩
    · exact absurd rfl hpost
    · rcases hmid with rfl | ⟨hlast, -⟩
      · obtain ⟨n', ns', hn', hnil, hchildren⟩ := List.forall₂_cons_left_iff.mp hdesc
        rw [List.forall₂_nil_left_iff.mp hnil] at hchildren
        rcases hn' with ⟨hne, -⟩ | ⟨-, below, hbelow, rfl⟩
        · exact absurd rfl hne
        · obtain ⟨node, rfl, -⟩ := chain_of_traverseAdd hbelow
          rw [hchildren]
          by_cases hlen : path.length = 1 <;>
            simp [getActionChildren, DecisionNode.withChildren, DecisionNode.getAction, hlen,
              looksAhead, ActionResult.write, DecisionGraph.initialResult]
      · exact absurd rfl hlast
  | cons p pre =>
    -- the rule has a chain of its own behind that node
    have hp : p ≠ "**".toList := hpre p (List.mem_cons_self ..)
    rcases traverseAdd_ok hins with ⟨hnil, -⟩ | ⟨-, mid, hmid, hlast, hdesc⟩
    · simp at hnil
    · rcases hmid with rfl | ⟨-, node, hnode, rfl⟩
      · exact absurd (Option.some.inj hlast).symm hp
      · obtain ⟨n₁, ns₁, hn₁, hrest, hchildren⟩ := List.forall₂_cons_left_iff.mp hdesc
        obtain ⟨n₂, ns₂, hn₂, hnil, rfl⟩ := List.forall₂_cons_left_iff.mp hrest
        rw [List.forall₂_nil_left_iff.mp hnil] at hchildren
        rcases hn₁ with ⟨-, rfl⟩ | ⟨heq, -⟩
        · rcases hn₂ with ⟨hne, -⟩ | ⟨-, below, hbelow, rfl⟩
          · exact absurd (pattern_of_nodeFromSegmentPattern hnode) hne
          · rw [children_of_nodeFromSegmentPattern hnode] at hbelow
            obtain ⟨below, rfl, hchain⟩ := chain_of_traverseAdd hbelow
            obtain ⟨t, ts, hts⟩ : ∃ t ts, pre ++ "**".toList :: post = t :: ts :=
              List.exists_cons_of_ne_nil (by simp)
            have hwhole : Chain actions ((p :: pre) ++ "**".toList :: post)
                (node.withChildren [below]) := by
              rw [List.cons_append, hts]
              exact .inner hnode (hts ▸ hchain)
            rw [hchildren, getActionChildren, DecisionNode.getAction]
            simp [getActionChildren, getAction_chain hpost hpre hwhole hne, ActionResult.write,
              DecisionGraph.initialResult]
        · exact absurd heq.symm hp

/-! ### When that is what is meant -/

/-- Up to the first `**` and one segment more, matches below the path are looked for. -/
theorem looksAhead_of_splits {post : List Str} {pre : List Str} :
    ∀ {ss more : List Str}, (∀ p ∈ pre, p ≠ "**".toList) → ss ≠ [] → ss.length ≤ pre.length + 1 →
      Splits rx (pre ++ "**".toList :: post) (ss ++ more) → looksAhead rx pre ss = true := by
  induction pre with
  | nil =>
    intro ss more _ hne hlen _
    have hpos := List.length_pos_of_ne_nil hne
    rw [List.length_nil] at hlen
    simp only [looksAhead, decide_eq_true_eq]
    omega
  | cons p pre ih =>
    intro ss more hpre hne hlen h
    obtain ⟨s, ss, rfl⟩ := List.exists_cons_of_ne_nil hne
    have hp : p ≠ "**".toList := hpre p (List.mem_cons_self ..)
    rw [List.cons_append, List.cons_append] at h
    obtain ⟨hs, h⟩ := h.of_segment hp
    rw [looksAhead, hs, Bool.true_and, Bool.or_eq_true]
    by_cases hss : ss = []
    · exact Or.inl (by simpa using hss)
    · refine Or.inr (ih (fun q hq => hpre q (List.mem_cons_of_mem _ hq)) hss ?_ h)
      simp only [List.length_cons] at hlen
      omega

/-- Further down nothing is looked for. -/
theorem looksAhead_of_length_lt {pre : List Str} :
    ∀ {ss : List Str}, pre.length + 1 < ss.length → looksAhead rx pre ss = false := by
  induction pre with
  | nil =>
    intro ss hlen
    rw [List.length_nil] at hlen
    simp only [looksAhead, decide_eq_false_iff_not]
    omega
  | cons p pre ih =>
    intro ss hlen
    cases ss with
    | nil => rfl
    | cons s ss =>
      simp only [List.length_cons] at hlen
      have hne : ss.isEmpty = false := by
        cases ss with
        | nil => simp at hlen
        | cons t ts => rfl
      rw [looksAhead, ih (by omega), hne]
      simp

/-- **When a rule with an interior `**` does what is meant**, added after the first line
of the shipped `.keep` file: its actions are those of the first line exactly on the paths
it matches, and the path either ends at most one segment behind the segments before
the first `**`, or matches the rule, or has no match below it. -/
theorem doubleStarSpec_iff {line : Str} {graph : DecisionGraph rx}
    (hgraph : DecisionGraph.ofLines rx [firstLine, line] = .ok graph)
    {pattern : List Str} {actions : Actions} (hline : ruleOfLine line = .ok (pattern, actions))
    (hstar : ¬ DoubleStarLast pattern) {path : List Segment} (hpath : path ≠ []) :
    DoubleStarSpec graph pattern actions path ↔
      (actions = defaultActions ↔ SplitsAncestor rx pattern (path.map Segment.text)) ∧
      (path.length ≤ (pattern.takeWhile (· ≠ "**".toList)).length + 1 ∨
        Splits rx pattern (path.map Segment.text) ∨
        ¬ SplitsBelow rx pattern (path.map Segment.text)) := by
  have hget := getAction_interior hgraph hline hstar hpath
  have hpre : ∀ p ∈ pattern.takeWhile (· ≠ "**".toList), p ≠ "**".toList := by
    intro p hp
    simpa using List.mem_takeWhile_imp hp
  obtain ⟨post, -, heq⟩ := exists_interior hstar
  unfold DoubleStarSpec
  rw [hget]
  simp only [Option.some.injEq, exists_eq_left', eq_comm (a := defaultActions)]
  refine and_congr_right fun _ => ?_
  constructor
  · intro h
    -- further down than the look-ahead reaches, nothing asks to descend
    by_contra hcon
    simp only [not_or, not_le, not_not] at hcon
    obtain ⟨hlen, hself, hbelow⟩ := hcon
    have hdesc := h hself hbelow
    rw [looksAhead_of_length_lt (by simpa using hlen)] at hdesc
    exact Bool.false_ne_true hdesc
  · rintro (hlen | hself | hbelow) hnot hext
    · obtain ⟨more, hext⟩ := hext
      rw [heq] at hext
      exact looksAhead_of_splits hpre (by simpa using hpath) (by simpa using hlen) hext
    · exact absurd hself hnot
    · exact absurd hext hbelow

/-- `**/x` and the path `a/x`. -/
theorem doubleStarSpec_iff_x : ∃ graph : DecisionGraph pieceCrate,
    DecisionGraph.ofLines pieceCrate
      [firstLine, "base:keep user:delete **/x".toList] = .ok graph ∧
    (DoubleStarSpec graph ["**".toList, "x".toList] { base := .keep, user := .delete }
        [⟨"a".toList, by decide, by decide⟩, ⟨"x".toList, by decide, by decide⟩] ↔
      (({ base := .keep, user := .delete } : Actions) = defaultActions ↔
        SplitsAncestor pieceCrate ["**".toList, "x".toList] ["a".toList, "x".toList]) ∧
      (2 ≤ 1 ∨ Splits pieceCrate ["**".toList, "x".toList] ["a".toList, "x".toList] ∨
        ¬ SplitsBelow pieceCrate ["**".toList, "x".toList] ["a".toList, "x".toList])) := by
  obtain ⟨graph, hgraph⟩ : ∃ graph, DecisionGraph.ofLines pieceCrate
      [firstLine, "base:keep user:delete **/x".toList] = .ok graph := ⟨_, rfl⟩
  exact ⟨graph, hgraph,
    doubleStarSpec_iff hgraph (by decide +kernel) (by decide) (List.cons_ne_nil _ _)⟩

/-- With the rule `base:keep user:delete **/x` behind the first line, `a/x` is decided by
the first line. -/
theorem not_doubleStarSpec_x : ∃ graph : DecisionGraph pieceCrate,
    DecisionGraph.ofLines pieceCrate
      [firstLine, "base:keep user:delete **/x".toList] = .ok graph ∧
    ruleOfLine "base:keep user:delete **/x".toList =
      .ok (["**".toList, "x".toList], { base := .keep, user := .delete }) ∧
    ¬ DoubleStarLast ["**".toList, "x".toList] ∧
    ¬ DoubleStarSpec graph ["**".toList, "x".toList] { base := .keep, user := .delete }
        [⟨"a".toList, by decide, by decide⟩, ⟨"x".toList, by decide, by decide⟩] := by
  obtain ⟨graph, hgraph⟩ : ∃ graph, DecisionGraph.ofLines pieceCrate
      [firstLine, "base:keep user:delete **/x".toList] = .ok graph := ⟨_, rfl⟩
  have hline : ruleOfLine "base:keep user:delete **/x".toList =
      .ok (["**".toList, "x".toList], { base := .keep, user := .delete }) := by decide +kernel
  have hstar : ¬ DoubleStarLast ["**".toList, "x".toList] := by decide
  refine ⟨graph, hgraph, hline, hstar, ?_⟩
  rintro ⟨result, hresult, hactions, -⟩
  rw [getAction_interior hgraph hline hstar (List.cons_ne_nil _ _), Option.some.injEq] at hresult
  subst hresult
  have hsplits : Splits pieceCrate ["**".toList, "x".toList] ["a".toList, "x".toList] :=
    @Splits.doubleStar _ ["a".toList] _ _ (by decide) (.segment (by decide) (by rfl) .nil)
  exact absurd (hactions.mpr ⟨2, hsplits⟩) (by decide)

end Keep
end Lapas
