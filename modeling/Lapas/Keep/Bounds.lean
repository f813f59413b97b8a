import Lapas.Keep.LastRule
import Lapas.Keep.Pruning

/-!
# Out-of-range slices

The loop of a `**` node counts up to the number of its children, where its comment speaks of
segments: with three children or more it may slice behind the end of the path, or hand no
segments at all to a node that looks at the first one.

## Main definitions

* `Evaluates` — the `**` nodes that an evaluation comes to, and on which segments.

## Main results

* `getActionChildren_isSome_iff` — siblings panic exactly when one of them does.
* `getAction_isSome_iff` — **an evaluation does not panic exactly when every `**` node that it
  comes to has at most one child more than there are segments left.**
* `getAction_isSome_of_plain` — rules with `**` at the end only never panic.
* `not_getAction_isSome_x` — three rules with a leading `**`, on a path of one segment.
-/

namespace Lapas
namespace Keep

/-! ### Steps that panic or not -/

/-- Whether a uniform function panics does not depend on the result. -/
theorem Uniform.isSome_iff {f : ActionResult → Option ActionResult} (hf : Uniform f)
    (result : ActionResult) : (f result).isSome ↔ ∀ result, (f result).isSome :=
  ⟨fun h => hf.isSome h, fun h => h result⟩

theorem foldlM_isSome_iff {step : ActionResult → ℕ → Option ActionResult}
    (hstep : ∀ i, Uniform fun result => step result i) (l : List ℕ) (result : ActionResult) :
    (l.foldlM step result).isSome ↔ ∀ i ∈ l, ∀ result, (step result i).isSome := by
  induction l generalizing result with
  | nil => simp
  | cons i l ih =>
    rw [List.foldlM_cons, List.forall_mem_cons, ← (hstep i).isSome_iff result]
    cases step result i with
    | none => simp
    | some result' => simp [ih result']

section

variable {rx : RegexCrate}

/-- Siblings panic exactly when one of them does. -/
theorem getActionChildren_isSome_iff (ns : List (DecisionNode rx.Regex)) (segments : List Str)
    (result : ActionResult) :
    (getActionChildren rx ns segments result).isSome ↔
      ∀ n ∈ ns, ∀ result, (n.getAction rx segments result).isSome := by
  induction ns generalizing result with
  | nil => simp [getActionChildren]
  | cons n ns ih =>
    rw [getActionChildren, List.forall_mem_cons, ← (uniform_getAction n segments).isSome_iff result]
    cases n.getAction rx segments result with
    | none => simp
    | some result' => simp [ih result']

/-- A `**` node panics exactly when one turn of its loop does. -/
theorem getAction_multi_isSome_iff (actions : Option Actions)
    (children : List (DecisionNode rx.Regex)) (segments : List Str) (result : ActionResult) :
    (DecisionNode.getAction rx (.multi actions children) segments result).isSome ↔
      ∀ i, 1 ≤ i → i + 1 < children.length → i ≤ segments.length ∧
        ∀ result, (getActionChildren rx children (segments.drop i) result).isSome := by
  have hturn : ∀ i, Uniform fun result =>
      if i ≤ segments.length then getActionChildren rx children (segments.drop i) result
      else none :=
    fun i => (uniform_getActionChildren children (segments.drop i)).ite uniform_none _
  rw [DecisionNode.getAction]
  by_cases hpos : 0 < children.length
  · simp only [hpos, ↓reduceIte]
    rw [foldlM_isSome_iff hturn]
    refine forall_congr' fun i => ?_
    rw [List.mem_range'_1]
    constructor
    · intro h hle hlt
      have hsome := h ⟨hle, by omega⟩
      by_cases hi : i ≤ segments.length
      · exact ⟨hi, fun result => by simpa only [hi, ↓reduceIte] using hsome result⟩
      · have hstop := hsome result
        simp [hi] at hstop
    · rintro h ⟨hle, hlt⟩ result
      obtain ⟨hi, hsome⟩ := h hle (by omega)
      simpa only [hi, ↓reduceIte] using hsome result
  · simp only [hpos, ↓reduceIte, Option.isSome_some, true_iff]
    intro i _ hlt
    omega

/-! ### The `**` nodes of an evaluation -/

variable (rx)

/-- Evaluating `ns` on `segments` evaluates a `**` node with the given children on `rest`. -/
inductive Evaluates : List (DecisionNode rx.Regex) → List Str →
    List (DecisionNode rx.Regex) → List Str → Prop
  | here {ns children : List (DecisionNode rx.Regex)} {segments : List Str}
    {actions : Option Actions} (hmem : .multi actions children ∈ ns) :
    Evaluates ns segments children segments
  /-- Behind a segment that an ordinary node matches. -/
  | single {ns children below : List (DecisionNode rx.Regex)} {pattern : Str} {r : rx.Regex}
    {actions : Option Actions} {s : Str} {segments rest : List Str}
    (hmem : .single pattern r actions children ∈ ns) (hmatch : rx.isMatch r s = true)
    (hne : segments ≠ []) (h : Evaluates children segments below rest) :
    Evaluates ns (s :: segments) below rest
  /-- In the `i`-th turn of the loop of a `**` node. -/
  | multi {ns children below : List (DecisionNode rx.Regex)} {actions : Option Actions}
    {segments rest : List Str} {i : ℕ} (hmem : .multi actions children ∈ ns) (hpos : 1 ≤ i)
    (hturn : i + 1 < children.length) (hlt : i < segments.length)
    (h : Evaluates children (segments.drop i) below rest) : Evaluates ns segments below rest

variable {rx}

theorem Evaluates.mono {ns ns' below : List (DecisionNode rx.Regex)} {segments rest : List Str}
    (h : Evaluates rx ns segments below rest) (hle : ns ⊆ ns') :
    Evaluates rx ns' segments below rest := by
  cases h with
  | here hmem => exact .here (hle hmem)
  | single hmem hmatch hne h => exact .single (hle hmem) hmatch hne h
  | multi hmem hpos hturn hlt h => exact .multi (hle hmem) hpos hturn hlt h

/-- There is a segment left for each child but one. -/
theorem Evaluates.length_le {ns below : List (DecisionNode rx.Regex)} {segments rest : List Str}
    (h : Evaluates rx ns segments below rest) (hmixed : MixedAll ns) (hne : segments ≠ [])
    {result : ActionResult} (hsome : (getActionChildren rx ns segments result).isSome) :
    below.length ≤ rest.length + 1 := by
  induction h generalizing result with
  | @here ns children segments actions hmem =>
    have hnode := (getActionChildren_isSome_iff _ _ _).mp hsome _ hmem result
    rw [getAction_multi_isSome_iff] at hnode
    by_contra hlen
    have hpos := List.length_pos_of_ne_nil hne
    -- the turn that leaves no segment hands none to an ordinary node
    obtain ⟨-, hnone⟩ := hnode segments.length hpos (by omega)
    have hloose : Loose children := by
      have hn := mixedAll_iff.mp hmixed _ hmem
      rw [DecisionNode.Mixed] at hn
      exact hn.1
    have hsingle : ∃ n ∈ children, n.isSingle = true := hloose.resolve_left (by omega)
    have hpanic := hnone result
    rw [List.drop_length, getActionChildren_nil_of_isSingle hsingle] at hpanic
    cases hpanic
  | @single ns children below pattern r actions s segments rest hmem hmatch hne' _ ih =>
    have hnode := (getActionChildren_isSome_iff _ _ _).mp hsome _ hmem result
    have hn := mixedAll_iff.mp hmixed _ hmem
    rw [DecisionNode.Mixed] at hn
    rw [DecisionNode.getAction] at hnode
    simp only [hmatch, Bool.not_true, Bool.false_eq_true, ↓reduceIte, List.length_eq_zero_iff,
      hne'] at hnode
    exact ih hn.2 hne' hnode
  | @multi ns children below actions segments rest i hmem hpos hturn hlt _ ih =>
    have hnode := (getActionChildren_isSome_iff _ _ _).mp hsome _ hmem result
    have hn := mixedAll_iff.mp hmixed _ hmem
    rw [DecisionNode.Mixed] at hn
    rw [getAction_multi_isSome_iff] at hnode
    have hdrop : segments.drop i ≠ [] := by
      rw [ne_eq, List.drop_eq_nil_iff]
      omega
    exact ih hn.2 hdrop ((hnode i hpos hturn).2 result)

mutual

/-- A node that comes to no `**` node with too many children does not panic. -/
theorem DecisionNode.getAction_isSome : ∀ (n : DecisionNode rx.Regex) {segments : List Str},
    segments ≠ [] → (∀ children rest, Evaluates rx [n] segments children rest →
      children.length ≤ rest.length + 1) →
    ∀ result, (n.getAction rx segments result).isSome
  | .multi actions children, segments, hne, hbounds, result => by
    rw [getAction_multi_isSome_iff]
    intro i hpos hturn
    have hlen := hbounds children segments (.here List.mem_cons_self)
    have hlt : i < segments.length := by omega
    refine ⟨Nat.le_of_lt hlt, getActionChildren_isSome children ?_ fun below rest h => ?_⟩
    · rw [ne_eq, List.drop_eq_nil_iff]
      omega
    · exact hbounds below rest (.multi List.mem_cons_self hpos hturn hlt h)
  | .single _ _ _ _, [], hne, _, _ => absurd rfl hne
  | .single pattern r actions children, s :: segments, _, hbounds, result => by
    rw [DecisionNode.getAction]
    by_cases hmatch : rx.isMatch r s = true
    · simp only [hmatch, Bool.not_true, Bool.false_eq_true, ↓reduceIte]
      by_cases hnil : segments = []
      · simp [hnil]
      · simp only [List.length_eq_zero_iff, hnil, ↓reduceIte]
        exact getActionChildren_isSome children hnil (fun below rest h =>
          hbounds below rest (.single List.mem_cons_self hmatch hnil h)) _
    · simp [hmatch]

/-- The same for a list of nodes. -/
theorem getActionChildren_isSome : ∀ (ns : List (DecisionNode rx.Regex)) {segments : List Str},
    segments ≠ [] → (∀ children rest, Evaluates rx ns segments children rest →
      children.length ≤ rest.length + 1) →
    ∀ result, (getActionChildren rx ns segments result).isSome
  | [], _, _, _, result => by rw [getActionChildren]; rfl
  | n :: ns, segments, hne, hbounds, result => by
    rw [getActionChildren_isSome_iff, List.forall_mem_cons,
      ← getActionChildren_isSome_iff ns segments result]
    constructor
    · exact DecisionNode.getAction_isSome n hne fun children rest h =>
        hbounds children rest (h.mono (List.cons_subset_cons n (List.nil_subset ns)))
    · exact getActionChildren_isSome ns hne (fun children rest h =>
        hbounds children rest (h.mono (List.subset_cons_self n ns))) result

end

/-! ### The graph -/

/-- The evaluation of a path that is text. -/
theorem getAction_utf8 (graph : DecisionGraph rx) {path : List Segment} (hpath : path ≠ []) :
    graph.getAction (path.map .utf8) = getActionChildren rx graph.children
      (path.map Segment.text) DecisionGraph.initialResult := by
  rw [DecisionGraph.getAction, Path.toStr_utf8, Option.bind_some, splitOn_intercalate_text hpath]

/-- **When an evaluation does not panic.**  In the graph of accepted rule lines, on a path with
at least one segment: every `**` node that the evaluation comes to has at most one child more
than there are segments left. -/
theorem getAction_isSome_iff {lines : List Str} {graph : DecisionGraph rx}
    (hgraph : DecisionGraph.ofLines rx lines = .ok graph) {path : List Segment}
    (hpath : path ≠ []) :
    (graph.getAction (path.map .utf8)).isSome ↔
      ∀ children rest, Evaluates rx graph.children (path.map Segment.text) children rest →
        children.length ≤ rest.length + 1 := by
  have hne : path.map Segment.text ≠ [] := by simpa using hpath
  rw [getAction_utf8 graph hpath]
  constructor
  · intro hsome children rest h
    exact h.length_le (mixedAll_of_ofLines hgraph) hne hsome
  · exact fun hbounds => getActionChildren_isSome graph.children hne hbounds _

/-- Below a `**` of a plain tree there is nothing. -/
theorem Evaluates.eq_nil_of_plain {ns below : List (DecisionNode rx.Regex)}
    {segments rest : List Str} (h : Evaluates rx ns segments below rest) (hplain : PlainAll rx ns) :
    below = [] := by
  induction h with
  | here hmem =>
    have hn := plainAll_iff.mp hplain _ hmem
    rwa [DecisionNode.Plain] at hn
  | single hmem _ _ _ ih =>
    have hn := plainAll_iff.mp hplain _ hmem
    rw [DecisionNode.Plain] at hn
    exact ih hn.2
  | multi hmem _ hturn _ _ _ =>
    have hn := plainAll_iff.mp hplain _ hmem
    rw [DecisionNode.Plain] at hn
    subst hn
    exact absurd hturn (Nat.not_lt_zero _)

/-- With `**` at most at the end of the patterns, no evaluation panics. -/
theorem getAction_isSome_of_plain {lines : List Str} {graph : DecisionGraph rx}
    (hgraph : DecisionGraph.ofLines rx lines = .ok graph)
    (hstar : ∀ rule ∈ linesRules lines, DoubleStarLast rule.pattern) {path : List Segment}
    (hpath : path ≠ []) : (graph.getAction (path.map .utf8)).isSome := by
  have hne : path.map Segment.text ≠ [] := by simpa using hpath
  rw [getAction_utf8 graph hpath]
  refine getActionChildren_isSome graph.children hne (fun children rest h => ?_) _
  rw [h.eq_nil_of_plain (plainAll_of_ofLines hgraph hstar)]
  exact Nat.zero_le _

end

/-! ### Three rules -/

/-- Rules that share a leading `**`, behind the first line of the shipped `.keep` file. -/
def threeRules : List Str :=
  ["base:delete user:keep **", "base:keep user:keep **/a", "base:keep user:keep **/b",
    "base:keep user:keep **/c"].map String.toList

/-- The path `x/y`: there is a segment left for each of the three children but one. -/
theorem getAction_isSome_iff_xy : ∃ graph : DecisionGraph pieceCrate,
    DecisionGraph.ofLines pieceCrate threeRules = .ok graph ∧
    ∀ children rest, Evaluates pieceCrate graph.children ["x".toList, "y".toList] children rest →
      children.length ≤ rest.length + 1 := by
  let path : List Segment :=
    [⟨"x".toList, by decide, by decide⟩, ⟨"y".toList, by decide, by decide⟩]
  have hrun : ∃ graph : DecisionGraph pieceCrate,
      DecisionGraph.ofLines pieceCrate threeRules = .ok graph ∧
      (graph.getAction (path.map .utf8)).isSome := exists_ok_of_decide (by decide +kernel)
  obtain ⟨graph, hgraph, hsome⟩ := hrun
  exact ⟨graph, hgraph, (getAction_isSome_iff hgraph (List.cons_ne_nil _ _)).mp hsome⟩

/-- The path `x`: the loop hands no segments to the node of `a`. -/
theorem not_getAction_isSome_x : ∃ graph : DecisionGraph pieceCrate,
    DecisionGraph.ofLines pieceCrate threeRules = .ok graph ∧
    ¬ (graph.getAction [.utf8 ⟨"x".toList, by decide, by decide⟩]).isSome :=
  exists_ok_of_decide (by decide +kernel)

end Keep
end Lapas
