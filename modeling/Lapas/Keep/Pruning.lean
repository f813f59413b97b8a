import Lapas.Keep.Insertion

/-!
# When nothing below a path needs to be looked at

`getAction` tells its caller by `descend` whether paths below may be decided
differently, and the cleanup relies on it.  For patterns with interior `**` this rests
on a panic: a `**` node whose loop runs at all has three children, one of them an
ordinary node (`Loose`), and then a path that ends at the `**` already panics.  So if
none of the prefixes of a path panics, every `**` node on the way ignores its children.

## Main definitions

* `Effect`, `Uniform` — what a node does to a result does not depend on the result.
* `Loose`, `DecisionNode.Mixed` — of two siblings, one is an ordinary node.

## Main results

* `traverseAdd_mixed` — insertions keep trees mixed.
* `getActionChildren_below`, `getAction_below` — without `descend`, all paths below have
  the same decision.
-/

namespace Lapas
namespace Keep

/-! ### Effects -/

/-- What evaluating a node changes: the actions it writes last, and whether it sets
`descend`. -/
structure Effect where
  actions : Option Actions
  descend : Bool

/-- What the walk over the graph has found so far, with the effect of one more node. -/
def Effect.apply (e : Effect) (result : ActionResult) : ActionResult where
  actions := e.actions.getD result.actions
  descend := result.descend || e.descend

/-- The function has the same effect on every result, or panics on all of them. -/
def Uniform (f : ActionResult → Option ActionResult) : Prop :=
  ∃ e : Option Effect, ∀ result, f result = e.map (·.apply result)

theorem uniform_some : Uniform some := ⟨some ⟨none, false⟩, fun _ => by simp [Effect.apply]⟩

theorem uniform_none : Uniform fun _ => none := ⟨none, fun _ => rfl⟩

theorem uniform_write (actions : Option Actions) :
    Uniform fun result => some (result.write actions) :=
  ⟨some ⟨actions, false⟩, fun result => by
    cases actions <;> simp [Effect.apply, ActionResult.write]⟩

theorem uniform_descend : Uniform fun result => some { result with descend := true } :=
  ⟨some ⟨none, true⟩, fun result => by simp [Effect.apply]⟩

theorem Uniform.bind {f g : ActionResult → Option ActionResult} (hf : Uniform f)
    (hg : Uniform g) : Uniform fun result => (f result).bind g := by
  obtain ⟨e, he⟩ := hf
  obtain ⟨e', he'⟩ := hg
  cases e with
  | none =>
    refine ⟨none, fun result => ?_⟩
    show (f result).bind g = none
    rw [he]
    rfl
  | some e =>
    cases e' with
    | none =>
      refine ⟨none, fun result => ?_⟩
      show (f result).bind g = none
      rw [he, Option.map_some, Option.bind_some, he']
      rfl
    | some e' =>
      refine ⟨some ⟨e'.actions.or e.actions, e.descend || e'.descend⟩, fun result => ?_⟩
      show (f result).bind g = _
      rw [he, Option.map_some, Option.bind_some, he']
      cases h : e'.actions <;> simp [Effect.apply, h, Bool.or_assoc]

theorem Uniform.ite {f g : ActionResult → Option ActionResult} (hf : Uniform f) (hg : Uniform g)
    (p : Prop) [Decidable p] : Uniform fun result => if p then f result else g result := by
  by_cases h : p
  · simpa [h] using hf
  · simpa [h] using hg

theorem Uniform.foldlM {step : ActionResult → ℕ → Option ActionResult} (l : List ℕ)
    (h : ∀ i, Uniform fun result => step result i) :
    Uniform fun result => l.foldlM step result := by
  induction l with
  | nil => exact uniform_some
  | cons i l ih => exact (h i).bind ih

/-- A uniform function panics on all results or on none. -/
theorem Uniform.isSome {f : ActionResult → Option ActionResult} (hf : Uniform f)
    {result : ActionResult} (h : (f result).isSome) (result' : ActionResult) :
    (f result').isSome := by
  obtain ⟨e, he⟩ := hf
  rw [he, Option.isSome_map] at h ⊢
  exact h

/-- A uniform function never resets `descend`. -/
theorem Uniform.descend {f : ActionResult → Option ActionResult} (hf : Uniform f)
    {result result' : ActionResult} (h : f result = some result') (hd : result'.descend = false) :
    result.descend = false := by
  obtain ⟨e, he⟩ := hf
  rw [he] at h
  obtain ⟨e, -, rfl⟩ := Option.map_eq_some_iff.mp h
  rw [Effect.apply, Bool.or_eq_false_iff] at hd
  exact hd.1

section

variable {rx : RegexCrate}

mutual

theorem uniform_getAction : ∀ (n : DecisionNode rx.Regex) (segments : List Str),
    Uniform fun result => n.getAction rx segments result
  | .multi actions children, segments => by
    simp only [DecisionNode.getAction]
    by_cases hpos : 0 < children.length
    · simp only [hpos, ↓reduceIte]
      -- each turn of the loop evaluates the children on the rest of the path from `i` on
      have hloop : Uniform fun result =>
          (List.range' 1 (children.length - 1 - 1)).foldlM (fun result i =>
            if i ≤ segments.length then getActionChildren rx children (segments.drop i) result
            else none) result :=
        Uniform.foldlM _ fun i =>
          (uniform_getActionChildren children (segments.drop i)).ite uniform_none _
      by_cases hlen : segments.length = 1
      · simp only [hlen, ↓reduceIte] at hloop ⊢
        exact ((uniform_write actions).bind uniform_descend).bind hloop
      · simp only [hlen, ↓reduceIte]
        exact (uniform_write actions).bind hloop
    · simp only [hpos, ↓reduceIte]
      exact uniform_write actions
  | .single _ _ _ _, [] => by
    simp only [DecisionNode.getAction]
    exact uniform_none
  | .single _ r actions children, s :: segments => by
    simp only [DecisionNode.getAction]
    refine uniform_some.ite ?_ _
    refine Uniform.ite ?_ ((uniform_write actions).bind
      (uniform_getActionChildren children segments)) _
    by_cases hpos : 0 < children.length
    · simp only [hpos, ↓reduceIte]
      exact (uniform_write actions).bind uniform_descend
    · simp only [hpos, ↓reduceIte]
      exact uniform_write actions

theorem uniform_getActionChildren : ∀ (ns : List (DecisionNode rx.Regex)) (segments : List Str),
    Uniform fun result => getActionChildren rx ns segments result
  | [], _ => by
    simp only [getActionChildren]
    exact uniform_some
  | n :: ns, segments => by
    simp only [getActionChildren]
    exact (uniform_getAction n segments).bind (uniform_getActionChildren ns segments)

end

/-! ### Siblings -/

/-- Whether the node is for one segment, and not for any number of them. -/
def DecisionNode.isSingle {R : Type} : DecisionNode R → Bool
  | .multi _ _ => false
  | .single _ _ _ _ => true

@[simp] theorem DecisionNode.isSingle_withChildren {R : Type} (cs : List (DecisionNode R))
    (n : DecisionNode R) : (n.withChildren cs).isSingle = n.isSingle := by cases n <;> rfl

/-- A node with another pattern than `**` is an ordinary one. -/
theorem DecisionNode.isSingle_of_pattern {R : Type} {n : DecisionNode R}
    (h : n.pattern ≠ "**".toList) : n.isSingle = true := by
  cases n with
  | multi actions children => exact absurd rfl h
  | single pattern r actions children => rfl

/-- Of two or more siblings, one is an ordinary node. -/
def Loose {R : Type} (ns : List (DecisionNode R)) : Prop :=
  ns.length ≤ 1 ∨ ∃ n ∈ ns, n.isSingle = true

mutual

/-- The lists of children in the tree are all loose. -/
def DecisionNode.Mixed {R : Type} : DecisionNode R → Prop
  | .multi _ children => Loose children ∧ MixedAll children
  | .single _ _ _ children => Loose children ∧ MixedAll children

/-- The lists of children in all trees of a list are loose. -/
def MixedAll {R : Type} : List (DecisionNode R) → Prop
  | [] => True
  | n :: ns => n.Mixed ∧ MixedAll ns

end

theorem DecisionNode.mixed_iff {R : Type} {n : DecisionNode R} :
    n.Mixed ↔ Loose n.children ∧ MixedAll n.children := by
  cases n with
  | multi actions children => rw [DecisionNode.Mixed, DecisionNode.children]
  | single pattern r actions children => rw [DecisionNode.Mixed, DecisionNode.children]

theorem mixedAll_iff {R : Type} {ns : List (DecisionNode R)} :
    MixedAll ns ↔ ∀ n ∈ ns, n.Mixed := by
  induction ns with
  | nil => simp [MixedAll]
  | cons n ns ih => simp [MixedAll, ih]

theorem DecisionNode.mixed_of_children_nil {R : Type} {n : DecisionNode R}
    (h : n.children = []) : n.Mixed := by
  rw [DecisionNode.mixed_iff, h]
  exact ⟨Or.inl (Nat.zero_le 1), trivial⟩

/-- A new node behind nodes the last of which has another pattern. -/
theorem loose_concat {p : Str} {ns : List (DecisionNode rx.Regex)} {node : DecisionNode rx.Regex}
    (hp : node.pattern = p) (h : ∀ n ∈ ns.getLast?, n.pattern ≠ p) : Loose (ns ++ [node]) := by
  cases hlast : ns.getLast? with
  | none =>
    rw [List.getLast?_eq_none_iff.mp hlast]
    exact Or.inl (Nat.le_refl 1)
  | some last =>
    -- one of the last two is not a `**` node
    refine Or.inr ?_
    by_cases hstar : p = "**".toList
    · refine ⟨last, List.mem_append_left _ (List.mem_of_getLast? hlast), ?_⟩
      exact DecisionNode.isSingle_of_pattern (hstar ▸ h last hlast)
    · refine ⟨node, List.mem_append_right _ (List.mem_singleton_self node), ?_⟩
      exact DecisionNode.isSingle_of_pattern (hp ▸ hstar)

/-- The descending loop keeps siblings loose. -/
theorem loose_of_descended {p : Str}
    {f : List (DecisionNode rx.Regex) → List (DecisionNode rx.Regex) × Except Failure Unit}
    {ns ns' : List (DecisionNode rx.Regex)} (h : List.Forall₂ (Descended p f) ns ns')
    (hns : Loose ns) : Loose ns' := by
  rcases hns with hlen | ⟨n, hn, hsingle⟩
  · exact Or.inl (h.length_eq ▸ hlen)
  · obtain ⟨n', hn', hnn'⟩ := exists_left_of_forall₂ h.flip hn
    refine Or.inr ⟨n', hn', ?_⟩
    rcases hnn' with ⟨-, rfl⟩ | ⟨-, below, -, rfl⟩
    · exact hsingle
    · rw [DecisionNode.isSingle_withChildren]
      exact hsingle

/-- Accepted insertions keep trees mixed, and lists of siblings loose. -/
theorem traverseAdd_mixed {ps : List Str} {actions : Actions} :
    ∀ {ns ns' : List (DecisionNode rx.Regex)}, traverseAdd rx ps actions ns = (ns', .ok ()) →
      MixedAll ns → MixedAll ns' ∧ (Loose ns → Loose ns') := by
  induction ps with
  | nil => intro ns ns' h _; rw [traverseAdd] at h; cases h
  | cons p ps ih =>
    intro ns ns' h hns
    rw [mixedAll_iff] at hns
    -- the last segment is put at this level, the others lead through a node of it
    rcases traverseAdd_ok h with ⟨-, node, hnode, rfl⟩ | ⟨-, mid, hmid, -, hdesc⟩
    · have hpattern := pattern_of_nodeFromSegmentPattern hnode
      refine ⟨mixedAll_iff.mpr fun n hn => ?_, fun _ => loose_concat hpattern ?_⟩
      · rcases List.mem_append.mp hn with hn | hn
        · exact hns n (List.mem_of_mem_filter hn)
        · rw [List.mem_singleton.mp hn]
          exact DecisionNode.mixed_of_children_nil (children_of_nodeFromSegmentPattern hnode)
      · intro n hn
        simpa using List.of_mem_filter (List.mem_of_getLast? hn)
    · -- that node was the last one already, or it is appended without children
      have hmidAll : (∀ n ∈ mid, n.Mixed) ∧ (Loose ns → Loose mid) := by
        rcases hmid with rfl | ⟨hlast, node, hnode, rfl⟩
        · exact ⟨hns, id⟩
        · refine ⟨fun n hn => ?_, fun _ =>
            loose_concat (pattern_of_nodeFromSegmentPattern hnode) ?_⟩
          · rcases List.mem_append.mp hn with hn | hn
            · exact hns n hn
            · rw [List.mem_singleton.mp hn]
              exact DecisionNode.mixed_of_children_nil (children_of_nodeFromSegmentPattern hnode)
          · intro n hn hnp
            rw [Option.mem_def.mp hn] at hlast
            exact hlast (congrArg some hnp)
      refine ⟨mixedAll_iff.mpr fun n' hn' => ?_, fun hloose =>
        loose_of_descended hdesc (hmidAll.2 hloose)⟩
      obtain ⟨n, hn, hnn'⟩ := exists_left_of_forall₂ hdesc hn'
      rcases hnn' with ⟨-, rfl⟩ | ⟨-, below, hbelow, rfl⟩
      · exact hmidAll.1 _ hn
      · have hchildren := DecisionNode.mixed_iff.mp (hmidAll.1 n hn)
        obtain ⟨hmixed, hloose⟩ := ih hbelow hchildren.2
        rw [DecisionNode.mixed_iff, DecisionNode.children_withChildren]
        exact ⟨hloose hchildren.1, hmixed⟩

/-- The graph of accepted lines is mixed. -/
theorem mixedAll_of_ofLines {lines : List Str} {graph : DecisionGraph rx}
    (h : DecisionGraph.ofLines rx lines = .ok graph) : MixedAll graph.children := by
  obtain ⟨graph₀, hnew, hadd⟩ := ofLines_ok h
  obtain ⟨r, -, hchildren⟩ := new_ok hnew
  have hgraph₀ : MixedAll graph₀.children := by
    rw [hchildren, mixedAll_iff]
    intro n hn
    rw [List.mem_singleton.mp hn]
    exact DecisionNode.mixed_of_children_nil rfl
  clear hnew hchildren h
  induction lines generalizing graph₀ with
  | nil => cases hadd; exact hgraph₀
  | cons line lines ih =>
    obtain ⟨graph₁, hline, hlines⟩ := addRules_cons hadd
    obtain ⟨pattern, actions, -, hins⟩ := addRuleFromStr_ok hline
    exact ih graph₁ hlines (traverseAdd_mixed hins hgraph₀).1

/-! ### Paths below -/

/-- Evaluating an ordinary node on no segments panics. -/
theorem getActionChildren_nil_of_isSingle {ns : List (DecisionNode rx.Regex)}
    (h : ∃ n ∈ ns, n.isSingle = true) (result : ActionResult) :
    getActionChildren rx ns [] result = none := by
  induction ns generalizing result with
  | nil => obtain ⟨n, hn, -⟩ := h; simp at hn
  | cons n ns ih =>
    rw [getActionChildren]
    cases n with
    | single pattern r actions children => rw [DecisionNode.getAction]; rfl
    | multi actions children =>
      obtain ⟨n, hn, hsingle⟩ := h
      rcases List.mem_cons.mp hn with rfl | hn
      · cases hsingle
      · cases DecisionNode.getAction rx (.multi actions children) [] result with
        | none => rfl
        | some result' => exact ih ⟨n, hn, hsingle⟩ result'

/-- A `**` node whose loop runs panics on a path of one segment. -/
theorem getAction_multi_singleton {actions : Option Actions}
    {children : List (DecisionNode rx.Regex)} (hloose : Loose children)
    (hlen : 3 ≤ children.length) (s : Str) (result : ActionResult) :
    DecisionNode.getAction rx (.multi actions children) [s] result = none := by
  have hsingle : ∃ n ∈ children, n.isSingle = true := by
    rcases hloose with h | h
    · omega
    · exact h
  obtain ⟨k, hk⟩ : ∃ k, children.length - 1 - 1 = k + 1 := ⟨children.length - 3, by omega⟩
  have hpos : 0 < children.length := by omega
  rw [DecisionNode.getAction]
  simp only [hpos, ↓reduceIte, hk, List.range'_succ, List.foldlM_cons, List.length_cons,
    List.length_nil, Nat.zero_add, Nat.le_refl, List.drop_succ_cons, List.drop_zero]
  rw [getActionChildren_nil_of_isSingle hsingle]
  rfl

mutual

/-- **What is not descended into has one decision**, node by node: if no prefix of the
path panics and the path does not set `descend`, the paths below have the same result. -/
theorem DecisionNode.getAction_below : ∀ (n : DecisionNode rx.Regex), n.Mixed →
    ∀ {path : List Str}, path ≠ [] →
      (∀ init, init ≠ [] → init <+: path → ∀ result, (n.getAction rx init result).isSome) →
      ∀ {result : ActionResult},
        (∀ result', n.getAction rx path result = some result' → result'.descend = false) →
        ∀ more, n.getAction rx (path ++ more) result = n.getAction rx path result
  | .multi actions children, hmixed, path, hpath, hsafe, result, hdesc, more => by
    rw [DecisionNode.Mixed] at hmixed
    obtain ⟨s, ss, rfl⟩ := List.exists_cons_of_ne_nil hpath
    -- with three children the loop would run, and panic on the first segment alone
    have hlen : ¬ 3 ≤ children.length := by
      intro hlen
      have := hsafe [s] (by simp) ⟨ss, rfl⟩ result
      rw [getAction_multi_singleton hmixed.1 hlen] at this
      simp at this
    have hrange : children.length - 1 - 1 = 0 := by omega
    rw [DecisionNode.getAction, DecisionNode.getAction] at *
    by_cases hpos : 0 < children.length
    · simp only [hpos, ↓reduceIte, hrange, List.range'_zero, List.foldlM_nil] at hdesc ⊢
      by_cases hone : (s :: ss).length = 1
      · have := hdesc _ (by rw [if_pos hone]; rfl)
        cases this
      · have hmore : ¬ ((s :: ss) ++ more).length = 1 := by
          rw [List.length_append]
          simp only [List.length_cons] at hone ⊢
          omega
        rw [if_neg hone, if_neg hmore]
    · simp only [hpos, ↓reduceIte]
  | .single pattern r actions children, hmixed, path, hpath, hsafe, result, hdesc, more => by
    rw [DecisionNode.Mixed] at hmixed
    obtain ⟨s, ss, rfl⟩ := List.exists_cons_of_ne_nil hpath
    rw [List.cons_append, DecisionNode.getAction, DecisionNode.getAction]
    rw [DecisionNode.getAction] at hdesc
    cases hm : rx.isMatch r s with
    | false => rfl
    | true =>
      simp only [hm, Bool.not_true, Bool.false_eq_true, ↓reduceIte] at hdesc ⊢
      cases ss with
      | nil =>
        -- an ordinary node with children asks to descend when the path ends at it
        have hnil : children = [] := by
          by_contra hne
          have hpos : 0 < children.length := List.length_pos_of_ne_nil hne
          have := hdesc _ rfl
          rw [if_pos hpos] at this
          cases this
        subst hnil
        cases more <;> simp [getActionChildren]
      | cons t ts =>
        have hrest := getActionChildren_below children hmixed.2 (List.cons_ne_nil t ts)
          (fun init hinit hpre result => by
            have h := hsafe (s :: init) (by simp) (List.cons_prefix_cons.mpr ⟨rfl, hpre⟩) result
            rw [DecisionNode.getAction] at h
            simp only [hm, Bool.not_true, Bool.false_eq_true, ↓reduceIte,
              List.length_eq_zero_iff, hinit] at h
            exact (uniform_getActionChildren children init).isSome h result)
          (by simpa using hdesc) more
        simpa using hrest

/-- The same for a list of nodes. -/
theorem getActionChildren_below : ∀ (ns : List (DecisionNode rx.Regex)), MixedAll ns →
    ∀ {path : List Str}, path ≠ [] →
      (∀ init, init ≠ [] → init <+: path → ∀ result, (getActionChildren rx ns init result).isSome) →
      ∀ {result : ActionResult},
        (∀ result', getActionChildren rx ns path result = some result' →
          result'.descend = false) →
        ∀ more, getActionChildren rx ns (path ++ more) result = getActionChildren rx ns path result
  | [], _, path, _, _, result, _, more => by rw [getActionChildren, getActionChildren]
  | n :: ns, hmixed, path, hpath, hsafe, result, hdesc, more => by
    rw [MixedAll] at hmixed
    have hhead : ∀ init, init ≠ [] → init <+: path → ∀ result,
        (n.getAction rx init result).isSome := by
      intro init hinit hpre result
      have h := hsafe init hinit hpre result
      rw [getActionChildren] at h
      exact Option.isSome_of_isSome_bind h
    have htail : ∀ init, init ≠ [] → init <+: path → ∀ result,
        (getActionChildren rx ns init result).isSome := by
      intro init hinit hpre result
      have h := hsafe init hinit hpre result
      rw [getActionChildren] at h
      cases hn : n.getAction rx init result with
      | none => rw [hn] at h; cases h
      | some y =>
        rw [hn, Option.bind_some] at h
        exact (uniform_getActionChildren ns init).isSome h result
    obtain ⟨y, hy⟩ := Option.isSome_iff_exists.mp (hhead path hpath (List.prefix_refl path) result)
    rw [getActionChildren, hy, Option.bind_some] at hdesc
    -- `descend` is only ever set, so the first node has not set it either
    have hyd : ∀ result', n.getAction rx path result = some result' →
        result'.descend = false := by
      intro result' hres
      rw [hy, Option.some.injEq] at hres
      subst hres
      obtain ⟨z, hz⟩ := Option.isSome_iff_exists.mp (htail path hpath (List.prefix_refl path) y)
      exact (uniform_getActionChildren ns path).descend hz (hdesc z hz)
    rw [getActionChildren, getActionChildren,
      DecisionNode.getAction_below n hmixed.1 hpath hhead hyd more, hy, Option.bind_some,
      Option.bind_some]
    exact getActionChildren_below ns hmixed.2 hpath htail hdesc more

end

/-- **What is not descended into has one decision.**  In the graph of accepted rule lines,
if no prefix of a path panics and its decision does not ask to descend, every path below
has the same decision. -/
theorem getAction_below {lines : List Str} {graph : DecisionGraph rx}
    (hgraph : DecisionGraph.ofLines rx lines = .ok graph) {path : List Segment}
    (hpath : path ≠ [])
    (hsafe : ∀ init, init ≠ [] → init <+: path → (graph.getAction (init.map .utf8)).isSome)
    {decision : ActionResult} (hdec : graph.getAction (path.map .utf8) = some decision)
    (hdesc : decision.descend = false) (more : List Segment) :
    graph.getAction ((path ++ more).map .utf8) = some decision := by
  have hget : ∀ segs : List Segment, segs ≠ [] → graph.getAction (segs.map .utf8) =
      getActionChildren rx graph.children (segs.map Segment.text) DecisionGraph.initialResult := by
    intro segs hsegs
    rw [DecisionGraph.getAction, Path.toStr_utf8, Option.bind_some, splitOn_intercalate_text hsegs]
  rw [hget path hpath] at hdec
  rw [hget _ (by simp [hpath]), List.map_append, ← hdec]
  refine getActionChildren_below graph.children (mixedAll_of_ofLines hgraph) (by simpa using hpath)
    ?_ ?_ _
  · intro init hinit hpre result
    have hsegs : (path.take init.length).map Segment.text = init := by
      rw [List.map_take]
      exact (List.prefix_iff_eq_take.mp hpre).symm
    have hne : path.take init.length ≠ [] := by
      intro hnil
      rw [hnil] at hsegs
      exact hinit hsegs.symm
    have h := hsafe _ hne (List.take_prefix _ _)
    rw [hget _ hne, hsegs] at h
    exact (uniform_getActionChildren graph.children _).isSome h result
  · intro result' hres
    rw [hdec, Option.some.injEq] at hres
    exact hres ▸ hdesc

end

end Keep
end Lapas
