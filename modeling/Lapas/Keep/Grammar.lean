import Lapas.Keep.Globs
import Lapas.Library.Transition

/-!
# The grammar of rule lines

A line is read by the positions of its first two blanks, and a bad segment is found only
where a node is made for it.  A node that exists already has a pattern that was accepted, so
a bad segment always needs a new node, whatever lines came before.

## Main definitions

* `baseFirst`, `userFirst` — the two ways to write a rule.
* `ValidSegment` — a segment that may be written in a rule.
* `DecisionNode.Valid` — all segments in a tree are valid.
* `ruleMachine` — a graph, line after line.

## Main results

* `ruleOfLine_eq_ok_iff` — the reading of a line.
* `traverseAdd_valid` — an insertion, accepted or not, keeps the segments valid, and is accepted
  exactly when its own segments are.
* `addRuleFromStr_eq_ok_iff` — the lines that are accepted.
-/

namespace Lapas
namespace Keep

/-! ### Lines -/

/-- The word for an action, as the rules spell it; `fromStr` reads it back. -/
def FileAction.word : FileAction → Str
  | .keep => "keep".toList
  | .delete => "delete".toList

/-- The action for the base layer comes first. -/
def baseFirst (actions : Actions) (pattern : Str) : Str :=
  "base:".toList ++ actions.base.word ++ ' ' ::
    ("user:".toList ++ actions.user.word ++ ' ' :: pattern)

/-- The action for the user layer comes first. -/
def userFirst (actions : Actions) (pattern : Str) : Str :=
  "user:".toList ++ actions.user.word ++ ' ' ::
    ("base:".toList ++ actions.base.word ++ ' ' :: pattern)

theorem FileAction.fromStr_eq_ok_iff {s : Str} {action : FileAction} :
    FileAction.fromStr s = .ok action ↔ s = action.word := by
  constructor
  · intro h
    unfold FileAction.fromStr at h
    split at h
    · next hs => cases h; exact hs
    · split at h
      · next hs => cases h; exact hs
      · cases h
  · rintro rfl
    cases action <;> rfl

/-- What follows the key of a field. -/
theorem eq_append_of_drop {key field word : Str} (hkey : key.length = 5) (h : key <+: field)
    (hdrop : field.drop 5 = word) : field = key ++ word := by
  obtain ⟨rest, rfl⟩ := h
  rw [← hkey, List.drop_left] at hdrop
  rw [hdrop]

theorem not_base_and_user {field : Str} (hbase : "base:".toList <+: field) :
    ¬ "user:".toList <+: field := by
  intro huser
  obtain ⟨rest, rfl⟩ := hbase
  exact absurd (List.cons_prefix_cons.mp huser).1 (by decide)

theorem of_guard_eq_ok {α : Type} {c : Bool} {call : Except Failure α} {e : Failure} {a : α}
    (h : (if c then call else .error e) = .ok a) : c = true ∧ call = .ok a := by
  split at h
  · next hc => exact ⟨hc, h⟩
  · cases h

/-- A line that is read has one of the two forms. -/
theorem eq_of_ruleOfLine {line : Str} {segments : List Str} {actions : Actions}
    (h : ruleOfLine line = .ok (segments, actions)) : ∃ pattern,
      segments = pattern.splitOn '/' ∧
        (line = baseFirst actions pattern ∨ line = userFirst actions pattern) := by
  unfold ruleOfLine at h
  split at h
  · next first second pattern hsplit =>
    obtain ⟨rest, rfl, -, hrest⟩ := eq_append_of_splitn hsplit
    obtain ⟨rest, rfl, -, hrest⟩ := eq_append_of_splitn hrest
    obtain rfl : rest = pattern := (List.cons.inj hrest).1
    dsimp only at h
    obtain ⟨hkeys, h⟩ := of_guard_eq_ok h
    obtain ⟨base, hbase, h⟩ := exists_of_bind_ok h
    obtain ⟨user, huser, h⟩ := exists_of_bind_ok h
    cases h
    refine ⟨rest, rfl, ?_⟩
    rw [FileAction.fromStr_eq_ok_iff] at hbase huser
    simp only [Bool.and_eq_true, List.isPrefixOf_iff_prefix] at hkeys hbase huser
    by_cases hfirst : "base:".toList <+: first
    · rw [if_pos hfirst] at hbase
      rw [if_neg (not_base_and_user hfirst)] at hkeys huser
      refine .inl ?_
      rw [eq_append_of_drop rfl hfirst hbase, eq_append_of_drop rfl hkeys.2 huser]
      rfl
    · rw [if_neg hfirst] at hbase hkeys
      have hsecond := not_base_and_user hkeys.1
      by_cases huserFirst : "user:".toList <+: first
      · rw [if_pos huserFirst] at huser
        refine .inr ?_
        rw [eq_append_of_drop rfl huserFirst huser, eq_append_of_drop rfl hkeys.1 hbase]
        rfl
      · -- neither field is the one for the user layer
        rw [if_neg huserFirst] at hkeys
        exact absurd hkeys.2 hsecond
  · cases h

theorem blank_notMem_word (action : FileAction) (key : Str) (hkey : ' ' ∉ key) :
    ' ' ∉ key ++ action.word := by
  rw [List.mem_append, not_or]
  refine ⟨hkey, ?_⟩
  cases action <;> decide

theorem splitn_three {first second : Str} (hfirst : ' ' ∉ first) (hsecond : ' ' ∉ second)
    (pattern : Str) :
    splitn 3 ' ' (first ++ ' ' :: (second ++ ' ' :: pattern)) = [first, second, pattern] := by
  rw [splitn_append_cons hfirst 1, splitn_append_cons hsecond 0]
  rfl

theorem ruleOfLine_baseFirst (actions : Actions) (pattern : Str) :
    ruleOfLine (baseFirst actions pattern) = .ok (pattern.splitOn '/', actions) := by
  have hbase := blank_notMem_word actions.base "base:".toList (by decide)
  have huser := blank_notMem_word actions.user "user:".toList (by decide)
  unfold ruleOfLine baseFirst
  rw [splitn_three hbase huser]
  obtain ⟨base, user⟩ := actions
  cases base <;> cases user <;> rfl

theorem ruleOfLine_userFirst (actions : Actions) (pattern : Str) :
    ruleOfLine (userFirst actions pattern) = .ok (pattern.splitOn '/', actions) := by
  have hbase := blank_notMem_word actions.base "base:".toList (by decide)
  have huser := blank_notMem_word actions.user "user:".toList (by decide)
  unfold ruleOfLine userFirst
  rw [splitn_three huser hbase]
  obtain ⟨base, user⟩ := actions
  cases base <;> cases user <;> rfl

/-- The reading of a line. -/
theorem ruleOfLine_eq_ok_iff {line : Str} {segments : List Str} {actions : Actions} :
    ruleOfLine line = .ok (segments, actions) ↔ ∃ pattern, segments = pattern.splitOn '/' ∧
      (line = baseFirst actions pattern ∨ line = userFirst actions pattern) := by
  constructor
  · exact eq_of_ruleOfLine
  · rintro ⟨pattern, rfl, rfl | rfl⟩
    · exact ruleOfLine_baseFirst actions pattern
    · exact ruleOfLine_userFirst actions pattern

/-! ### Segments -/

/-- A `**` stands alone in its segment. -/
def ValidSegment (segment : Str) : Prop :=
  segment = "**".toList ∨ ¬ "**".toList <:+: segment

section

variable {R : Type}

mutual

/-- All segments in a tree are valid. -/
def DecisionNode.Valid : DecisionNode R → Prop
  | .multi _ children => ValidAll children
  | .single pattern _ _ children => ValidSegment pattern ∧ ValidAll children

/-- All segments in the trees of a list are valid. -/
def ValidAll : List (DecisionNode R) → Prop
  | [] => True
  | node :: nodes => node.Valid ∧ ValidAll nodes

end

theorem validAll_iff {nodes : List (DecisionNode R)} : ValidAll nodes ↔ ∀ n ∈ nodes, n.Valid := by
  induction nodes with
  | nil => simp [ValidAll]
  | cons n nodes ih => simp [ValidAll, ih]

theorem DecisionNode.valid_iff {n : DecisionNode R} :
    n.Valid ↔ ValidSegment n.pattern ∧ ValidAll n.children := by
  cases n with
  | multi actions children =>
    rw [DecisionNode.Valid, DecisionNode.pattern, DecisionNode.children, ValidSegment]
    exact (and_iff_right (.inl rfl)).symm
  | single pattern r actions children =>
    rw [DecisionNode.Valid, DecisionNode.pattern, DecisionNode.children]

theorem DecisionNode.Valid.withChildren {n : DecisionNode R} (hn : n.Valid)
    {children : List (DecisionNode R)} (h : ValidAll children) :
    (n.withChildren children).Valid := by
  rw [DecisionNode.valid_iff] at hn ⊢
  rw [pattern_withChildren, children_withChildren]
  exact ⟨hn.1, h⟩

/-! ### Insertion -/

/-- The descending loop keeps the segments valid, and fails when one of its calls does. -/
theorem forMatching_valid {pattern : Str}
    {f : List (DecisionNode R) → List (DecisionNode R) × Except Failure Unit} {ok : Prop}
    (hf : ∀ below, ValidAll below → ValidAll (f below).1 ∧ ((f below).2 = .ok () ↔ ok)) :
    ∀ {nodes : List (DecisionNode R)}, ValidAll nodes →
      ValidAll (forMatching pattern f nodes).1 ∧
        ((forMatching pattern f nodes).2 = .ok () ↔ ∀ n ∈ nodes, n.pattern = pattern → ok) := by
  intro nodes
  induction nodes with
  | nil =>
    intro _
    exact ⟨trivial, by simp [forMatching]⟩
  | cons n nodes ih =>
    rintro ⟨hn, hnodes⟩
    obtain ⟨hrest, hrestOk⟩ := ih hnodes
    obtain ⟨hbelow, hok⟩ := hf n.children (DecisionNode.valid_iff.mp hn).2
    rw [forMatching]
    split
    · next hpattern =>
      cases hcall : f n.children with
      | mk below res =>
        rw [hcall] at hbelow hok
        have hn' := hn.withChildren hbelow
        cases res with
        | error e =>
          refine ⟨⟨hn', hnodes⟩, iff_of_false (by simp) fun h => ?_⟩
          cases hok.mpr (h n List.mem_cons_self hpattern)
        | ok u =>
          refine ⟨⟨hn', hrest⟩, hrestOk.trans ?_⟩
          rw [List.forall_mem_cons]
          exact (and_iff_right fun _ => hok.mp rfl).symm
    · next hpattern =>
      refine ⟨⟨hn, hrest⟩, hrestOk.trans ?_⟩
      rw [List.forall_mem_cons]
      exact (and_iff_right fun h => absurd h hpattern).symm

end

section

variable {rx : RegexCrate}

/-- Every segment is compiled to a regular expression of the fragment. -/
theorem exists_fromPattern (hrx : rx.Documented) (hnew : ∀ ps, ∃ r, rx.new (render ps) = .ok r)
    (pattern : Str) : ∃ r, rx.fromPattern pattern = .ok r := by
  obtain ⟨ps, hps⟩ : ∃ ps, rx.regexPatternStr pattern = render ps := by
    by_cases hstar : pattern = "*".toList
    · exact ⟨_, hstar ▸ regexPatternStr_star⟩
    · obtain ⟨ps, h⟩ := exists_compiles pattern
      exact ⟨ps, regexPatternStr_eq_render hrx hstar h⟩
  obtain ⟨r, hr⟩ := hnew ps
  exact ⟨r, by rw [RegexCrate.fromPattern, hps, hr]; rfl⟩

/-- A node is made for the valid segments. -/
theorem nodeFromSegmentPattern_valid (hrx : rx.Documented)
    (hnew : ∀ ps, ∃ r, rx.new (render ps) = .ok r) {segment : Str} (h : ValidSegment segment)
    (actions : Option Actions) : ∃ node,
      nodeFromSegmentPattern rx segment actions = .ok node ∧ node.pattern = segment ∧
        node.Valid := by
  obtain ⟨r, hr⟩ := exists_fromPattern hrx hnew segment
  by_cases hstar : segment = "**".toList
  · subst hstar
    exact ⟨.multi actions [], if_pos rfl, rfl, trivial⟩
  · have hfree := h.resolve_left hstar
    refine ⟨.single segment r actions [], ?_, rfl, h, trivial⟩
    rw [nodeFromSegmentPattern, if_neg hstar, if_neg (by rwa [contains_iff]), singleFromPattern, hr]
    rfl

theorem nodeFromSegmentPattern_not_valid {segment : Str} (h : ¬ ValidSegment segment)
    (actions : Option Actions) : ∃ e, nodeFromSegmentPattern rx segment actions = .error e := by
  rw [ValidSegment, not_or, not_not] at h
  exact ⟨_, by rw [nodeFromSegmentPattern, if_neg h.1, if_pos (contains_iff.mpr h.2)]⟩

theorem ValidAll.concat {R : Type} {nodes : List (DecisionNode R)} {node : DecisionNode R}
    (hnodes : ValidAll nodes) (hnode : node.Valid) : ValidAll (nodes ++ [node]) := by
  rw [validAll_iff] at hnodes ⊢
  intro n hn
  rcases List.mem_append.mp hn with hn | hn
  · exact hnodes n hn
  · rwa [List.mem_singleton.mp hn]

/-- Below the last node, which has the pattern, all is as the rest of the segments decides. -/
theorem descend_valid {segment : Str} {segments : List Str} {actions : Actions}
    (ih : ∀ {nodes : List (DecisionNode rx.Regex)}, ValidAll nodes →
      ValidAll (traverseAdd rx segments actions nodes).1 ∧
        ((traverseAdd rx segments actions nodes).2 = .ok () ↔ ∀ s ∈ segments, ValidSegment s))
    {nodes : List (DecisionNode rx.Regex)} (hnodes : ValidAll nodes)
    (hlast : nodes.getLast?.map (·.pattern) = some segment) :
    ValidAll (forMatching segment (traverseAdd rx segments actions) nodes).1 ∧
      ((forMatching segment (traverseAdd rx segments actions) nodes).2 = .ok () ↔
        ∀ s ∈ segment :: segments, ValidSegment s) := by
  obtain ⟨last, hmem, hpattern⟩ : ∃ last ∈ nodes, last.pattern = segment := by
    obtain ⟨last, hget, heq⟩ := Option.map_eq_some_iff.mp hlast
    exact ⟨last, List.mem_of_getLast? hget, heq⟩
  have hsegment : ValidSegment segment :=
    hpattern ▸ (DecisionNode.valid_iff.mp (validAll_iff.mp hnodes last hmem)).1
  obtain ⟨hvalid, hok⟩ := @forMatching_valid _ segment _ _ (fun _ h => ih h) _ hnodes
  refine ⟨hvalid, hok.trans ⟨fun h => ?_, fun h n _ _ => ?_⟩⟩
  · exact List.forall_mem_cons.mpr ⟨hsegment, h last hmem hpattern⟩
  · exact (List.forall_mem_cons.mp h).2

/-- An insertion, accepted or not, keeps the segments valid; it is accepted exactly when its own
segments are valid. -/
theorem traverseAdd_valid (hrx : rx.Documented) (hnew : ∀ ps, ∃ r, rx.new (render ps) = .ok r)
    {actions : Actions} {segments : List Str} (hne : segments ≠ [])
    {nodes : List (DecisionNode rx.Regex)} (hnodes : ValidAll nodes) :
    ValidAll (traverseAdd rx segments actions nodes).1 ∧
      ((traverseAdd rx segments actions nodes).2 = .ok () ↔ ∀ s ∈ segments, ValidSegment s) := by
  induction segments generalizing nodes with
  | nil => exact absurd rfl hne
  | cons segment segments ih =>
    rw [traverseAdd]
    cases segments with
    | nil =>
      -- a node is always made for the last segment
      simp only [List.length_nil, ne_eq, not_true_eq_false, ↓reduceIte, true_or, gt_iff_lt,
        Nat.lt_irrefl, List.mem_singleton, forall_eq]
      have hkept : ValidAll (nodes.filter (·.pattern ≠ segment)) :=
        validAll_iff.mpr fun n hn => validAll_iff.mp hnodes n (List.mem_filter.mp hn).1
      by_cases hvalid : ValidSegment segment
      · obtain ⟨node, hnode, -, hnodeValid⟩ :=
          nodeFromSegmentPattern_valid hrx hnew hvalid (some actions)
        rw [hnode]
        exact ⟨hkept.concat hnodeValid, iff_of_true rfl hvalid⟩
      · obtain ⟨e, he⟩ := @nodeFromSegmentPattern_not_valid rx _ hvalid (some actions)
        rw [he]
        exact ⟨hkept, iff_of_false (fun h => by cases h) hvalid⟩
    | cons t ts =>
      have hlen : (t :: ts).length ≠ 0 := by simp
      have hpos : (t :: ts).length > 0 := by simp
      have hbelow := fun {nodes} => @ih (List.cons_ne_nil t ts) nodes
      simp only [hlen, hpos, ne_eq, not_false_eq_true, ↓reduceIte, false_or]
      by_cases hlast : nodes.getLast?.map (·.pattern) = some segment
      · -- the last node has the segment: no node is made
        rw [if_neg (not_not.mpr hlast)]
        exact descend_valid hbelow hnodes hlast
      rw [if_pos hlast]
      by_cases hvalid : ValidSegment segment
      · obtain ⟨node, hnode, hpattern, hnodeValid⟩ :=
          nodeFromSegmentPattern_valid hrx hnew hvalid none
        rw [hnode]
        exact descend_valid hbelow (hnodes.concat hnodeValid) (by simp [hpattern])
      · obtain ⟨e, he⟩ := @nodeFromSegmentPattern_not_valid rx _ hvalid none
        rw [he]
        exact ⟨hnodes, iff_of_false (fun h => by cases h) fun h =>
          hvalid (h segment List.mem_cons_self)⟩

/-! ### Graphs -/

/-- A graph, to which lines are added; the graph that a failed call leaves is used on. -/
def ruleMachine (rx : RegexCrate) : Machine (DecisionGraph rx) Str where
  start graph := DecisionGraph.new rx = .ok graph
  step graph line := some (graph.addRuleFromStr line).1

/-- All segments in a graph are valid. -/
def DecisionGraph.Valid (graph : DecisionGraph rx) : Prop := ValidAll graph.children

/-- A line, accepted or not, keeps the graph valid. -/
theorem DecisionGraph.Valid.addRuleFromStr (hrx : rx.Documented)
    (hnew : ∀ ps, ∃ r, rx.new (render ps) = .ok r) {graph : DecisionGraph rx} (hgraph : graph.Valid)
    (line : Str) :
    (graph.addRuleFromStr line).1.Valid ∧
      ((graph.addRuleFromStr line).2 = .ok () ↔ ∃ segments actions,
        ruleOfLine line = .ok (segments, actions) ∧ ∀ s ∈ segments, ValidSegment s) := by
  rw [DecisionGraph.addRuleFromStr]
  cases hline : ruleOfLine line with
  | error e => exact ⟨hgraph, iff_of_false (fun h => nomatch h) fun ⟨_, _, h, _⟩ => nomatch h⟩
  | ok rule =>
    obtain ⟨segments, actions⟩ := rule
    obtain ⟨pattern, rfl, -⟩ := eq_of_ruleOfLine hline
    obtain ⟨hvalid, hok⟩ :=
      @traverseAdd_valid rx hrx hnew actions _ (List.splitOn_ne_nil '/' pattern) _ hgraph
    refine ⟨hvalid, hok.trans ⟨fun h => ⟨_, _, rfl, h⟩, ?_⟩⟩
    rintro ⟨_, _, heq, h⟩
    cases heq
    exact h

theorem valid_of_reach (hrx : rx.Documented) (hnew : ∀ ps, ∃ r, rx.new (render ps) = .ok r)
    {graph : DecisionGraph rx} (h : (ruleMachine rx).Reach (fun _ _ => True) graph) :
    graph.Valid := by
  refine h.invariant (fun s hs => ?_) (fun s line s' hs _ hstep => ?_)
  · obtain ⟨r, -, hchildren⟩ := new_ok hs
    rw [DecisionGraph.Valid, hchildren]
    exact ⟨⟨.inl rfl, trivial⟩, trivial⟩
  · cases hstep
    exact (hs.addRuleFromStr hrx hnew line).1

/-- **The grammar of rule lines**: a line is accepted exactly when it is one of the two forms and
all segments of its pattern are valid, whatever lines came before; the two forms say the same. -/
theorem addRuleFromStr_eq_ok_iff (hrx : rx.Documented)
    (hnew : ∀ ps, ∃ r, rx.new (render ps) = .ok r) {graph : DecisionGraph rx}
    (h : (ruleMachine rx).Reach (fun _ _ => True) graph) :
    (∀ line, (graph.addRuleFromStr line).2 = .ok () ↔ ∃ actions pattern,
      (line = baseFirst actions pattern ∨ line = userFirst actions pattern) ∧
        ∀ s ∈ pattern.splitOn '/', ValidSegment s) ∧
    ∀ actions pattern path,
      (graph.addRuleFromStr (baseFirst actions pattern)).1.getAction path =
        (graph.addRuleFromStr (userFirst actions pattern)).1.getAction path := by
  constructor
  · intro line
    rw [((valid_of_reach hrx hnew h).addRuleFromStr hrx hnew line).2]
    constructor
    · rintro ⟨segments, actions, hline, hvalid⟩
      obtain ⟨pattern, rfl, hform⟩ := eq_of_ruleOfLine hline
      exact ⟨actions, pattern, hform, hvalid⟩
    · rintro ⟨actions, pattern, hform, hvalid⟩
      exact ⟨_, actions, ruleOfLine_eq_ok_iff.mpr ⟨pattern, rfl, hform⟩, hvalid⟩
  · intro actions pattern path
    rw [DecisionGraph.addRuleFromStr, ruleOfLine_baseFirst, DecisionGraph.addRuleFromStr,
      ruleOfLine_userFirst]

instance (segment : Str) : Decidable (ValidSegment segment) :=
  inferInstanceAs (Decidable (segment = "**".toList ∨ ¬ "**".toList <:+: segment))

/-- After a line that was refused, which has left the nodes for `a`. -/
theorem addRuleFromStr_eq_ok_iff_a : ∃ graph₀ graph : DecisionGraph pieceCrate,
    DecisionGraph.new pieceCrate = .ok graph₀ ∧
    (graph₀.addRuleFromStr "base:keep user:keep a/b**".toList).1 = graph ∧
    (graph.addRuleFromStr "user:delete base:keep a/**/c".toList).2 = .ok () := by
  obtain ⟨graph₀, hnew⟩ : ∃ graph₀, DecisionGraph.new pieceCrate = .ok graph₀ := ⟨_, rfl⟩
  have hreach : (ruleMachine pieceCrate).Reach (fun _ _ => True)
    (graph₀.addRuleFromStr "base:keep user:keep a/b**".toList).1 := .step (.start hnew) trivial rfl
  have hiff := (addRuleFromStr_eq_ok_iff pieceCrate_documented
    (fun ps => ⟨ps, parsePieces_render ps⟩) hreach).1
  refine ⟨graph₀, _, hnew, rfl, (hiff _).mpr ?_⟩
  exact ⟨{ base := .keep, user := .delete }, "a/**/c".toList, .inr rfl, by decide⟩

end

end Keep
end Lapas
