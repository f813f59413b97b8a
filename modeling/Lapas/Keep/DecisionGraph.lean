import Lapas.Keep.Regex

/-!
# The decision graph

The rules of a `.keep` file are merged into a tree of segment nodes.  `addRule`
is the insertion and `getAction` the evaluation; both follow the source, the
mutable node lists becoming state that is handed on, also out of a call that
fails.

## Main definitions

* `FileAction`, `Actions`, `ActionResult` — the decisions.
* `DecisionNode`, `DecisionGraph` — the tree.
* `DecisionNode.getAction`, `DecisionGraph.getAction` — the evaluation; `none` is
  a panic.
* `ruleOfLine` — the reading of a rule line.
* `traverseAdd`, `DecisionGraph.addRule`, `DecisionGraph.addRuleFromStr` — the
  insertion.
-/

namespace Lapas
namespace Keep

/-! ### Decisions -/

/-- What is done with a file in one of the layers. -/
inductive FileAction
  | delete
  | keep
  deriving DecidableEq, Repr

/-- `FileAction::from_str`: two words are actions, and every other text is an error, also one in
capital letters. -/
def FileAction.fromStr (s : Str) : Except Failure FileAction :=
  if s = "keep".toList then .ok .keep
  else if s = "delete".toList then .ok .delete
  else .error (.err "Invalid rule action")

/-- What to do with a matching file of each of the two layers. -/
structure Actions where
  base : FileAction
  user : FileAction
  deriving DecidableEq, Repr

/-- What the walk over the graph says about a path: the actions for the path, and whether one for
something below it may be kept. -/
structure ActionResult where
  actions : Actions
  descend : Bool
  deriving DecidableEq, Repr

/-! ### Nodes -/

/-- A node of the tree.  `R` is the type of compiled regular expressions. -/
inductive DecisionNode (R : Type) where
  /-- `MultiSegmentNode`: the pattern `**`. -/
  | multi (actions : Option Actions) (children : List (DecisionNode R))
  /-- `SingleSegmentNode`: a pattern such as `*.log`. -/
  | single (pattern : Str) (regexPattern : R) (actions : Option Actions)
      (children : List (DecisionNode R))

namespace DecisionNode

variable {R : Type}

/-- The raw pattern that produced this node. -/
def pattern : DecisionNode R → Str
  | .multi _ _ => "**".toList
  | .single pattern _ _ _ => pattern

/-- The nodes for the next segment, which both kinds of nodes have in the same place. -/
def children : DecisionNode R → List (DecisionNode R)
  | .multi _ children => children
  | .single _ _ _ children => children

/-- The actions of the rules that end at the node, and `none` where none ends. -/
def actions : DecisionNode R → Option Actions
  | .multi actions _ => actions
  | .single _ _ actions _ => actions

/-- The node with other children, as `add_rule` changes it in place; the pattern and the actions
stay. -/
def withChildren (children : List (DecisionNode R)) : DecisionNode R → DecisionNode R
  | .multi actions _ => .multi actions children
  | .single pattern regexPattern actions _ => .single pattern regexPattern actions children

@[simp] theorem pattern_multi (actions : Option Actions) (children : List (DecisionNode R)) :
    (multi actions children).pattern = "**".toList := rfl

@[simp] theorem pattern_single (pattern : Str) (r : R) (actions : Option Actions)
    (children : List (DecisionNode R)) : (single pattern r actions children).pattern = pattern :=
  rfl

@[simp] theorem pattern_withChildren (cs : List (DecisionNode R)) (n : DecisionNode R) :
    (n.withChildren cs).pattern = n.pattern := by cases n <;> rfl

@[simp] theorem children_withChildren (cs : List (DecisionNode R)) (n : DecisionNode R) :
    (n.withChildren cs).children = cs := by cases n <;> rfl

@[simp] theorem actions_withChildren (cs : List (DecisionNode R)) (n : DecisionNode R) :
    (n.withChildren cs).actions = n.actions := by cases n <;> rfl

@[simp] theorem withChildren_children (n : DecisionNode R) :
    n.withChildren n.children = n := by cases n <;> rfl

end DecisionNode

/-- `result.actions = actions`, for a node that has actions. -/
def ActionResult.write (result : ActionResult) : Option Actions → ActionResult
  | some actions => { result with actions }
  | none => result

/-! ### Evaluation -/

section

variable (rx : RegexCrate)

mutual

/-- `DecisionNode::get_action` of both kinds of nodes. -/
def DecisionNode.getAction : DecisionNode rx.Regex → List Str → ActionResult → Option ActionResult
  | .multi actions children, segments, result =>
    let result := result.write actions
    if 0 < children.length then
      let result := if segments.length = 1 then { result with descend := true } else result
      -- `for i in 1..self.children.len() - 1`, where `&segments[i..]` may panic
      (List.range' 1 (children.length - 1 - 1)).foldlM (fun result i =>
        if i ≤ segments.length then getActionChildren children (segments.drop i) result
        else none) result
    else some result
  -- `segments[0]` of no segments
  | .single _ _ _ _, [], _ => none
  | .single _ regexPattern actions children, s :: segments, result =>
    if !rx.isMatch regexPattern s then some result
    else
      let result := result.write actions
      if segments.length = 0 then
        some (if 0 < children.length then { result with descend := true } else result)
      else getActionChildren children segments result

/-- `for child in &children { child.get_action(segments, result) }` -/
def getActionChildren : List (DecisionNode rx.Regex) → List Str → ActionResult → Option ActionResult
  | [], _, result => some result
  | child :: children, segments, result =>
    (child.getAction segments result).bind (getActionChildren children segments)

end

/-! ### Insertion -/

/-- `SingleSegmentNode::from_pattern`: a node without children whose regular expression is compiled
from the pattern; a refused one is an error. -/
def singleFromPattern (pattern : Str) (actions : Option Actions) :
    Except Failure (DecisionNode rx.Regex) :=
  (rx.fromPattern pattern).map fun r => .single pattern r actions []

/-- The node for one segment of a rule: double stars have to be a segment of their own. -/
def nodeFromSegmentPattern (segmentPattern : Str) (actions : Option Actions) :
    Except Failure (DecisionNode rx.Regex) :=
  if segmentPattern = "**".toList then .ok (.multi actions [])
  else if contains "**".toList segmentPattern then
    .error (.err ("Invalid Pattern. Double-stars are only allowed in isolation between path " ++
      "separators: " ++ String.ofList segmentPattern))
  else singleFromPattern rx segmentPattern actions

/-- `for child in children_mut()`, running `f` on the children of those with the
pattern, up to the first that fails. -/
def forMatching {R : Type} (pattern : Str)
    (f : List (DecisionNode R) → List (DecisionNode R) × Except Failure Unit) :
    List (DecisionNode R) → List (DecisionNode R) × Except Failure Unit
  | [] => ([], .ok ())
  | child :: children =>
    if child.pattern = pattern then
      match f child.children with
      | (below, .error e) => (child.withChildren below :: children, .error e)
      | (below, .ok ()) =>
        let (children, res) := forMatching pattern f children
        (child.withChildren below :: children, res)
    else
      let (children, res) := forMatching pattern f children
      (child :: children, res)

/-- `traverse_add`, on the children of a node. -/
def traverseAdd : List Str → Actions → List (DecisionNode rx.Regex) →
    List (DecisionNode rx.Regex) × Except Failure Unit
  | [], _, children => (children, .error (.panic "index out of bounds"))
  | segment :: segments, actions, children =>
    let nextNodeActions := if segments.length ≠ 0 then none else some actions
    -- at the last segment, children with exactly our pattern are replaced
    let children :=
      if segments.length = 0 then children.filter (·.pattern ≠ segment) else children
    -- only the last child may be shared, to keep the absolute ordering of rules
    let appended :=
      if segments.length = 0 ∨ (children.getLast?.map (·.pattern)) ≠ some segment then
        (nodeFromSegmentPattern rx segment nextNodeActions).map (children ++ [·])
      else .ok children
    match appended with
    | .error e => (children, .error e)
    | .ok children =>
      if segments.length > 0 then forMatching segment (traverseAdd segments actions) children
      else (children, .ok ())

/-- Reading a rule line: its pattern, cut at `/`, and its actions. -/
def ruleOfLine (ruleLine : Str) : Except Failure (List Str × Actions) :=
  let invalid := Failure.panic ("Invalid Rule: " ++ String.ofList ruleLine)
  match splitn 3 ' ' ruleLine with
  | [first, second, pattern] =>
    let baseActionStr := if "base:".toList.isPrefixOf first then first else second
    let userActionStr := if "user:".toList.isPrefixOf first then first else second
    if "base:".toList.isPrefixOf baseActionStr && "user:".toList.isPrefixOf userActionStr then do
      let base ← FileAction.fromStr (baseActionStr.drop 5)
      let user ← FileAction.fromStr (userActionStr.drop 5)
      .ok (pattern.splitOn '/', { base, user })
    else .error invalid
  | _ => .error invalid

end

/-! ### The graph -/

/-- The rules of a `.keep` file, with the segments that they have in common at the front shared. -/
structure DecisionGraph (rx : RegexCrate) where
  children : List (DecisionNode rx.Regex)

/-- The actions for a path that no rule matches. -/
def defaultActions : Actions := { base := .delete, user := .keep }

namespace DecisionGraph

variable {rx : RegexCrate}

/-- `DecisionGraph::new`: the graph with the rule for everything, which the source unwraps, so that
a refused pattern panics. -/
def new (rx : RegexCrate) : Except Failure (DecisionGraph rx) :=
  match singleFromPattern rx "**".toList (some defaultActions) with
  | .ok node => .ok { children := [node] }
  | .error _ => .error (.panic "called `Result::unwrap()` on an `Err` value")

/-- `add_rule`, for the segments of a rule.  A rule that fails half way leaves the nodes that it has
made. -/
def addRule (graph : DecisionGraph rx) (segments : List Str) (actions : Actions) :
    DecisionGraph rx × Except Failure Unit :=
  let (children, res) := traverseAdd rx segments actions graph.children
  ({ children }, res)

/-- `add_rule_from_str`, for one line of the file. -/
def addRuleFromStr (graph : DecisionGraph rx) (ruleLine : Str) :
    DecisionGraph rx × Except Failure Unit :=
  match ruleOfLine ruleLine with
  | .error e => (graph, .error e)
  | .ok (segments, actions) => graph.addRule segments actions

/-- Adding rule lines one after another, up to the first that is not accepted. -/
def addRules : DecisionGraph rx → List Str → Except Failure (DecisionGraph rx)
  | graph, [] => .ok graph
  | graph, line :: lines =>
    match graph.addRuleFromStr line with
    | (graph, .ok ()) => addRules graph lines
    | (_, .error e) => .error e

/-- The graph of a list of rule lines. -/
def ofLines (rx : RegexCrate) (lines : List Str) : Except Failure (DecisionGraph rx) :=
  (new rx).bind (·.addRules lines)

/-- The starting value of an evaluation: both actions keep, and no node has yet asked to descend. -/
def initialResult : ActionResult :=
  { actions := { base := .keep, user := .keep }, descend := false }

/-- `DecisionGraph::get_action`, from the root: the path as text, split at the slashes; `none` is a
panic. -/
def getAction (graph : DecisionGraph rx) (path : Path) : Option ActionResult :=
  path.toStr.bind fun text =>
    getActionChildren rx graph.children (text.splitOn '/') initialResult

end DecisionGraph

end Keep
end Lapas
