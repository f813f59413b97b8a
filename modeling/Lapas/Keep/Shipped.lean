import Lapas.Keep.Grammar
import Lapas.Keep.Layers
import Lapas.Keep.Walk

/-!
# The shipped rules

The `.keep` file of a new home says who owns what: a few paths always come from the base layer,
some files below them belong to the user, and everything else is the user's.  Its rules overrule
each other, so what they say together depends on their order; here it is put into words, and
carried over to what a home shows.

## Main definitions

* `shippedRules` — the rules of the file, in its order.
* `Among` — a path is named by one of some patterns, or below what is.
* `KeptInBase`, `KeptInUser` — the paths that are kept in the two layers.
* `Covered` — the user layer has something left at the path, or in front of it, that hides it.

## Main results

* `getAction_decided` — evaluating the graph is deciding by its list of rules.
* `segmentHit_iff_globMatches` — in accepted lines, segments match as globs.
* `saysKeep_shipped_iff` — the decisions of the shipped rules.
* `homeView_shipped` — **which file a home shows at a path, under the shipped rules.**
-/

namespace Lapas
namespace Keep

/-! ### Accepted patterns -/

section

variable {rx : RegexCrate}

/-- The segment is one that the engine accepts: a `**`, or one with a regular expression. -/
def Accepted (rx : RegexCrate) (segment : Str) : Prop :=
  segment = "**".toList ∨ ∃ r, rx.fromPattern segment = .ok r

/-- An accepted insertion has accepted each segment of its pattern. -/
theorem accepted_of_traverseAdd {ps : List Str} {actions : Actions} (hstar : DoubleStarLast ps) :
    ∀ {ns ns' : List (DecisionNode rx.Regex)},
      traverseAdd rx ps actions ns = (ns', .ok ()) → PlainAll rx ns → ∀ p ∈ ps, Accepted rx p := by
  induction ps with
  | nil => intro ns ns' _ _ p hp; cases hp
  | cons p ps ih =>
    intro ns ns' h hns
    have hnew : ∀ {acts node}, nodeFromSegmentPattern rx p acts = .ok node → Accepted rx p := by
      intro acts node hnode
      rcases nodeFromSegmentPattern_ok hnode with ⟨hp, -⟩ | ⟨-, -, r, hr, -⟩
      · exact .inl hp
      · exact .inr ⟨r, hr⟩
    rcases traverseAdd_ok h with ⟨rfl, node, hnode, -⟩ | ⟨hps, mid, hmid, hlast, hdesc⟩
    · intro q hq
      rw [List.mem_singleton.mp hq]
      exact hnew hnode
    · obtain ⟨last, hget, hpattern⟩ := Option.map_eq_some_iff.mp hlast
      have hmem := List.mem_of_getLast? hget
      have hfront : p ∈ (p :: ps).dropLast := by
        rw [List.dropLast_cons_of_ne_nil hps]
        exact List.mem_cons_self
      have hp : p ≠ "**".toList := hstar p hfront
      have hstar' : DoubleStarLast ps := by
        intro q hq
        apply hstar q
        rw [List.dropLast_cons_of_ne_nil hps]
        exact List.mem_cons_of_mem _ hq
      -- the node that the rest is put below is plain, be it an old one or a new one
      have hplain : last.Plain := by
        rcases hmid with rfl | ⟨-, node, hnode, rfl⟩
        · exact plainAll_iff.mp hns _ hmem
        · rcases List.mem_append.mp hmem with hold | hnode'
          · exact plainAll_iff.mp hns _ hold
          · rw [List.mem_singleton.mp hnode']
            rcases nodeFromSegmentPattern_ok hnode with ⟨-, rfl⟩ | ⟨-, -, r, hr, rfl⟩
            · rw [DecisionNode.Plain]
            · rw [DecisionNode.Plain]
              exact ⟨hr, trivial⟩
      obtain ⟨n', -, hn'⟩ := exists_left_of_forall₂ hdesc.flip hmem
      rcases hn' with ⟨hne, -⟩ | ⟨-, below, hbelow, -⟩
      · exact absurd hpattern hne
      · intro q hq
        rcases List.mem_cons.mp hq with rfl | hq
        · cases last with
          | multi acts children => exact absurd hpattern.symm hp
          | single pattern r acts children =>
            rw [DecisionNode.Plain] at hplain
            exact .inr ⟨r, hpattern ▸ hplain.1⟩
        · exact ih hstar' hbelow hplain.children q hq

/-- Accepted lines have accepted segments. -/
theorem accepted_of_addRules {lines : List Str} {graph final : DecisionGraph rx}
    (h : graph.addRules lines = .ok final)
    (hstar : ∀ rule ∈ linesRules lines, DoubleStarLast rule.pattern)
    (hplain : PlainAll rx graph.children) :
    ∀ rule ∈ linesRules lines, ∀ p ∈ rule.pattern, Accepted rx p := by
  induction lines generalizing graph with
  | nil => intro rule hrule; cases hrule
  | cons line lines ih =>
    obtain ⟨graph', hline, hlines⟩ := addRules_cons h
    obtain ⟨pattern, actions, hrule, hadd⟩ := addRuleFromStr_ok hline
    have hrules : linesRules (line :: lines) = ⟨pattern, actions⟩ :: linesRules lines := by
      simp [linesRules, lineRule, hrule]
    rw [hrules, List.forall_mem_cons] at hstar ⊢
    exact ⟨accepted_of_traverseAdd hstar.1 hadd hplain,
      ih hlines hstar.2 (traverseAdd_plain hstar.1 hadd hplain)⟩

theorem accepted_of_ofLines {lines : List Str} {graph : DecisionGraph rx}
    (hgraph : DecisionGraph.ofLines rx lines = .ok graph)
    (hstar : ∀ rule ∈ linesRules lines, DoubleStarLast rule.pattern) :
    ∀ rule ∈ linesRules lines, ∀ p ∈ rule.pattern, Accepted rx p := by
  obtain ⟨graph₀, hnew, hadd⟩ := ofLines_ok hgraph
  exact accepted_of_addRules hadd hstar (plainAll_of_new hnew)

/-- An accepted segment that is clear of the placeholder matches as a glob. -/
theorem segmentHit_iff_globMatches (hrx : rx.Documented) {pattern : Str} (h : Accepted rx pattern)
    (hclear : ClearOfGlobStar pattern) {name : Str} (hne : name ≠ []) (hname : '/' ∉ name) :
    segmentHit rx pattern name = true ↔ GlobMatches pattern name := by
  have hall : ∀ stars : Str, GlobMatches ('*' :: stars) name ∨ ¬ GlobMatches stars [] := by
    intro stars
    rw [or_iff_not_imp_right, not_not]
    intro hstars
    have hmatch := GlobMatches.star name hstars
    rwa [List.append_nil] at hmatch
  by_cases hdouble : pattern = "**".toList
  · subst hdouble
    refine iff_of_true (if_pos rfl) ((hall ['*']).resolve_right (not_not.mpr ?_))
    exact GlobMatches.star [] .nil
  obtain ⟨r, hr⟩ := h.resolve_left hdouble
  rw [segmentHit_eq_isMatch hrx hr hname]
  by_cases hstar : pattern = "*".toList
  · subst hstar
    rw [hrx.isMatch_of_fromPattern regexPatternStr_star hr, matchPieces_plus_nil hne hname]
    exact iff_of_true rfl ((hall []).resolve_right (not_not.mpr .nil))
  · obtain ⟨ps, hps⟩ := exists_compiles pattern
    rw [hrx.isMatch_of_fromPattern (regexPatternStr_eq_render hrx hstar hps) hr,
      hps.eq_globPieces hclear, matchPieces_globPieces hname]

/-- Evaluating a graph is deciding by its list of rules. -/
theorem getAction_decided (hrx : rx.Documented) {lines : List Str} {graph : DecisionGraph rx}
    (hgraph : DecisionGraph.ofLines rx lines = .ok graph)
    (hstar : ∀ rule ∈ linesRules lines, DoubleStarLast rule.pattern)
    {path : List Segment} (hpath : path ≠ []) :
    (graph.getAction (path.map .utf8)).map ActionResult.actions =
      some (decided (segmentHit rx) (linesRules lines) (path.map Segment.text) defaultActions) := by
  obtain ⟨graph₀, hnew, hadd⟩ := ofLines_ok hgraph
  obtain ⟨r, -, hchildren⟩ := new_ok hnew
  obtain ⟨hplain, hdec⟩ := addRules_decided hadd hstar (plainAll_of_new hnew)
  have hslash : ∀ s ∈ path.map Segment.text, '/' ∉ s := by
    intro s hs
    obtain ⟨seg, -, rfl⟩ := List.mem_map.mp hs
    exact seg.slash_notMem
  have hne : path.map Segment.text ≠ [] := by simpa using hpath
  rw [getAction_utf8 graph hpath, getActionChildren_plain hrx _ hplain _ hne hslash, hdec,
    hchildren]
  obtain ⟨s, ss, hss⟩ := List.exists_cons_of_ne_nil hne
  rw [hss, rulesOf_cons, rulesOf_nil, List.append_nil, decided_rules,
    DecisionNode.pattern_single, if_pos (by simp [segmentHit])]
  rfl

end

/-! ### Patterns and paths -/

/-- The path is one that the pattern names, or below one. -/
def AtOrBelow (pattern : String) (path : List Segment) : Prop :=
  ∃ front, front <+: path.map Segment.text ∧
    List.Forall₂ GlobMatches (pattern.toList.splitOn '/') front

/-- One of the patterns names the path, or a path that it is below. -/
def Among (patterns : List String) (path : List Segment) : Prop :=
  ∃ pattern ∈ patterns, AtOrBelow pattern path

theorem among_append {patterns patterns' : List String} {path : List Segment} :
    Among (patterns ++ patterns') path ↔ Among patterns path ∨ Among patterns' path := by
  simp only [Among, List.mem_append, or_and_right, exists_or]

/-- A segment without a star matches itself alone. -/
theorem GlobMatches.eq_of_literal {pattern name : Str} (h : GlobMatches pattern name)
    (hstar : '*' ∉ pattern) : name = pattern := by
  induction h with
  | nil => rfl
  | star => exact absurd List.mem_cons_self hstar
  | char _ _ ih =>
    rw [List.mem_cons, not_or] at hstar
    rw [ih hstar.2]

/-- The first segment of a pattern, by which the rules of the shipped file can be told apart. -/
def root (pattern : String) : Option Str := (pattern.toList.splitOn '/').head?

/-- A path below a literal root starts with it. -/
theorem AtOrBelow.head_eq {pattern : String} {path : List Segment} (h : AtOrBelow pattern path)
    {first : Str} (hroot : root pattern = some first) (hstar : '*' ∉ first) :
    (path.map Segment.text).head? = some first := by
  obtain ⟨front, hpre, hmatch⟩ := h
  obtain ⟨ps, hps⟩ := List.head?_eq_some_iff.mp hroot
  rw [hps] at hmatch
  cases hmatch with
  | cons hs _ =>
    obtain ⟨more, hmore⟩ := hpre
    rw [← hmore, List.cons_append, List.head?_cons, hs.eq_of_literal hstar]

/-- The patterns have literal roots, none of which the others have. -/
def RootsApart (patterns patterns' : List String) : Prop :=
  ∀ pattern ∈ patterns, ∀ pattern' ∈ patterns', ∃ first ∈ root pattern, ∃ first' ∈ root pattern',
    '*' ∉ first ∧ '*' ∉ first' ∧ first ≠ first'

instance (patterns patterns' : List String) : Decidable (RootsApart patterns patterns') :=
  inferInstanceAs (Decidable (∀ pattern ∈ patterns, ∀ pattern' ∈ patterns',
    ∃ first ∈ root pattern, ∃ first' ∈ root pattern',
      '*' ∉ first ∧ '*' ∉ first' ∧ first ≠ first'))

/-- Such patterns name no path in common. -/
theorem RootsApart.not_among {patterns patterns' : List String}
    (h : RootsApart patterns patterns') {path : List Segment} (hpath : Among patterns path) :
    ¬ Among patterns' path := by
  rintro ⟨pattern', hmem', hbelow'⟩
  obtain ⟨pattern, hmem, hbelow⟩ := hpath
  obtain ⟨first, hfirst, first', hfirst', hstar, hstar', hne⟩ := h pattern hmem pattern' hmem'
  have hhead := (hbelow.head_eq hfirst hstar).symm.trans (hbelow'.head_eq hfirst' hstar')
  exact hne (Option.some.inj hhead)

/-! ### The rules -/

/-- What a new user's desktop is set up with. -/
def sharedPatterns : List String :=
  [".local/share/dolphin/view_properties/global", ".local/share/kxmlgui5/dolphin"]

/-- What always comes from the base layer, up to the `lapasWineManager`. -/
def wineBasePatterns : List String :=
  [".local/share/applications", ".config/autostart", ".lapas", ".bashrc", ".bash_profile",
    ".wineManager"]

/-- What belongs to the user in the bottles of the `lapasWineManager`. -/
def wineUserPatterns : List String :=
  [".wineManager/bottles/*/prefix/user.reg", ".wineManager/bottles/*/prefix/userdef.reg",
    ".wineManager/userdata"]

/-- What always comes from the base layer for the `lapasUmuManager`. -/
def umuBasePatterns : List String :=
  [".umuManager", ".local/share/umu", ".local/share/Steam", ".steam"]

/-- What is kept for nobody: the shipped file has one such line, for the folders that the runtime of
the games makes. -/
def temporaryPatterns : List String := [".local/share/umu/steamrt*/var/tmp-*"]

/-- What belongs to the user in the bottles of the `lapasUmuManager`. -/
def umuUserPatterns : List String :=
  [".umuManager/bottles/*/prefix/user.reg", ".umuManager/bottles/*/prefix/userdef.reg",
    ".umuManager/bottles/*/prefix/drive_c/users/steamuser"]

/-- What always comes from the base layer. -/
def basePatterns : List String := wineBasePatterns ++ umuBasePatterns ++ [".keep"]

/-- What belongs to the user although the base layer has what is around it. -/
def userPatterns : List String := wineUserPatterns ++ umuUserPatterns

/-- The rules of the shipped `.keep` file, in their order. -/
def shippedRules : List Str :=
  ["base:delete user:keep **",
    "base:keep user:keep .local/share/dolphin/view_properties/global",
    "base:keep user:keep .local/share/kxmlgui5/dolphin",
    "base:keep user:delete .local/share/applications",
    "base:keep user:delete .config/autostart",
    "base:keep user:delete .lapas",
    "base:keep user:delete .bashrc",
    "base:keep user:delete .bash_profile",
    "base:keep user:delete .wineManager",
    "base:delete user:keep .wineManager/bottles/*/prefix/user.reg",
    "base:delete user:keep .wineManager/bottles/*/prefix/userdef.reg",
    "base:delete user:keep .wineManager/userdata",
    "base:keep user:delete .umuManager",
    "base:keep user:delete .local/share/umu",
    "base:keep user:delete .local/share/Steam",
    "base:keep user:delete .steam",
    "base:delete user:delete .local/share/umu/steamrt*/var/tmp-*",
    "base:delete user:keep .umuManager/bottles/*/prefix/user.reg",
    "base:delete user:keep .umuManager/bottles/*/prefix/userdef.reg",
    "base:delete user:keep .umuManager/bottles/*/prefix/drive_c/users/steamuser"].map
    String.toList

/-- Rules with the same actions, one for each of the patterns, whose segments are split as the
parser does. -/
def rulesFor (actions : Actions) (patterns : List String) : List (Rule Str Actions) :=
  (patterns.map fun pattern => pattern.toList.splitOn '/').map (⟨·, actions⟩)

/-- The lines of such rules. -/
theorem linesRules_baseFirst (actions : Actions) (patterns : List String) :
    linesRules (patterns.map fun pattern => baseFirst actions pattern.toList) =
      rulesFor actions patterns := by
  induction patterns with
  | nil => rfl
  | cons pattern patterns ih =>
    rw [linesRules, List.map_cons, List.filterMap_cons, lineRule, ruleOfLine_baseFirst,
      ← linesRules, ih]
    rfl

theorem linesRules_append (lines lines' : List Str) :
    linesRules (lines ++ lines') = linesRules lines ++ linesRules lines' :=
  List.filterMap_append

/-- The rules as they are read, in groups. -/
theorem linesRules_shipped : linesRules (shippedRules ++ [enforcedRule]) =
    rulesFor { base := .delete, user := .keep } ["**"] ++
    rulesFor { base := .keep, user := .keep } sharedPatterns ++
    rulesFor { base := .keep, user := .delete } wineBasePatterns ++
    rulesFor { base := .delete, user := .keep } wineUserPatterns ++
    rulesFor { base := .keep, user := .delete } umuBasePatterns ++
    rulesFor { base := .delete, user := .delete } temporaryPatterns ++
    rulesFor { base := .delete, user := .keep } umuUserPatterns ++
    rulesFor { base := .keep, user := .delete } [".keep"] := by
  simp only [← linesRules_baseFirst, ← linesRules_append]
  refine congrArg linesRules ?_
  decide +kernel

theorem doubleStarLast_shipped :
    ∀ rule ∈ linesRules (shippedRules ++ [enforcedRule]), DoubleStarLast rule.pattern := by
  rw [linesRules_shipped]
  decide +kernel

theorem clear_shipped : ∀ rule ∈ linesRules (shippedRules ++ [enforcedRule]),
    ∀ segment ∈ rule.pattern, ClearOfGlobStar segment := by
  rw [linesRules_shipped]
  decide +kernel

/-! ### What the rules say -/

/-- The path is kept in the base layer. -/
def KeptInBase (path : List Segment) : Prop :=
  (Among basePatterns path ∨ Among sharedPatterns path) ∧ ¬ Among userPatterns path ∧
    ¬ Among temporaryPatterns path

/-- The path is kept in the layer of a user. -/
def KeptInUser (path : List Segment) : Prop :=
  ¬ Among temporaryPatterns path ∧ (Among userPatterns path ∨ ¬ Among basePatterns path)

/-- The path is kept in the layer that the mode is for. -/
def KeptIn : CleanupMode → List Segment → Prop
  | .base => KeptInBase
  | .user => KeptInUser

section

variable {rx : RegexCrate} {C : Type} {graph : DecisionGraph rx} {verbose : Bool}

/-- A group of rules covers what its patterns name. -/
theorem any_covers_iff (hrx : rx.Documented) {actions : Actions} {patterns : List String}
    (h : ∀ rule ∈ rulesFor actions patterns, ∀ p ∈ rule.pattern,
      Accepted rx p ∧ ClearOfGlobStar p) (path : List Segment) :
    ((patterns.map fun pattern => pattern.toList.splitOn '/').any fun pattern =>
      covers (segmentHit rx) pattern (path.map Segment.text)) = true ↔ Among patterns path := by
  rw [List.any_map, List.any_eq_true]
  refine exists_congr fun pattern => and_congr_right fun hpattern => ?_
  rw [Function.comp_apply, AtOrBelow]
  refine covers_iff _ fun p hp name hname => ?_
  obtain ⟨seg, -, rfl⟩ := List.mem_map.mp hname
  obtain ⟨haccepted, hclear⟩ := h ⟨pattern.toList.splitOn '/', actions⟩
    (List.mem_map_of_mem (List.mem_map_of_mem hpattern)) p hp
  exact segmentHit_iff_globMatches hrx haccepted hclear seg.ne_nil seg.slash_notMem

/-- What a group of rules decides. -/
theorem decided_rulesFor (hrx : rx.Documented) {actions : Actions} {patterns : List String}
    (h : ∀ rule ∈ rulesFor actions patterns, ∀ p ∈ rule.pattern,
      Accepted rx p ∧ ClearOfGlobStar p) (path : List Segment) (d : Actions)
    [Decidable (Among patterns path)] :
    decided (segmentHit rx) (rulesFor actions patterns) (path.map Segment.text) d =
      if Among patterns path then actions else d := by
  rw [rulesFor, decided_map_value]
  exact if_congr (any_covers_iff hrx h path) rfl rfl

/-- **The decisions of the shipped rules.** -/
theorem getAction_shipped (hrx : rx.Documented) {text : Str}
    (hrules : ruleLines text = shippedRules) (hgraph : parseRules rx text = .ok graph)
    {path : List Segment} (hpath : path ≠ []) :
    ∃ decision, graph.getAction (path.map .utf8) = some decision ∧
      ∀ mode, decision.actions.forMode mode = .keep ↔ KeptIn mode path := by
  classical
  rw [parseRules, hrules] at hgraph
  have hdecided := getAction_decided hrx hgraph doubleStarLast_shipped hpath
  obtain ⟨decision, hget, hactions⟩ := Option.map_eq_some_iff.mp hdecided
  refine ⟨decision, hget, ?_⟩
  have hall : ∀ rule ∈ linesRules (shippedRules ++ [enforcedRule]), ∀ p ∈ rule.pattern,
      Accepted rx p ∧ ClearOfGlobStar p := fun rule hrule p hp =>
    ⟨accepted_of_ofLines hgraph doubleStarLast_shipped rule hrule p hp,
      clear_shipped rule hrule p hp⟩
  rw [linesRules_shipped] at hactions hall
  simp only [List.forall_mem_append] at hall
  obtain ⟨⟨⟨⟨⟨⟨⟨hfirst, hshared⟩, hwineBase⟩, hwineUser⟩, humuBase⟩, htemporary⟩, humuUser⟩,
    hkeep⟩ := hall
  simp only [decided_append, decided_rulesFor hrx hfirst, decided_rulesFor hrx hshared,
    decided_rulesFor hrx hwineBase, decided_rulesFor hrx hwineUser, decided_rulesFor hrx humuBase,
    decided_rulesFor hrx htemporary, decided_rulesFor hrx humuUser, decided_rulesFor hrx hkeep]
    at hactions
  -- where the order of the rules is not that of the words, no path is named by both
  have h₁ : Among [".keep"] path → ¬ Among userPatterns path ∧
      ¬ Among temporaryPatterns path := fun h =>
    ⟨RootsApart.not_among (by decide +kernel) h, RootsApart.not_among (by decide +kernel) h⟩
  have h₂ : Among umuUserPatterns path → ¬ Among temporaryPatterns path :=
    RootsApart.not_among (by decide +kernel)
  have h₃ : Among umuBasePatterns path → ¬ Among wineUserPatterns path :=
    RootsApart.not_among (by decide +kernel)
  rw [show defaultActions = { base := .delete, user := .keep } from rfl, ite_self] at hactions
  intro mode
  rw [hactions]
  simp only [userPatterns, among_append] at h₁
  cases mode
  · simp only [KeptIn, KeptInBase, basePatterns, userPatterns, among_append, Actions.forMode]
    grind
  · simp only [KeptIn, KeptInUser, basePatterns, userPatterns, among_append, Actions.forMode]
    grind

/-- The rules keep what is said above. -/
theorem saysKeep_shipped_iff (hrx : rx.Documented) {text : Str}
    (hrules : ruleLines text = shippedRules) (hgraph : parseRules rx text = .ok graph)
    {path : List Segment} (hpath : path ≠ []) (mode : CleanupMode) :
    SaysKeep graph mode (path.map .utf8) ↔ KeptIn mode path := by
  obtain ⟨decision, hget, hkept⟩ := getAction_shipped hrx hrules hgraph hpath
  rw [← hkept mode]
  constructor
  · rintro ⟨decision', hget', hkeep⟩
    rw [hget] at hget'
    cases hget'
    exact hkeep
  · exact fun hkeep => ⟨decision, hget, hkeep⟩

/-! ### The layers -/

/-- A cleanup by the shipped rules does not panic on names that are UTF-8. -/
theorem cleanup_shipped_ok (hrx : rx.Documented) {text : Str}
    (hrules : ruleLines text = shippedRules) (hgraph : parseRules rx text = .ok graph)
    {layer : Folder C} (htext : layer.IsText) (mode : CleanupMode) :
    (cleanup graph verbose mode layer).result = .ok () := by
  rw [cleanup, applyKeep_ok_iff_ends]
  intro more name hsome _
  have hall := List.takeWhile_eq_self_iff.mpr (Listing.of_get?_isSome htext hsome)
  obtain ⟨segs, hsegs⟩ := exists_takeWhile_isText (more ++ [name])
  rw [hall] at hsegs
  have hne : segs ≠ [] := by
    rintro rfl
    exact absurd hsegs (by simp)
  obtain ⟨decision, hget, -⟩ := getAction_shipped hrx hrules hgraph hne
  rw [List.nil_append, hsegs, hget]
  rfl

/-- Something that is kept is in the layer at the path, or below it. -/
def LeftAt (mode : CleanupMode) (layer : Folder C) (path : List Segment) : Prop :=
  ∃ more, (layer.entries.get? ((path ++ more).map .utf8)).isSome ∧ KeptIn mode (path ++ more)

/-- The user layer has something left at the path; or, in front of it, a file or an opaque
directory. -/
def Covered (user : Folder C) (path : List Segment) : Prop :=
  ∃ front, front <+: path ∧ LeftAt .user user front ∧
    (front = path ∨ ∃ e, user.entries.get? (front.map .utf8) = some e ∧ e.hides = true)

section

variable {text : Str} {layer : Folder C} {mode : CleanupMode} {path : List Segment}

/-- What a cleanup leaves of a path. -/
theorem get?_cleaned_shipped (hgraph : parseRules rx text = .ok graph)
    (hresult : (cleanup graph verbose mode layer).result = .ok ()) (path : Path) :
    (cleaned graph verbose mode layer).get? path =
      (layer.entries.get? path).bind (Entry.prune (keepOf graph mode) path) := by
  rw [cleaned_eq_prune hgraph hresult, Listing.get?_prune layer.distinct, List.nil_append]

/-- A file is left as it was, when it is kept. -/
theorem get?_cleaned_file_iff (hrx : rx.Documented) (hrules : ruleLines text = shippedRules)
    (hgraph : parseRules rx text = .ok graph)
    (hresult : (cleanup graph verbose mode layer).result = .ok ()) (hpath : path ≠ [])
    {content : C} :
    (cleaned graph verbose mode layer).get? (path.map .utf8) = some (.file content) ↔
      layer.entries.get? (path.map .utf8) = some (.file content) ∧ KeptIn mode path := by
  rw [get?_cleaned_shipped hgraph hresult, ← saysKeep_shipped_iff hrx hrules hgraph hpath,
    ← keepOf_utf8]
  cases layer.entries.get? (path.map .utf8) with
  | none => simp
  | some e =>
    rw [Option.bind_some]
    cases e with
    | file c => rw [Entry.prune]; split <;> simp_all
    | dir o entries => rw [Entry.prune]; split <;> simp

/-- Something is left at a path when it, or something below it, is kept. -/
theorem get?_cleaned_isSome_iff (hrx : rx.Documented) (hrules : ruleLines text = shippedRules)
    (hgraph : parseRules rx text = .ok graph)
    (hresult : (cleanup graph verbose .user layer).result = .ok ()) (hpath : path ≠ []) :
    ((cleaned graph verbose .user layer).get? (path.map .utf8)).isSome ↔
      LeftAt .user layer path := by
  have hne : path.map FileName.utf8 ≠ [] := by simpa using hpath
  rw [cleaned_eq_prune hgraph hresult, Listing.get?_prune_isSome_iff layer.distinct hne,
    exists_saysKeep_iff hpath]
  constructor
  · rintro ⟨more, hsome, hsays⟩
    obtain ⟨decision, hget, -⟩ := id hsays
    obtain ⟨segs, hsegs⟩ := exists_utf8_of_getAction hget
    obtain ⟨front, more', rfl, hfront, rfl⟩ := List.append_eq_map_iff.mp hsegs
    obtain rfl : front = path :=
      (List.map_injective_iff.mpr fun _ _ heq => FileName.utf8.inj heq) hfront
    rw [← List.map_append] at hsome hsays
    exact ⟨more', hsome,
      (saysKeep_shipped_iff hrx hrules hgraph (by simp [hpath]) .user).mp hsays⟩
  · rintro ⟨more, hsome, hkept⟩
    refine ⟨more.map .utf8, by rwa [← List.map_append], ?_⟩
    rw [← List.map_append]
    exact (saysKeep_shipped_iff hrx hrules hgraph (by simp [hpath]) .user).mpr hkept

/-- Whether an entry hides what is below it does not change. -/
theorem hides_of_prune {keep : Path → Bool} {path : Path} {e e' : Entry FileName C}
    (h : e.prune keep path = some e') : e'.hides = e.hides := by
  cases e with
  | file c =>
    rw [Entry.prune] at h
    split at h <;> cases h
    rfl
  | dir o entries =>
    rw [Entry.prune] at h
    split at h <;> cases h
    rfl

/-- What is left of the user layer shows nothing at the path, and hides it nowhere. -/
theorem not_covered_iff (hrx : rx.Documented) (hrules : ruleLines text = shippedRules)
    (hgraph : parseRules rx text = .ok graph) {user : Folder C}
    (hresult : (cleanup graph verbose .user user).result = .ok ()) (hpath : path ≠ []) :
    ¬ Covered user path ↔
      (cleaned graph verbose .user user).get? (path.map .utf8) = none ∧
        ∀ q, q <+: path.map FileName.utf8 → ∀ e,
          (cleaned graph verbose .user user).get? q = some e → e.hides = false := by
  have hleft := fun {front : List Segment} (hne : front ≠ []) =>
    get?_cleaned_isSome_iff hrx hrules hgraph hresult hne
  constructor
  · intro hfree
    constructor
    · rw [← Option.not_isSome_iff_eq_none, hleft hpath]
      exact fun hself => hfree ⟨path, List.prefix_rfl, hself, .inl rfl⟩
    · intro q hq e he
      rw [← Bool.not_eq_true]
      intro hhides
      -- an entry in front of the path has names that are text, as those of the path
      obtain ⟨front, hpre, rfl⟩ : ∃ front, front <+: path ∧ q = front.map .utf8 := by
        refine ⟨path.take q.length, List.take_prefix _ _, ?_⟩
        rw [List.map_take]
        exact List.prefix_iff_eq_take.mp hq
      have hne : front ≠ [] := by
        rintro rfl
        simp at he
      have hself := (hleft hne).mp (Option.isSome_of_eq_some he)
      rw [get?_cleaned_shipped hgraph hresult] at he
      obtain ⟨e', he', hprune⟩ := Option.bind_eq_some_iff.mp he
      rw [hides_of_prune hprune] at hhides
      exact hfree ⟨front, hpre, hself, .inr ⟨e', he', hhides⟩⟩
  · rintro ⟨hnone, hhides⟩ ⟨front, hpre, hself, rfl | ⟨e, he, hhide⟩⟩
    · rw [← hleft hpath, hnone] at hself
      cases hself
    · have hne : front ≠ [] := by
        rintro rfl
        simp at he
      obtain ⟨e', he'⟩ := Option.isSome_iff_exists.mp ((hleft hne).mpr hself)
      have hfalse := hhides _ (hpre.map _) e' he'
      rw [get?_cleaned_shipped hgraph hresult, he, Option.bind_some] at he'
      rw [hides_of_prune he', hhide] at hfalse
      cases hfalse

end

/-! ### The home -/

/-- **What a home shows, under the shipped rules**: a file is shown at a path when it is the
user's own, at a path that is kept for users, or when it is the one of the base layer, at a path
that is kept there, and what is left of the user layer does not cover it. -/
theorem homeView_shipped (hrx : rx.Documented) {text : Str} (hrules : ruleLines text = shippedRules)
    (hgraph : parseRules rx text = .ok graph) {base user : Folder C}
    (hbase : (cleanup graph verbose .base base).result = .ok ())
    (huser : (cleanup graph verbose .user user).result = .ok ()) {path : List Segment}
    (hpath : path ≠ []) (content : C) :
    homeView graph verbose base user (path.map .utf8) = some (.file content) ↔
      user.entries.get? (path.map .utf8) = some (.file content) ∧ KeptInUser path ∨
        base.entries.get? (path.map .utf8) = some (.file content) ∧ KeptInBase path ∧
          ¬ Covered user path := by
  have hshown : ∀ {l : Listing FileName C} {p : Path},
      (∃ e, l.get? p = some e ∧ e.shown = .file content) ↔ l.get? p = some (.file content) := by
    intro l p
    constructor
    · rintro ⟨e, he, hfile⟩
      cases e with
      | file c => cases hfile; exact he
      | dir o entries => cases hfile
    · exact fun he => ⟨_, he, rfl⟩
  rw [homeView, Listing.overlay_eq_some_iff, hshown, hshown,
    get?_cleaned_file_iff hrx hrules hgraph huser hpath,
    get?_cleaned_file_iff hrx hrules hgraph hbase hpath,
    not_covered_iff hrx hrules hgraph huser hpath]
  simp only [KeptIn]
  tauto

end

/-- The text of the shipped file without its comments and empty lines, each rule on a line of its
own. -/
def shippedText : Str := shippedRules.flatMap (· ++ ['\n'])

theorem ruleLines_shippedText : ruleLines shippedText = shippedRules := by
  decide +kernel

/-- The file is accepted. -/
theorem exists_shippedGraph :
    ∃ graph : DecisionGraph pieceCrate, parseRules pieceCrate shippedText = .ok graph := by
  have hparse : ∃ graph, DecisionGraph.ofLines pieceCrate (shippedRules ++ [enforcedRule]) =
      .ok graph ∧ True := exists_ok_of_decide (by decide +kernel)
  obtain ⟨graph, hlines, -⟩ := hparse
  refine ⟨graph, ?_⟩
  rw [parseRules, ruleLines_shippedText, hlines]

/-! ### A `.bashrc` in both layers -/

/-- The name of a file that the base layer provides. -/
def bashrc : Segment := ⟨".bashrc".toList, by decide, by decide⟩

/-- The name of a file that no rule names. -/
def notes : Segment := ⟨"notes".toList, by decide, by decide⟩

theorem globMatches_self {pattern : Str} (h : '*' ∉ pattern) : GlobMatches pattern pattern := by
  induction pattern with
  | nil => exact .nil
  | cons c pattern ih =>
    rw [List.mem_cons, not_or] at h
    exact .char (Ne.symm h.1) (ih h.2)

/-- A path is among the names that it starts with. -/
theorem among_head {name : String} (hsplit : name.toList.splitOn '/' = [name.toList])
    (hstar : '*' ∉ name.toList) {segment : Segment} (hsegment : segment.text = name.toList)
    (more : List Segment) : Among [name] (segment :: more) := by
  refine ⟨name, List.mem_singleton_self name, [name.toList], ?_, ?_⟩
  · rw [List.map_cons, hsegment]
    exact ⟨more.map Segment.text, rfl⟩
  · rw [hsplit]
    exact .cons (globMatches_self hstar) .nil

theorem among_bashrc (more : List Segment) : Among [".bashrc"] (bashrc :: more) :=
  among_head (by decide) (by decide) rfl more

theorem keptInBase_bashrc (more : List Segment) : KeptInBase (bashrc :: more) := by
  have halone := among_bashrc more
  obtain ⟨pattern, hpattern, hbelow⟩ := halone
  rw [List.mem_singleton.mp hpattern] at hbelow
  exact ⟨Or.inl ⟨".bashrc", by decide, hbelow⟩,
    RootsApart.not_among (by decide +kernel) (among_bashrc more),
    RootsApart.not_among (by decide +kernel) (among_bashrc more)⟩

theorem not_keptInUser_bashrc (more : List Segment) : ¬ KeptInUser (bashrc :: more) := by
  rintro ⟨-, huser | hbase⟩
  · exact (keptInBase_bashrc more).2.1 huser
  · obtain ⟨pattern, hpattern, hbelow⟩ := among_bashrc more
    rw [List.mem_singleton.mp hpattern] at hbelow
    exact hbase ⟨".bashrc", by decide, hbelow⟩

theorem keptInUser_notes : KeptInUser [notes] := by
  have halone : Among ["notes"] [notes] := among_head (by decide) (by decide) rfl []
  exact ⟨RootsApart.not_among (by decide +kernel) halone,
    Or.inr (RootsApart.not_among (by decide +kernel) halone)⟩

/-- A user has a `.bashrc` of their own and a file next to it; their home shows the `.bashrc` of
the base layer and their other file. -/
theorem homeView_shipped_bashrc : ∃ graph : DecisionGraph pieceCrate,
    parseRules pieceCrate shippedText = .ok graph ∧
    let base : Folder ℕ := ⟨.file (.utf8 bashrc) 0 .nil, by decide⟩
    let user : Folder ℕ := ⟨.file (.utf8 bashrc) 1 (.file (.utf8 notes) 2 .nil), by decide⟩
    homeView graph false base user [.utf8 bashrc] = some (.file 0) ∧
      homeView graph false base user [.utf8 notes] = some (.file 2) := by
  obtain ⟨graph, hgraph⟩ := exists_shippedGraph
  refine ⟨graph, hgraph, ?_⟩
  intro base user
  have hbase : base.IsText := rfl
  have huser : user.IsText := rfl
  have hbaseOk : (cleanup graph false .base base).result = .ok () :=
    cleanup_shipped_ok pieceCrate_documented ruleLines_shippedText hgraph hbase .base
  have huserOk : (cleanup graph false .user user).result = .ok () :=
    cleanup_shipped_ok pieceCrate_documented ruleLines_shippedText hgraph huser .user
  -- nothing that is left of the user is at `.bashrc`
  have hfree : ¬ Covered user [bashrc] := by
    rintro ⟨front, hfront, ⟨more, -, hkept⟩, hend⟩
    rcases List.prefix_cons_iff.mp hfront with rfl | ⟨front', rfl, -⟩
    · rcases hend with h | ⟨e, he, -⟩
      · cases h
      · cases he
    · exact not_keptInUser_bashrc _ hkept
  exact ⟨(homeView_shipped pieceCrate_documented ruleLines_shippedText hgraph hbaseOk huserOk
      (List.cons_ne_nil bashrc []) 0).mpr (.inr ⟨by decide, keptInBase_bashrc [], hfree⟩),
    (homeView_shipped pieceCrate_documented ruleLines_shippedText hgraph hbaseOk huserOk
      (List.cons_ne_nil notes []) 2).mpr (.inl ⟨by decide, keptInUser_notes⟩)⟩

end Keep
end Lapas
