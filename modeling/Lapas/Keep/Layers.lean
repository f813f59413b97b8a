import Lapas.Keep.Cleanup
import Lapas.Keep.LastRule
import Lapas.Library.Overlay
import Mathlib.Data.List.Infix

/-!
# The two layers of a home

A home is the cleaned user layer mounted over the cleaned base layer.  The rules promise a
path to the base layer when the path and everything below it is kept in base and deleted
from the user layer.  What is left of the user layer *in front of* the path can still hide
it: a file that the rules leave to the user, or an opaque directory.

## Main definitions

* `cleaned`, `homeView` — a layer after its cleanup, and the home.
* `PromisedToBase` — the decision on the path and on all below it.
* `Obstructs` — the user layer has something in front of the path that survives and hides.

## Main results

* `homeView_eq_cleaned_iff` — when a home shows the cleaned base at and below the path.
* `twoLayers_iff` — when two homes both do.
-/

namespace Lapas
namespace Keep

section

variable {rx : RegexCrate} {C : Type} (graph : DecisionGraph rx) (verbose : Bool)

/-- A run of `apply_keep` in which no call fails. -/
def cleanup (mode : CleanupMode) (layer : Folder C) : Cleanup C :=
  applyKeep .allSucceed { mode, dryrun := false, verbose } graph layer.entries

/-- What a cleanup without failing calls leaves of a layer, in a mode; it may have ended early, with
the rest as it was. -/
def cleaned (mode : CleanupMode) (layer : Folder C) : Listing FileName C :=
  (cleanup graph verbose mode layer).entries

/-- What a home shows at a path: `mount -t overlay` of the cleaned layers. -/
def homeView (base user : Folder C) (path : Path) : Option (Shown C) :=
  (cleaned graph verbose .user user).overlay (cleaned graph verbose .base base) path

/-- The path and everything below it is kept in base and deleted from the user layer. -/
def PromisedToBase (path : List Segment) : Prop :=
  ∀ more : List Segment, ∃ decision, graph.getAction ((path ++ more).map .utf8) = some decision ∧
    decision.actions = { base := .keep, user := .delete }

/-- At a path in front of this one, the user layer has a file that the rules leave to the
user, or an opaque directory which they leave to the user, or something in it. -/
def Obstructs (user : Folder C) (path : Path) : Prop :=
  ∃ front, front <+: path ∧ front ≠ path ∧
    ((∃ content, user.entries.get? front = some (.file content) ∧ SaysKeep graph .user front) ∨
      ∃ entries, user.entries.get? front = some (.dir true entries) ∧
        ∃ more, (user.entries.get? (front ++ more)).isSome ∧ SaysKeep graph .user (front ++ more))

variable {graph} {verbose}

/-! ### Decisions -/

theorem keepOf_of_promised {path : List Segment} (h : PromisedToBase graph path)
    (mode : CleanupMode) (more : Path) :
    keepOf graph mode (path.map .utf8 ++ more) = decide (mode = .base) := by
  obtain ⟨segs, hsegs⟩ := exists_takeWhile_isText more
  obtain ⟨decision, hget, hactions⟩ := h segs
  rw [List.map_append] at hget
  rw [keepOf_of_getAction (by rw [takeWhile_isText_append, hsegs]; exact hget), hactions]
  cases mode <;> rfl

/-- Where the predicate keeps something at or below a text path, there is a path whose own
decision does. -/
theorem exists_saysKeep_iff {l : Listing FileName C} {front : List Segment} (hfront : front ≠ []) :
    (∃ more, (l.get? (front.map .utf8 ++ more)).isSome ∧
        keepOf graph .user (front.map .utf8 ++ more) = true) ↔
      ∃ more, (l.get? (front.map .utf8 ++ more)).isSome ∧
        SaysKeep graph .user (front.map .utf8 ++ more) := by
  constructor
  · rintro ⟨more, hsome, hkeep⟩
    obtain ⟨segs, hsegs⟩ := exists_takeWhile_isText more
    refine ⟨segs.map .utf8, ?_, ?_⟩
    · have hsplit : front.map FileName.utf8 ++ more =
          (front.map .utf8 ++ segs.map .utf8) ++ more.dropWhile FileName.isText := by
        rw [List.append_assoc, ← hsegs, List.takeWhile_append_dropWhile]
      rw [hsplit] at hsome
      exact Listing.get?_isSome_of_append (by simp [hfront]) hsome
    · rw [← List.map_append, ← keepOf_utf8, List.map_append]
      unfold keepOf at hkeep ⊢
      rw [takeWhile_isText_append] at hkeep ⊢
      rw [hsegs] at hkeep
      rwa [List.takeWhile_eq_self_iff.mpr (by simp [FileName.isText])]
  · rintro ⟨more, hsome, hkeep⟩
    exact ⟨more, hsome, keepOf_of_saysKeep hkeep⟩

/-! ### The cleaned layers -/

theorem cleaned_eq_prune {text : Str} (hgraph : parseRules rx text = .ok graph)
    {mode : CleanupMode} {layer : Folder C}
    (hresult : (cleanup graph verbose mode layer).result = .ok ()) :
    cleaned graph verbose mode layer = layer.entries.prune (keepOf graph mode) [] := by
  unfold cleanup at hresult
  exact applyKeep_eq_prune hgraph rfl hresult

/-- The base layer keeps what is promised to it. -/
theorem cleaned_base_eq_none {text : Str} (hgraph : parseRules rx text = .ok graph)
    {base : Folder C} (hresult : (cleanup graph verbose .base base).result = .ok ())
    {path : List Segment} (hrules : PromisedToBase graph path) :
    (cleaned graph verbose .base base).get? (path.map .utf8) = none ↔
      base.entries.get? (path.map .utf8) = none := by
  have hkeep := keepOf_of_promised hrules .base []
  rw [List.append_nil] at hkeep
  rw [cleaned_eq_prune hgraph hresult, Listing.get?_prune base.distinct, List.nil_append]
  cases base.entries.get? (path.map .utf8) with
  | none => simp
  | some e => cases e <;> simp [Entry.prune, hkeep]

/-- The user layer has nothing left at or below the path. -/
theorem cleaned_user_eq_none {text : Str} (hgraph : parseRules rx text = .ok graph)
    {user : Folder C} (hresult : (cleanup graph verbose .user user).result = .ok ())
    {path : List Segment} (hrules : PromisedToBase graph path) (more : Path) :
    (cleaned graph verbose .user user).get? (path.map .utf8 ++ more) = none := by
  have hkeep := keepOf_of_promised hrules .user
  rw [cleaned_eq_prune hgraph hresult, Listing.get?_prune user.distinct, List.nil_append]
  cases user.entries.get? (path.map .utf8 ++ more) with
  | none => rfl
  | some e =>
    cases e with
    | file content => simp [Entry.prune, hkeep more]
    | dir isOpaque entries =>
      have hnil : entries.prune (keepOf graph .user) (path.map .utf8 ++ more) = .nil := by
        refine Listing.prune_eq_nil fun more' _ => ?_
        rw [List.append_assoc]
        exact hkeep _
      simp [Entry.prune, hkeep more, hnil, Listing.isEmpty]

/-- What is left of a path hides what is below it: a kept file, or an opaque directory
with something kept in it. -/
theorem hides_prune_iff {l : Listing FileName C} (hl : l.Distinct) {front : List Segment}
    (hfront : front ≠ []) :
    (∃ e, (l.prune (keepOf graph .user) []).get? (front.map .utf8) = some e ∧ e.hides = true) ↔
      (∃ content, l.get? (front.map .utf8) = some (.file content) ∧
          SaysKeep graph .user (front.map .utf8)) ∨
        ∃ entries, l.get? (front.map .utf8) = some (.dir true entries) ∧
          ∃ more, (l.get? (front.map .utf8 ++ more)).isSome ∧
            SaysKeep graph .user (front.map .utf8 ++ more) := by
  rw [Listing.get?_prune hl, List.nil_append, ← keepOf_utf8, ← exists_saysKeep_iff hfront]
  cases hget : l.get? (front.map .utf8) with
  | none => simp
  | some e =>
    cases e with
    | file content =>
      cases hkeep : keepOf graph .user (front.map .utf8) <;> simp [Entry.prune, hkeep, Entry.hides]
    | dir isOpaque entries =>
      -- a directory stays when it is kept itself or something below it is
      have hbelow : (keepOf graph .user (front.map .utf8) ||
          !(entries.prune (keepOf graph .user) (front.map .utf8)).isEmpty) = true ↔
          ∃ more, (l.get? (front.map .utf8 ++ more)).isSome ∧
            keepOf graph .user (front.map .utf8 ++ more) = true := by
        rw [Bool.or_eq_true, Bool.not_eq_true', ← Bool.not_eq_true, Listing.isEmpty_iff, ← ne_eq,
          Listing.prune_ne_nil_iff (hl.of_get? hget)]
        constructor
        · rintro (hkeep | ⟨more, hsome, hkeep⟩)
          · exact ⟨[], by rw [List.append_nil, hget]; rfl, by rwa [List.append_nil]⟩
          · have hmore : more ≠ [] := by
              rintro rfl
              simp at hsome
            exact ⟨more, by rwa [Listing.get?_append hget hmore], hkeep⟩
        · rintro ⟨more, hsome, hkeep⟩
          by_cases hmore : more = []
          · subst hmore
            rw [List.append_nil] at hkeep
            exact Or.inl hkeep
          · rw [Listing.get?_append hget hmore] at hsome
            exact Or.inr ⟨more, hsome, hkeep⟩
      rw [Option.bind_some, Entry.prune, ← hbelow]
      cases isOpaque <;>
        cases (keepOf graph .user (front.map .utf8) ||
          !(entries.prune (keepOf graph .user) (front.map .utf8)).isEmpty) <;>
        simp [Entry.hides]

/-- The entries of the cleaned user layer that hide are what obstructs. -/
theorem exists_hides_iff {text : Str} (hgraph : parseRules rx text = .ok graph)
    {user : Folder C} (hresult : (cleanup graph verbose .user user).result = .ok ())
    {path : List Segment} (hrules : PromisedToBase graph path) :
    (∃ front, front <+: path.map FileName.utf8 ∧ ∃ e,
        (cleaned graph verbose .user user).get? front = some e ∧ e.hides = true) ↔
      Obstructs graph user (path.map .utf8) := by
  have hprefix : ∀ front, front <+: path.map FileName.utf8 →
      ∃ segs : List Segment, front = segs.map .utf8 := by
    intro front hpre
    refine ⟨path.take front.length, ?_⟩
    rw [List.map_take]
    exact List.prefix_iff_eq_take.mp hpre
  have hself := cleaned_user_eq_none hgraph hresult hrules []
  rw [List.append_nil] at hself
  rw [cleaned_eq_prune hgraph hresult] at hself ⊢
  constructor
  · rintro ⟨front, hpre, e, he, hhides⟩
    obtain ⟨segs, rfl⟩ := hprefix front hpre
    have hne : segs ≠ [] := by
      rintro rfl
      simp at he
    -- the path itself is gone from the user layer, so the entry stands in front of it
    refine ⟨segs.map .utf8, hpre, ?_, (hides_prune_iff user.distinct hne).mp ⟨e, he, hhides⟩⟩
    intro heq
    rw [heq, hself] at he
    cases he
  · rintro ⟨front, hpre, -, hleft⟩
    obtain ⟨segs, rfl⟩ := hprefix front hpre
    have hne : segs ≠ [] := by
      rintro rfl
      rcases hleft with ⟨content, h, -⟩ | ⟨entries, h, -⟩ <;> simp at h
    obtain ⟨e, he, hhides⟩ := (hides_prune_iff user.distinct hne).mpr hleft
    exact ⟨segs.map .utf8, hpre, e, he, hhides⟩

/-! ### The home -/

/-- **When a home shows the cleaned base** at a path that the rules promise to it, and at
everything below: the base has nothing there, or the user layer does not obstruct. -/
theorem homeView_eq_cleaned_iff {text : Str} (hgraph : parseRules rx text = .ok graph)
    {base user : Folder C} (hbase : (cleanup graph verbose .base base).result = .ok ())
    (huser : (cleanup graph verbose .user user).result = .ok ()) {path : List Segment}
    (hpath : path ≠ []) (hrules : PromisedToBase graph path) :
    (∀ more, homeView graph verbose base user (path.map .utf8 ++ more) =
        ((cleaned graph verbose .base base).get? (path.map .utf8 ++ more)).map Entry.shown) ↔
      base.entries.get? (path.map .utf8) = none ∨ ¬ Obstructs graph user (path.map .utf8) := by
  have hnone := cleaned_user_eq_none hgraph huser hrules
  rw [← cleaned_base_eq_none hgraph hbase hrules, ← exists_hides_iff hgraph huser hrules]
  constructor
  · intro h
    have hself := h []
    rw [List.append_nil, homeView, Listing.overlay_eq_lower_iff (by simpa using hnone [])] at hself
    refine hself.imp_right fun hhides => ?_
    rintro ⟨front, hpre, e, he, hhide⟩
    rw [hhides front hpre e he] at hhide
    cases hhide
  · intro h more
    rw [homeView, Listing.overlay_eq_lower_iff (hnone more)]
    rcases h with hlow | hfree
    · left
      by_cases hmore : more = []
      · rwa [hmore, List.append_nil]
      · exact Listing.get?_append_eq_none (fun o entries he => by rw [hlow] at he; cases he)
          (by simpa using hpath) more hmore
    · right
      intro front hpre e he
      -- at the path and below it the user layer has nothing, so only the front can hide
      rcases List.prefix_or_prefix_of_prefix hpre (List.prefix_append _ more)
        with hpre | ⟨rest, rfl⟩
      · by_contra hhide
        exact hfree ⟨front, hpre, e, he, by simpa using hhide⟩
      · rw [hnone] at he
        cases he

/-- **When two homes show the cleaned base** at and below a path that the rules promise to
it: the base has nothing there, or neither user layer obstructs. -/
theorem twoLayers_iff {text : Str} (hgraph : parseRules rx text = .ok graph)
    {base user₁ user₂ : Folder C} (hbase : (cleanup graph verbose .base base).result = .ok ())
    (huser₁ : (cleanup graph verbose .user user₁).result = .ok ())
    (huser₂ : (cleanup graph verbose .user user₂).result = .ok ()) {path : List Segment}
    (hpath : path ≠ []) (hrules : PromisedToBase graph path) :
    (∀ more,
      homeView graph verbose base user₁ (path.map .utf8 ++ more) =
        homeView graph verbose base user₂ (path.map .utf8 ++ more) ∧
      homeView graph verbose base user₁ (path.map .utf8 ++ more) =
        ((cleaned graph verbose .base base).get? (path.map .utf8 ++ more)).map Entry.shown) ↔
      base.entries.get? (path.map .utf8) = none ∨
        ¬ Obstructs graph user₁ (path.map .utf8) ∧ ¬ Obstructs graph user₂ (path.map .utf8) := by
  rw [or_and_left, ← homeView_eq_cleaned_iff hgraph hbase huser₁ hpath hrules,
    ← homeView_eq_cleaned_iff hgraph hbase huser₂ hpath hrules, ← forall_and]
  refine forall_congr' fun more => ?_
  constructor
  · rintro ⟨hsame, hfirst⟩
    exact ⟨hfirst, hsame ▸ hfirst⟩
  · rintro ⟨hfirst, hsecond⟩
    exact ⟨hfirst.trans hsecond.symm, hfirst⟩

end

/-- The lines of the shipped `.keep` file that decide about `.config/autostart`. -/
def autostartRules : Str :=
  "base:delete user:keep **\nbase:keep user:delete .config/autostart\n".toList

/-- A directory that users have files in. -/
def config : Segment := ⟨".config".toList, by decide, by decide⟩

/-- What the base layer provides in that directory. -/
def autostart : Segment := ⟨"autostart".toList, by decide, by decide⟩

/-- A base layer with an empty `.config/autostart`. -/
def autostartBase : Folder ℕ where
  entries := .dir (.utf8 config) false (.dir (.utf8 autostart) false .nil .nil) .nil
  distinct := by decide

/-- A user layer with a file at `.config`. -/
def fileAtConfig : Folder ℕ where
  entries := .file (.utf8 config) 0 .nil
  distinct := by decide

/-- A user layer with nothing in it. -/
def untouched : Folder ℕ := ⟨.nil, by decide⟩

/-- What the rules say about the three folders. -/
theorem autostart_evaluated : ∃ graph, parseRules pieceCrate autostartRules = .ok graph ∧
    ((graph.getAction [.utf8 config]).isSome ∧
      graph.getAction [.utf8 config, .utf8 autostart] =
        some ⟨{ base := .keep, user := .delete }, false⟩) ∧
    ((cleanup graph false .base autostartBase).result = .ok () ∧
      (cleanup graph false .user untouched).result = .ok () ∧
      (cleanup graph false .user fileAtConfig).result = .ok ()) ∧
    homeView graph false autostartBase untouched [.utf8 config, .utf8 autostart] = some .dir ∧
    homeView graph false autostartBase fileAtConfig [.utf8 config, .utf8 autostart] = none :=
  exists_ok_of_decide (by decide +kernel)

/-- The rules promise `.config/autostart` to the base layer. -/
theorem promisedToBase_autostart {graph : DecisionGraph pieceCrate}
    (hgraph : parseRules pieceCrate autostartRules = .ok graph)
    (hconfig : (graph.getAction [.utf8 config]).isSome)
    (hdec : graph.getAction [.utf8 config, .utf8 autostart] =
      some ⟨{ base := .keep, user := .delete }, false⟩) :
    PromisedToBase graph [config, autostart] := by
  have hsafe : ∀ init, init ≠ [] → init <+: [config, autostart] →
      (graph.getAction (init.map .utf8)).isSome := by
    intro init hinit hpre
    have hinits : init ∈ [[], [config], [config, autostart]] := (List.mem_inits _ _).mpr hpre
    rw [List.mem_cons, List.mem_cons, List.mem_singleton] at hinits
    rcases hinits with rfl | rfl | rfl
    · exact absurd rfl hinit
    · exact hconfig
    · exact Option.isSome_of_eq_some hdec
  intro more
  exact ⟨_, getAction_below hgraph (List.cons_ne_nil _ _) hsafe hdec rfl more, rfl⟩

/-- A home without a user layer, and one with a file at `.config`. -/
theorem twoLayers_iff_autostart : ∃ graph : DecisionGraph pieceCrate,
    parseRules pieceCrate autostartRules = .ok graph ∧
    ((∀ more,
      homeView graph false autostartBase untouched ([config, autostart].map .utf8 ++ more) =
        homeView graph false autostartBase fileAtConfig ([config, autostart].map .utf8 ++ more) ∧
      homeView graph false autostartBase untouched ([config, autostart].map .utf8 ++ more) =
        ((cleaned graph false .base autostartBase).get?
          ([config, autostart].map .utf8 ++ more)).map Entry.shown) ↔
      autostartBase.entries.get? ([config, autostart].map .utf8) = none ∨
        ¬ Obstructs graph untouched ([config, autostart].map .utf8) ∧
          ¬ Obstructs graph fileAtConfig ([config, autostart].map .utf8)) := by
  obtain ⟨graph, hgraph, ⟨hconfig, hdec⟩, ⟨hbase, huser₁, huser₂⟩, -⟩ := autostart_evaluated
  exact ⟨graph, hgraph, twoLayers_iff hgraph hbase huser₁ huser₂ (List.cons_ne_nil _ _)
    (promisedToBase_autostart hgraph hconfig hdec)⟩

/-- A file at `.config` of the user layer survives the cleanup and hides the
`.config/autostart` that the rules promise to the base layer. -/
theorem not_twoLayers_autostart : ∃ graph : DecisionGraph pieceCrate,
    parseRules pieceCrate autostartRules = .ok graph ∧
    (∀ line ∈ ruleLines autostartRules ++ [enforcedRule], ∀ pattern actions,
      ruleOfLine line = .ok (pattern, actions) → DoubleStarLast pattern) ∧
    PromisedToBase graph [config, autostart] ∧
    (cleanup graph false .base autostartBase).result = .ok () ∧
    (cleanup graph false .user untouched).result = .ok () ∧
    (cleanup graph false .user fileAtConfig).result = .ok () ∧
    homeView graph false autostartBase untouched ([config, autostart].map .utf8) = some .dir ∧
    homeView graph false autostartBase fileAtConfig ([config, autostart].map .utf8) = none := by
  obtain ⟨graph, hgraph, ⟨hconfig, hdec⟩, ⟨hbase, huser₁, huser₂⟩, hviews⟩ := autostart_evaluated
  refine ⟨graph, hgraph, ?_, promisedToBase_autostart hgraph hconfig hdec, hbase, huser₁, huser₂,
    hviews⟩
  have hlines : ruleLines autostartRules ++ [enforcedRule] = ["base:delete user:keep **".toList,
      "base:keep user:delete .config/autostart".toList, "base:keep user:delete .keep".toList] := by
    decide +kernel
  rw [hlines]
  intro line hline pattern actions hrule
  rw [List.mem_cons, List.mem_cons, List.mem_singleton] at hline
  rcases hline with rfl | rfl | rfl
  · have h : ruleOfLine "base:delete user:keep **".toList =
        .ok (["**".toList], { base := .delete, user := .keep }) := by decide +kernel
    rw [h] at hrule
    cases hrule
    decide
  · have h : ruleOfLine "base:keep user:delete .config/autostart".toList =
        .ok ([".config".toList, "autostart".toList], { base := .keep, user := .delete }) := by
      decide +kernel
    rw [h] at hrule
    cases hrule
    decide
  · have h : ruleOfLine "base:keep user:delete .keep".toList =
        .ok ([".keep".toList], { base := .keep, user := .delete }) := by decide +kernel
    rw [h] at hrule
    cases hrule
    decide

end Keep
end Lapas
