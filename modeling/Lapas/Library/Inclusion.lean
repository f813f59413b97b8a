import Mathlib.Data.List.Infix
import Mathlib.Data.List.Nodup
import Mathlib.Data.Nat.Notation
import Mathlib.Logic.Relation
import Mathlib.Tactic.Common

/-!
# Texts that include one another

A document is a list of parts: a piece of text, or the name of a document whose text is to stand
there.  A document that is included again is left out the second time, so that documents may
include one another in a circle.

## Main definitions

* `Part`, `texts`, `Includes` — documents.
* `expand` — the text of a document with all that it includes; each piece remembers its document.
* `Expands` — what an expansion does, as a derivation.
* `piecesOf` — the pieces of one document in a text.

## Main results

* `expands_of_expandAll` — an expansion is a derivation.
* `Expands.reach`, `Expands.mem_of_reach` — the documents that it visits.
* `Expands.piecesOf_self`, `Expands.piecesOf_new` — each is there once, and whole.
* `Expands.before_self`, `Expands.before_new` — what is included stands in front of what follows.
* `expand_isSome_iff`, `whole_of_expand` — when an expansion succeeds, and what the text is then.
-/

namespace Lapas
namespace Inclusion

variable {F B : Type*}

/-! ### Documents -/

/-- The parts of a document: its own text, and the place of another document. -/
inductive Part (F B : Type*)
  | text (b : B)
  | doc (f : F)
  deriving DecidableEq

/-- The pieces of text among the parts. -/
def texts (parts : List (Part F B)) : List B :=
  parts.filterMap fun part => match part with
    | .text b => some b
    | .doc _ => none

theorem texts_text (b : B) (parts : List (Part F B)) :
    texts (.text b :: parts) = b :: texts parts := rfl

theorem texts_doc (f : F) (parts : List (Part F B)) :
    texts (.doc f :: parts) = texts parts := rfl

theorem texts_append (parts parts' : List (Part F B)) :
    texts (parts ++ parts') = texts parts ++ texts parts' := List.filterMap_append

/-- One document includes the other; a document that cannot be read includes nothing. -/
def Includes (doc : F → Option (List (Part F B))) (f g : F) : Prop :=
  ∃ parts, doc f = some parts ∧ .doc g ∈ parts

/-- The documents that are included, at any depth, are among some that are closed. -/
theorem mem_of_closed {doc : F → Option (List (Part F B))} {S : List F} {f g : F} (hf : f ∈ S)
    (hclosed : ∀ f ∈ S, ∀ g ∉ S, ¬ Includes doc f g)
    (hreach : Relation.ReflTransGen (Includes doc) f g) : g ∈ S := by
  induction hreach with
  | refl => exact hf
  | tail _ hstep ih =>
    by_contra hg
    exact hclosed _ ih _ hg hstep

/-- The pieces of a document that are its own, in order; a document that does not exist has none. -/
def own (doc : F → Option (List (Part F B))) (f : F) : List B := texts ((doc f).getD [])

theorem own_of_some {doc : F → Option (List (Part F B))} {f : F} {parts : List (Part F B)}
    (h : doc f = some parts) : own doc f = texts parts := by
  rw [own, h, Option.getD_some]

/-! ### Derivations -/

/-- The parts of a document, put down; the documents that were seen before and after. -/
inductive Expands (doc : F → Option (List (Part F B))) :
    F → List (Part F B) → List F → List (F × B) → List F → Prop
  | nil {f : F} {seen : List F} : Expands doc f [] seen [] seen
  | text {f : F} {b : B} {parts : List (Part F B)} {seen seen' : List F} {out : List (F × B)}
      (h : Expands doc f parts seen out seen') :
      Expands doc f (.text b :: parts) seen ((f, b) :: out) seen'
  | seen {f g : F} {parts : List (Part F B)} {seen seen' : List F} {out : List (F × B)}
      (hg : g ∈ seen) (h : Expands doc f parts seen out seen') :
      Expands doc f (.doc g :: parts) seen out seen'
  | doc {f g : F} {parts parts' : List (Part F B)} {seen seen₁ seen₂ : List F}
      {out₁ out₂ : List (F × B)} (hg : g ∉ seen) (hdoc : doc g = some parts')
      (h₁ : Expands doc g parts' (g :: seen) out₁ seen₁)
      (h₂ : Expands doc f parts seen₁ out₂ seen₂) :
      Expands doc f (.doc g :: parts) seen (out₁ ++ out₂) seen₂

variable {doc : F → Option (List (Part F B))}

namespace Expands

variable {f : F} {parts : List (Part F B)} {seen seen' : List F} {out : List (F × B)}

/-! ### The documents that are visited -/

theorem subset (h : Expands doc f parts seen out seen') : seen ⊆ seen' := by
  induction h with
  | nil => exact List.Subset.refl _
  | text _ ih => exact ih
  | seen _ _ ih => exact ih
  | doc _ _ _ _ ih₁ ih₂ =>
    intro g hg
    exact ih₂ (ih₁ (List.mem_cons_of_mem _ hg))

theorem nodup (h : Expands doc f parts seen out seen') (hseen : seen.Nodup) : seen'.Nodup := by
  induction h with
  | nil => exact hseen
  | text _ ih => exact ih hseen
  | seen _ _ ih => exact ih hseen
  | doc hg _ _ _ ih₁ ih₂ => exact ih₂ (ih₁ (List.nodup_cons.mpr ⟨hg, hseen⟩))

/-- What is included is visited. -/
theorem mem_of_doc_mem (h : Expands doc f parts seen out seen') {g : F} (hg : .doc g ∈ parts) :
    g ∈ seen' := by
  induction h with
  | nil => cases hg
  | text _ ih =>
    rcases List.mem_cons.mp hg with heq | hmem
    · cases heq
    · exact ih hmem
  | seen hseen hrest ih =>
    rcases List.mem_cons.mp hg with heq | hmem
    · cases heq
      exact hrest.subset hseen
    · exact ih hmem
  | doc _ _ h₁ h₂ _ ih₂ =>
    rcases List.mem_cons.mp hg with heq | hmem
    · cases heq
      exact h₂.subset (h₁.subset List.mem_cons_self)
    · exact ih₂ hmem

/-- What a newly visited document includes is visited. -/
theorem closed (h : Expands doc f parts seen out seen') {g : F} (hg : g ∈ seen') :
    g ∈ seen ∨ ∃ parts', doc g = some parts' ∧ ∀ k, .doc k ∈ parts' → k ∈ seen' := by
  induction h with
  | nil => exact .inl hg
  | text _ ih => exact ih hg
  | seen _ _ ih => exact ih hg
  | doc _ hdoc h₁ h₂ ih₁ ih₂ =>
    rcases ih₂ hg with hmem | hnew
    · rcases ih₁ hmem with hmem | ⟨parts', hdoc', hall⟩
      · rcases List.mem_cons.mp hmem with rfl | hmem
        · exact .inr ⟨_, hdoc, fun k hk => h₂.subset (h₁.mem_of_doc_mem hk)⟩
        · exact .inl hmem
      · exact .inr ⟨parts', hdoc', fun k hk => h₂.subset (hall k hk)⟩
    · exact .inr hnew

/-- Only what is included, at any depth, is visited. -/
theorem reach (h : Expands doc f parts seen out seen') {g : F} (hg : g ∈ seen') :
    g ∈ seen ∨ ∃ k, .doc k ∈ parts ∧ Relation.ReflTransGen (Includes doc) k g := by
  induction h with
  | nil => exact .inl hg
  | text _ ih =>
    refine (ih hg).imp_right ?_
    rintro ⟨k, hk, hreach⟩
    exact ⟨k, List.mem_cons_of_mem _ hk, hreach⟩
  | seen _ _ ih =>
    refine (ih hg).imp_right ?_
    rintro ⟨k, hk, hreach⟩
    exact ⟨k, List.mem_cons_of_mem _ hk, hreach⟩
  | doc _ hdoc _ _ ih₁ ih₂ =>
    rcases ih₂ hg with hmem | ⟨k, hk, hreach⟩
    · rcases ih₁ hmem with hmem | ⟨k, hk, hreach⟩
      · rcases List.mem_cons.mp hmem with rfl | hmem
        · exact .inr ⟨_, List.mem_cons_self, .refl⟩
        · exact .inl hmem
      · exact .inr ⟨_, List.mem_cons_self, hreach.head ⟨_, hdoc, hk⟩⟩
    · exact .inr ⟨k, List.mem_cons_of_mem _ hk, hreach⟩

/-- From a document that stands alone all that it includes is visited, at any depth. -/
theorem mem_of_reach (h : Expands doc f parts [f] out seen') (hdoc : doc f = some parts) {g : F}
    (hreach : Relation.ReflTransGen (Includes doc) f g) : g ∈ seen' := by
  induction hreach with
  | refl => exact h.subset List.mem_cons_self
  | tail _ hstep ih =>
    obtain ⟨parts', hdoc', hmem⟩ := hstep
    rcases h.closed ih with hf | ⟨parts'', hdoc'', hall⟩
    · obtain rfl := List.mem_singleton.mp hf
      rw [hdoc] at hdoc'
      obtain rfl := Option.some.inj hdoc'
      exact h.mem_of_doc_mem hmem
    · rw [hdoc''] at hdoc'
      obtain rfl := Option.some.inj hdoc'
      exact hall _ hmem

/-- Each piece is from the document itself, or from a newly visited one. -/
theorem origin (h : Expands doc f parts seen out seen') {p : F × B} (hp : p ∈ out) :
    p.1 = f ∨ (p.1 ∈ seen' ∧ p.1 ∉ seen) := by
  induction h with
  | nil => cases hp
  | text _ ih =>
    rcases List.mem_cons.mp hp with rfl | hmem
    · exact .inl rfl
    · exact ih hmem
  | seen _ _ ih => exact ih hp
  | doc hg _ h₁ h₂ ih₁ ih₂ =>
    rcases List.mem_append.mp hp with hmem | hmem
    · refine .inr ?_
      rcases ih₁ hmem with heq | ⟨hin, hnot⟩
      · rw [heq]
        exact ⟨h₂.subset (h₁.subset List.mem_cons_self), hg⟩
      · exact ⟨h₂.subset hin, fun hmem' => hnot (List.mem_cons_of_mem _ hmem')⟩
    · rcases ih₂ hmem with heq | ⟨hin, hnot⟩
      · exact .inl heq
      · exact .inr ⟨hin, fun hmem' => hnot (h₁.subset (List.mem_cons_of_mem _ hmem'))⟩

end Expands

/-! ### Expansion -/

/-- The parts of a document, one after another; `visit` treats an included document. -/
def expandAll (visit : F → List F → Option (List (F × B) × List F)) (f : F) :
    List (Part F B) → List F → Option (List (F × B) × List F)
  | [], seen => some ([], seen)
  | .text b :: parts, seen =>
    (expandAll visit f parts seen).map fun r => ((f, b) :: r.1, r.2)
  | .doc g :: parts, seen =>
    (visit g seen).bind fun r => (expandAll visit f parts r.2).map fun r' => (r.1 ++ r'.1, r'.2)

/-- The parts of a document can be put down piecemeal. -/
theorem expandAll_append (visit : F → List F → Option (List (F × B) × List F)) (f : F)
    (parts parts' : List (Part F B)) (seen : List F) :
    expandAll visit f (parts ++ parts') seen =
      (expandAll visit f parts seen).bind fun r =>
        (expandAll visit f parts' r.2).map fun r' => (r.1 ++ r'.1, r'.2) := by
  induction parts generalizing seen with
  | nil =>
    rw [List.nil_append, expandAll, Option.bind_some]
    cases expandAll visit f parts' seen <;> rfl
  | cons part parts ih =>
    cases part with
    | text b =>
      rw [List.cons_append, expandAll, expandAll, ih]
      cases expandAll visit f parts seen with
      | none => rfl
      | some r =>
        rw [Option.map_some, Option.bind_some, Option.bind_some, Option.map_map]
        rfl
    | doc g =>
      rw [List.cons_append, expandAll, expandAll]
      cases visit g seen with
      | none => rfl
      | some r =>
        rw [Option.bind_some, Option.bind_some, ih]
        cases expandAll visit f parts r.2 with
        | none => rfl
        | some r₁ =>
          rw [Option.map_some, Option.bind_some, Option.bind_some]
          cases expandAll visit f parts' r₁.2 with
          | none => rfl
          | some r₂ => rw [Option.map_some, Option.map_some, Option.map_some, List.append_assoc]

/-- The parts of a document are put down when each visit that this takes succeeds. -/
theorem exists_expandAll {visit : F → List F → Option (List (F × B) × List F)} (f : F)
    (parts : List (Part F B)) (seen : List F)
    (hvisit : ∀ k, .doc k ∈ parts → ∀ seen₁, seen ⊆ seen₁ →
      ∃ r, visit k seen₁ = some r ∧ seen₁ ⊆ r.2) :
    ∃ r, expandAll visit f parts seen = some r := by
  induction parts generalizing seen with
  | nil => exact ⟨_, rfl⟩
  | cons part parts ih =>
    cases part with
    | text b =>
      obtain ⟨r, hr⟩ := ih seen fun k hk => hvisit k (List.mem_cons_of_mem _ hk)
      refine ⟨((f, b) :: r.1, r.2), ?_⟩
      rw [expandAll, hr, Option.map_some]
    | doc g =>
      obtain ⟨r, hr, hsub⟩ := hvisit g List.mem_cons_self seen (List.Subset.refl _)
      have hrest : ∀ k, .doc k ∈ parts → ∀ seen₁, r.2 ⊆ seen₁ →
          ∃ r, visit k seen₁ = some r ∧ seen₁ ⊆ r.2 := by
        intro k hk seen₁ h₁
        exact hvisit k (List.mem_cons_of_mem _ hk) seen₁ (List.Subset.trans hsub h₁)
      obtain ⟨r', hr'⟩ := ih r.2 hrest
      refine ⟨(r.1 ++ r'.1, r'.2), ?_⟩
      rw [expandAll, hr, Option.bind_some, hr', Option.map_some]

/-- The parts of a document are put down as in a derivation where each visit is one. -/
theorem expands_of_visits {visit : F → List F → Option (List (F × B) × List F)}
    (hvisit : ∀ g seen out seen', visit g seen = some (out, seen') →
      (g ∈ seen ∧ out = [] ∧ seen' = seen) ∨
      (g ∉ seen ∧ ∃ parts, doc g = some parts ∧ Expands doc g parts (g :: seen) out seen'))
    {f : F} {parts : List (Part F B)} {seen seen' : List F} {out : List (F × B)}
    (h : expandAll visit f parts seen = some (out, seen')) :
    Expands doc f parts seen out seen' := by
  induction parts generalizing seen seen' out with
  | nil =>
    obtain ⟨rfl, rfl⟩ := Prod.mk.inj (Option.some.inj h)
    exact .nil
  | cons part parts ih =>
    cases part with
    | text b =>
      obtain ⟨⟨out', seen''⟩, hrest, heq⟩ := Option.map_eq_some_iff.mp h
      obtain ⟨rfl, rfl⟩ := Prod.mk.inj heq
      exact .text (ih hrest)
    | doc g =>
      obtain ⟨⟨out₁, seen₁⟩, hfirst, h⟩ := Option.bind_eq_some_iff.mp h
      obtain ⟨⟨out₂, seen₂⟩, hrest, heq⟩ := Option.map_eq_some_iff.mp h
      obtain ⟨rfl, rfl⟩ := Prod.mk.inj heq
      rcases hvisit g seen out₁ seen₁ hfirst with ⟨hg, rfl, rfl⟩ | ⟨hg, parts', hdoc, hall⟩
      · exact .seen hg (ih hrest)
      · exact .doc hg hdoc hall (ih hrest)

/-! ### What is put down -/

section

variable [DecidableEq F]

/-- The pieces of a document in a text. -/
def piecesOf (f : F) (out : List (F × B)) : List B := (out.filter (·.1 = f)).map (·.2)

theorem piecesOf_append (f : F) (out out' : List (F × B)) :
    piecesOf f (out ++ out') = piecesOf f out ++ piecesOf f out' := by
  rw [piecesOf, List.filter_append, List.map_append, piecesOf, piecesOf]

theorem piecesOf_cons_self (f : F) (b : B) (out : List (F × B)) :
    piecesOf f ((f, b) :: out) = b :: piecesOf f out := by
  simp [piecesOf]

theorem piecesOf_cons_of_ne {f g : F} (h : f ≠ g) (b : B) (out : List (F × B)) :
    piecesOf g ((f, b) :: out) = piecesOf g out := by
  simp [piecesOf, h]

theorem piecesOf_eq_nil {f : F} {out : List (F × B)} (h : ∀ p ∈ out, p.1 ≠ f) :
    piecesOf f out = [] := by
  rw [piecesOf, List.map_eq_nil_iff, List.filter_eq_nil_iff]
  intro p hp heq
  exact h p hp (of_decide_eq_true heq)

namespace Expands

variable {f : F} {parts : List (Part F B)} {seen seen' : List F} {out : List (F × B)}

/-- What was seen before is not put down again. -/
theorem piecesOf_of_seen (h : Expands doc f parts seen out seen') {g : F} (hg : g ∈ seen)
    (hne : g ≠ f) : piecesOf g out = [] := by
  apply piecesOf_eq_nil
  intro p hp heq
  rcases h.origin hp with hf | ⟨-, hnot⟩
  · exact hne (heq.symm.trans hf)
  · exact hnot (heq ▸ hg)

/-- Neither is what is not visited. -/
theorem piecesOf_of_notMem (h : Expands doc f parts seen out seen') {g : F} (hg : g ∉ seen')
    (hne : g ≠ f) : piecesOf g out = [] := by
  apply piecesOf_eq_nil
  intro p hp heq
  rcases h.origin hp with hf | ⟨hin, -⟩
  · exact hne (heq.symm.trans hf)
  · exact hg (heq ▸ hin)

/-- The pieces of the document itself are put down in their order. -/
theorem piecesOf_self (h : Expands doc f parts seen out seen') (hf : f ∈ seen) :
    piecesOf f out = texts parts := by
  induction h with
  | nil => rfl
  | text _ ih => rw [piecesOf_cons_self, ih hf, texts_text]
  | seen _ _ ih => rw [ih hf, texts_doc]
  | @doc f g _ _ _ _ _ _ _ hg _ h₁ h₂ _ ih₂ =>
    have hne : f ≠ g := fun heq => hg (heq ▸ hf)
    rw [piecesOf_append, h₁.piecesOf_of_seen (List.mem_cons_of_mem _ hf) hne, List.nil_append,
      ih₂ (h₁.subset (List.mem_cons_of_mem _ hf)), texts_doc]

/-- So are those of every newly visited one. -/
theorem piecesOf_new (h : Expands doc f parts seen out seen') (hf : f ∈ seen) {g : F}
    (hg : g ∈ seen') (hnew : g ∉ seen) : piecesOf g out = own doc g := by
  induction h with
  | nil => exact absurd hg hnew
  | @text f _ _ _ _ _ _ ih =>
    have hne : f ≠ g := fun heq => hnew (heq ▸ hf)
    rw [piecesOf_cons_of_ne hne, ih hf hg hnew]
  | seen _ _ ih => exact ih hf hg hnew
  | @doc f g' _ _ seen seen₁ _ _ _ hg' hdoc h₁ h₂ ih₁ ih₂ =>
    have hne : g ≠ f := fun heq => hnew (heq ▸ hf)
    have hf₁ : f ∈ seen₁ := h₁.subset (List.mem_cons_of_mem _ hf)
    rw [piecesOf_append]
    by_cases hmem : g ∈ seen₁
    · rw [h₂.piecesOf_of_seen hmem hne, List.append_nil]
      by_cases heq : g = g'
      · subst heq
        rw [h₁.piecesOf_self List.mem_cons_self, own_of_some hdoc]
      · refine ih₁ List.mem_cons_self hmem ?_
        intro hcons
        rcases List.mem_cons.mp hcons with heq' | hseen
        · exact heq heq'
        · exact hnew hseen
    · have hne' : g ≠ g' := fun heq => hmem (h₁.subset (heq ▸ List.mem_cons_self))
      rw [h₁.piecesOf_of_notMem hmem hne', List.nil_append, ih₂ hf₁ hg hmem]

end Expands

/-! ### The order -/

/-- Behind the last piece of one document, what is left of the other are the given pieces. -/
def Before (k f : F) (behind : List B) (out : List (F × B)) : Prop :=
  ∃ front back, out = front ++ back ∧ piecesOf k back = [] ∧ piecesOf f back = behind

theorem Before.append_left {k f : F} {behind : List B} {out : List (F × B)}
    (h : Before k f behind out) (out' : List (F × B)) : Before k f behind (out' ++ out) := by
  obtain ⟨front, back, rfl, hk, hf⟩ := h
  exact ⟨out' ++ front, back, (List.append_assoc _ _ _).symm, hk, hf⟩

theorem Before.append_right {k f : F} {behind : List B} {out out' : List (F × B)}
    (h : Before k f behind out) (hk' : piecesOf k out' = []) (hf' : piecesOf f out' = []) :
    Before k f behind (out ++ out') := by
  obtain ⟨front, back, rfl, hk, hf⟩ := h
  refine ⟨front, back ++ out', List.append_assoc _ _ _, ?_, ?_⟩
  · rw [piecesOf_append, hk, hk', List.append_nil]
  · rw [piecesOf_append, hf, hf', List.append_nil]

/-- Where nothing of the one is, the other can be cut anywhere. -/
theorem before_of_piecesOf {k f : F} {front behind : List B} {out : List (F × B)}
    (hk : piecesOf k out = []) (hf : piecesOf f out = front ++ behind) :
    Before k f behind out := by
  obtain ⟨us, vs, huv, hus, hvs⟩ := List.map_eq_append_iff.mp hf
  obtain ⟨out₁, out₂, rfl, -, hout₂⟩ := List.filter_eq_append_iff.mp huv
  refine ⟨out₁, out₂, rfl, ?_, ?_⟩
  · rw [piecesOf_append] at hk
    exact (List.append_eq_nil_iff.mp hk).2
  · rw [piecesOf, hout₂, hvs]

namespace Expands

variable {f : F} {parts : List (Part F B)} {seen seen' : List F} {out : List (F × B)}

/-- What a document includes stands in front of what follows in the document. -/
theorem before_self (h : Expands doc f parts seen out seen') (hf : f ∈ seen)
    {pre post : List (Part F B)} {k : F} (hparts : parts = pre ++ .doc k :: post) :
    k ∈ seen ∨ Before k f (texts post) out := by
  induction h generalizing pre with
  | nil => exact absurd hparts.symm (List.append_ne_nil_of_right_ne_nil pre (List.cons_ne_nil _ _))
  | text _ ih =>
    cases pre with
    | nil => cases hparts
    | cons part pre =>
      obtain ⟨-, hrest⟩ := List.cons.inj hparts
      exact (ih hf hrest).imp_right fun hbefore => hbefore.append_left [_]
  | seen hg _ ih =>
    cases pre with
    | nil =>
      cases hparts
      exact .inl hg
    | cons part pre => exact ih hf (List.cons.inj hparts).2
  | @doc f g parts _ seen seen₁ _ out₁ out₂ hg _ h₁ h₂ _ ih₂ =>
    have hf₁ : f ∈ seen₁ := h₁.subset (List.mem_cons_of_mem _ hf)
    cases pre with
    | nil =>
      cases hparts
      have hne : k ≠ f := fun heq => hg (heq ▸ hf)
      have hk₁ : k ∈ seen₁ := h₁.subset List.mem_cons_self
      exact .inr ⟨out₁, out₂, rfl, h₂.piecesOf_of_seen hk₁ hne, h₂.piecesOf_self hf₁⟩
    | cons part pre =>
      have hrest : parts = pre ++ .doc k :: post := (List.cons.inj hparts).2
      by_cases hk : k ∈ seen
      · exact .inl hk
      · refine .inr (Before.append_left ?_ out₁)
        rcases ih₂ hf₁ hrest with hk₁ | hbefore
        · -- it was put down while `g` was
          have hne : k ≠ f := fun heq => hk (heq ▸ hf)
          refine before_of_piecesOf (h₂.piecesOf_of_seen hk₁ hne) (?_ : _ = texts pre ++ _)
          rw [h₂.piecesOf_self hf₁, hrest, texts_append, texts_doc]
        · exact hbefore

/-- The same for the newly visited documents, where the two do not include each other. -/
theorem before_new (h : Expands doc f parts seen out seen') (hf : f ∈ seen) {g : F}
    (hg : g ∈ seen') (hnew : g ∉ seen) {pre post : List (Part F B)} {k : F}
    (hdoc : doc g = some (pre ++ .doc k :: post)) :
    k ∈ seen ∨ Relation.ReflTransGen (Includes doc) k g ∨ Before k g (texts post) out := by
  -- on the expansion; `k` is included by `g`, which is put down for the first time here
  induction h with
  | nil => exact absurd hg hnew
  | text _ ih =>
    exact (ih hf hg hnew).imp_right fun h => h.imp_right fun hbefore => hbefore.append_left [_]
  | seen _ _ ih => exact ih hf hg hnew
  | @doc f g' _ parts' seen seen₁ _ out₁ out₂ hg' hdoc' h₁ h₂ ih₁ ih₂ =>
    have hf₁ : f ∈ seen₁ := h₁.subset (List.mem_cons_of_mem _ hf)
    have hgf : g ≠ f := fun heq => hnew (heq ▸ hf)
    by_cases hk : k ∈ seen
    · exact .inl hk
    have hkf : k ≠ f := fun heq => hk (heq ▸ hf)
    refine .inr ?_
    by_cases hg₁ : g ∈ seen₁
    · -- `g` is put down whole while `g'` is
      have hafter : k ∈ seen₁ → Before k g (texts post) out₁ →
          Before k g (texts post) (out₁ ++ out₂) := by
        intro hk₁ hbefore
        exact hbefore.append_right (h₂.piecesOf_of_seen hk₁ hkf) (h₂.piecesOf_of_seen hg₁ hgf)
      -- `g` is the included document itself, or below it
      by_cases heq : g = g'
      · subst heq
        rw [hdoc'] at hdoc
        obtain rfl := Option.some.inj hdoc
        have hk₁ : k ∈ seen₁ := h₁.mem_of_doc_mem (List.mem_append_right pre List.mem_cons_self)
        rcases h₁.before_self List.mem_cons_self rfl with hmem | hbefore
        · rcases List.mem_cons.mp hmem with rfl | hmem
          · exact .inl .refl
          · exact absurd hmem hk
        · exact .inr (hafter hk₁ hbefore)
      · have hnew' : g ∉ g' :: seen := by
          intro hmem
          rcases List.mem_cons.mp hmem with h | h
          · exact heq h
          · exact hnew h
        rcases ih₁ List.mem_cons_self hg₁ hnew' with hmem | hreach | hbefore
        · rcases List.mem_cons.mp hmem with rfl | hmem
          · rcases h₁.reach hg₁ with h | ⟨k', hk', hreach⟩
            · exact absurd h hnew'
            · exact .inl (hreach.head ⟨_, hdoc', hk'⟩)
          · exact absurd hmem hk
        · exact .inl hreach
        · refine .inr (hafter ?_ hbefore)
          rcases h₁.closed hg₁ with h | ⟨parts'', hdoc'', hall⟩
          · exact absurd h hnew'
          · rw [hdoc] at hdoc''
            obtain rfl := Option.some.inj hdoc''
            exact hall k (List.mem_append_right pre List.mem_cons_self)
    · -- `g` comes behind the included document
      rcases ih₂ hf₁ hg hg₁ with hk₁ | hreach | hbefore
      · refine .inr (Before.append_left ?_ out₁)
        refine before_of_piecesOf (h₂.piecesOf_of_seen hk₁ hkf) (?_ : _ = texts pre ++ _)
        rw [h₂.piecesOf_new hf₁ hg hg₁, own_of_some hdoc, texts_append, texts_doc]
      · exact .inl hreach
      · exact .inr (hbefore.append_left out₁)

end Expands

/-! ### With the documents that were seen -/

/-- A document that is not among the seen ones yet, with all that it includes; `none` when a
document cannot be read, or lies deeper than `fuel`. -/
def expand (doc : F → Option (List (Part F B))) :
    ℕ → F → List F → Option (List (F × B) × List F)
  | 0, _, _ => none
  | fuel + 1, f, seen =>
    if f ∈ seen then some ([], seen)
    else (doc f).bind fun parts => expandAll (expand doc fuel) f parts (f :: seen)

/-- A visit of a document. -/
theorem expand_succ_eq_some {fuel : ℕ} {f : F} {seen seen' : List F} {out : List (F × B)} :
    expand doc (fuel + 1) f seen = some (out, seen') ↔
      (f ∈ seen ∧ out = [] ∧ seen' = seen) ∨
      (f ∉ seen ∧ ∃ parts, doc f = some parts ∧
        expandAll (expand doc fuel) f parts (f :: seen) = some (out, seen')) := by
  rw [expand]
  by_cases hf : f ∈ seen
  · rw [if_pos hf, Option.some.injEq, Prod.mk.injEq]
    constructor
    · rintro ⟨rfl, rfl⟩
      exact .inl ⟨hf, rfl, rfl⟩
    · rintro (⟨-, rfl, rfl⟩ | ⟨hnot, -⟩)
      · exact ⟨rfl, rfl⟩
      · exact absurd hf hnot
  · rw [if_neg hf, Option.bind_eq_some_iff]
    constructor
    · rintro ⟨parts, hdoc, h⟩
      exact .inr ⟨hf, parts, hdoc, h⟩
    · rintro (⟨hmem, -⟩ | ⟨-, parts, hdoc, h⟩)
      · exact absurd hmem hf
      · exact ⟨parts, hdoc, h⟩

/-- An expansion is a derivation. -/
theorem expands_of_expandAll {fuel : ℕ} {f : F} {parts : List (Part F B)} {seen seen' : List F}
    {out : List (F × B)} (h : expandAll (expand doc fuel) f parts seen = some (out, seen')) :
    Expands doc f parts seen out seen' := by
  induction fuel generalizing f parts seen seen' out with
  | zero =>
    refine expands_of_visits ?_ h
    intro g seen out seen' hnone
    cases hnone
  | succ fuel ih =>
    refine expands_of_visits ?_ h
    intro g seen out seen' hvisit
    refine (expand_succ_eq_some.mp hvisit).imp_right ?_
    rintro ⟨hg, parts, hdoc, hall⟩
    exact ⟨hg, parts, hdoc, ih hall⟩

/-! ### When an expansion succeeds -/

theorem subset_of_expand {fuel : ℕ} {f : F} {seen seen' : List F} {out : List (F × B)}
    (h : expand doc fuel f seen = some (out, seen')) : seen ⊆ seen' := by
  cases fuel with
  | zero => cases h
  | succ fuel =>
    rcases expand_succ_eq_some.mp h with ⟨-, -, rfl⟩ | ⟨-, parts, -, hall⟩
    · exact List.Subset.refl _
    · intro g hg
      exact (expands_of_expandAll hall).subset (List.mem_cons_of_mem f hg)

/-- Each document that is entered leaves fewer to be visited. -/
theorem length_filter_lt {S seen : List F} {f : F} (hf : f ∈ S) (hnot : f ∉ seen)
    {seen₁ : List F} (hsub : f :: seen ⊆ seen₁) :
    (S.filter (· ∉ seen₁)).length < (S.filter (· ∉ seen)).length := by
  have hsublist : S.filter (· ∉ seen₁) = (S.filter (· ∉ seen)).filter (· ∉ seen₁) := by
    rw [List.filter_filter]
    apply List.filter_congr
    intro g _
    by_cases hg : g ∈ seen₁
    · simp [hg]
    · have hg' : g ∉ seen := fun hmem => hg (hsub (List.mem_cons_of_mem f hmem))
      simp [hg, hg']
  rw [hsublist, List.length_filter_lt_length_iff_exists]
  refine ⟨f, List.mem_filter.mpr ⟨hf, decide_eq_true hnot⟩, ?_⟩
  have hmem : f ∈ seen₁ := hsub List.mem_cons_self
  simp [hmem]

/-- Where all that is included can be read, fuel for the documents that are still to be visited
is enough. -/
theorem exists_expand {S : List F} {fuel : ℕ} {f : F} {seen : List F}
    (hread : ∀ g, Relation.ReflTransGen (Includes doc) f g → g ∈ S ∧ (doc g).isSome)
    (hfuel : (S.filter (· ∉ seen)).length < fuel) :
    ∃ r, expand doc fuel f seen = some r := by
  induction fuel generalizing f seen with
  | zero => exact absurd hfuel (Nat.not_lt_zero _)
  | succ fuel ih =>
    by_cases hf : f ∈ seen
    · exact ⟨([], seen), expand_succ_eq_some.mpr (.inl ⟨hf, rfl, rfl⟩)⟩
    obtain ⟨hS, hsome⟩ := hread f .refl
    obtain ⟨parts, hparts⟩ := Option.isSome_iff_exists.mp hsome
    have hvisit : ∀ k, .doc k ∈ parts → ∀ seen₁, f :: seen ⊆ seen₁ →
        ∃ r, expand doc fuel k seen₁ = some r ∧ seen₁ ⊆ r.2 := by
      intro k hk seen₁ hsub
      have hlt : (S.filter (· ∉ seen₁)).length < fuel := by
        have hless := length_filter_lt hS hf hsub
        omega
      obtain ⟨r, hr⟩ := ih (fun g hg => hread g (hg.head ⟨_, hparts, hk⟩)) hlt
      exact ⟨r, hr, subset_of_expand hr⟩
    obtain ⟨r, hr⟩ := exists_expandAll f parts (f :: seen) hvisit
    exact ⟨r, expand_succ_eq_some.mpr (.inr ⟨hf, parts, hparts, hr⟩)⟩

/-! ### The text of a document -/

/-- The text of a document: the pieces of all documents that it includes at any depth, those of
each once and in their order, and where no two include each other, behind those of the documents
that are included in front of them. -/
structure Whole (doc : F → Option (List (Part F B))) (f : F) (out : List (F × B))
    (files : List F) : Prop where
  nodup : files.Nodup
  mem_iff : ∀ g, g ∈ files ↔ Relation.ReflTransGen (Includes doc) f g
  origin : ∀ p ∈ out, p.1 ∈ files
  piecesOf_eq : ∀ g ∈ files, piecesOf g out = own doc g
  before : ∀ g ∈ files, ∀ pre k post, doc g = some (pre ++ .doc k :: post) →
    Relation.ReflTransGen (Includes doc) k g ∨ Before k g (texts post) out

/-- The expansion of a document that nothing was seen before. -/
theorem expands_of_expand {fuel : ℕ} {f : F} {out : List (F × B)} {files : List F}
    (h : expand doc fuel f [] = some (out, files)) :
    ∃ parts, doc f = some parts ∧ Expands doc f parts [f] out files := by
  cases fuel with
  | zero => cases h
  | succ fuel =>
    rcases expand_succ_eq_some.mp h with ⟨hmem, -⟩ | ⟨-, parts, hdoc, hall⟩
    · cases hmem
    · exact ⟨parts, hdoc, expands_of_expandAll hall⟩

theorem whole_of_expand {fuel : ℕ} {f : F} {out : List (F × B)} {files : List F}
    (h : expand doc fuel f [] = some (out, files)) : Whole doc f out files := by
  obtain ⟨parts, hdoc, hexp⟩ := expands_of_expand h
  have hself : f ∈ [f] := List.mem_cons_self
  have hreach : ∀ g ∈ files, Relation.ReflTransGen (Includes doc) f g := by
    intro g hg
    rcases hexp.reach hg with hmem | ⟨k, hk, hreach⟩
    · rw [List.mem_singleton.mp hmem]
    · exact hreach.head ⟨parts, hdoc, hk⟩
  refine ⟨hexp.nodup (List.nodup_singleton f), ?_, ?_, ?_, ?_⟩
  · intro g
    exact ⟨hreach g, hexp.mem_of_reach hdoc⟩
  · intro p hp
    rcases hexp.origin hp with heq | ⟨hmem, -⟩
    · rw [heq]
      exact hexp.subset hself
    · exact hmem
  · intro g hg
    by_cases heq : g ∈ [f]
    · obtain rfl := List.mem_singleton.mp heq
      rw [hexp.piecesOf_self hself, own_of_some hdoc]
    · exact hexp.piecesOf_new hself hg heq
  · intro g hg pre k post hdoc'
    have hroot : k ∈ [f] → Relation.ReflTransGen (Includes doc) k g := by
      intro hk
      rw [List.mem_singleton.mp hk]
      exact hreach g hg
    by_cases heq : g ∈ [f]
    · obtain rfl := List.mem_singleton.mp heq
      rw [hdoc] at hdoc'
      exact (hexp.before_self hself (Option.some.inj hdoc')).imp_left hroot
    · rcases hexp.before_new hself hg heq hdoc' with hmem | hcircle | hbefore
      · exact .inl (hroot hmem)
      · exact .inl hcircle
      · exact .inr hbefore

/-- **An expansion succeeds** exactly when all that is included can be read, with fuel for so many
documents. -/
theorem expand_isSome_iff {S : List F} {fuel : ℕ} {f : F}
    (hS : ∀ g, Relation.ReflTransGen (Includes doc) f g → g ∈ S) (hfuel : S.length < fuel) :
    (expand doc fuel f []).isSome ↔
      ∀ g, Relation.ReflTransGen (Includes doc) f g → (doc g).isSome := by
  constructor
  · intro h g hg
    obtain ⟨⟨out, files⟩, hr⟩ := Option.isSome_iff_exists.mp h
    obtain ⟨parts, hdoc, hexp⟩ := expands_of_expand hr
    rcases hexp.closed (hexp.mem_of_reach hdoc hg) with hmem | ⟨parts', hdoc', -⟩
    · rw [List.mem_singleton.mp hmem, hdoc]
      rfl
    · rw [hdoc']
      rfl
  · intro hread
    have hlt : (S.filter (· ∉ ([] : List F))).length < fuel :=
      lt_of_le_of_lt (List.length_filter_le _ _) hfuel
    obtain ⟨r, hr⟩ := exists_expand (fun g hg => ⟨hS g hg, hread g hg⟩) hlt
    rw [hr]
    rfl

end

end Inclusion
end Lapas
