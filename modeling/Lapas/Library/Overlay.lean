import Lapas.Library.FileTree

/-!
# Overlays

Two directory trees mounted over each other.  What the upper tree has at a path hides what
the lower one has, except that two directories are merged unless the upper one is opaque.

* `Shown` — what the merged view shows at a path.
* `Listing.overlay` — the merged view, path by path.
* `Entry.hides` — the entries of the upper tree that hide everything below them.
* `overlay_eq_lower_iff` — when a path that the upper tree does not have shows the lower one.
* `overlay_eq_some_iff` — what a merged view shows at a path.
-/

namespace Lapas

/-- What a merged view shows at a path. -/
inductive Shown (C : Type) where
  | file (content : C)
  | dir
  deriving DecidableEq

namespace Entry

variable {N C : Type}

/-- What an entry is shown as, apart from what is below it. -/
def shown : Entry N C → Shown C
  | .file content => .file content
  | .dir _ _ => .dir

/-- Nothing of the lower tree shows through below the entry. -/
def hides : Entry N C → Bool
  | .file _ => true
  | .dir isOpaque _ => isOpaque

end Entry

namespace Listing

variable {N C : Type} [DecidableEq N]

/-- The merged view of `upper` over `lower` at a path. -/
def overlay : Listing N C → Listing N C → List N → Option (Shown C)
  | _, _, [] => none
  | upper, lower, p :: ps =>
    match upper.get? [p] with
    | none => (lower.get? (p :: ps)).map Entry.shown
    | some (.file content) => if ps = [] then some (.file content) else none
    | some (.dir isOpaque entries) =>
      if ps = [] then some .dir
      else match isOpaque, lower.get? [p] with
        | false, some (.dir _ below) => overlay entries below ps
        | _, _ => (entries.get? ps).map Entry.shown

theorem get?_cons_of_dir {l : Listing N C} {p : N} {ps : List N} {o : Bool}
    {entries : Listing N C} (h : l.get? [p] = some (.dir o entries)) (hps : ps ≠ []) :
    l.get? (p :: ps) = entries.get? ps :=
  get?_append h hps

theorem get?_cons_eq_none {l : Listing N C} {p : N} {ps : List N}
    (h : ∀ o entries, l.get? [p] ≠ some (.dir o entries)) (hps : ps ≠ []) :
    l.get? (p :: ps) = none :=
  get?_append_eq_none h (List.cons_ne_nil p []) ps hps

/-- What is in front of a path that stands for something is a directory. -/
theorem exists_dir_of_get?_cons {l : Listing N C} {p : N} {ps : List N} (hps : ps ≠ [])
    {e : Entry N C} (h : l.get? (p :: ps) = some e) :
    ∃ o entries, l.get? [p] = some (.dir o entries) ∧ entries.get? ps = some e := by
  by_cases hdir : ∃ o entries, l.get? [p] = some (.dir o entries)
  · obtain ⟨o, entries, hp⟩ := hdir
    exact ⟨o, entries, hp, (get?_cons_of_dir hp hps).symm.trans h⟩
  · rw [get?_cons_eq_none (fun o entries hp => hdir ⟨o, entries, hp⟩) hps] at h
    cases h

/-- Below an entry that hides, the view is the upper tree. -/
theorem overlay_of_hides {upper lower : Listing N C} {path more : List N} {e : Entry N C}
    (he : upper.get? path = some e) (hhides : e.hides = true) (hmore : more ≠ []) :
    overlay upper lower (path ++ more) = (upper.get? (path ++ more)).map Entry.shown := by
  induction path generalizing upper lower with
  | nil => simp at he
  | cons p ps ih =>
    by_cases hps : ps = []
    · subst hps
      rw [List.cons_append, List.nil_append, overlay, he]
      cases e with
      -- nothing is below a file, in the view and in the tree
      | file content =>
        have hnone : upper.get? (p :: more) = none :=
          get?_cons_eq_none (fun o entries h => by rw [he] at h; cases h) hmore
        simp only [hmore, ↓reduceIte, hnone, Option.map_none]
      | dir o entries =>
        have ho : o = true := hhides
        simp only [hmore, ↓reduceIte, ho, get?_cons_of_dir he hmore]
    · obtain ⟨o, entries, hp, hentries⟩ := exists_dir_of_get?_cons hps he
      have hne : ps ++ more ≠ [] := by simp [hps]
      rw [List.cons_append, overlay, hp, get?_cons_of_dir hp hne]
      simp only [hne, ↓reduceIte]
      split
      · exact ih hentries
      · rfl

/-- When no entry on the way hides it, the lower tree shows at a path that the upper one
does not have. -/
theorem overlay_of_not_hides {upper lower : Listing N C} {path : List N}
    (hnone : upper.get? path = none)
    (h : ∀ q, q <+: path → ∀ e, upper.get? q = some e → e.hides = false) :
    overlay upper lower path = (lower.get? path).map Entry.shown := by
  induction path generalizing upper lower with
  | nil => rw [overlay, get?_path_nil]; rfl
  | cons p ps ih =>
    rw [overlay]
    cases hp : upper.get? [p] with
    | none => rfl
    | some e =>
      have hps : ps ≠ [] := by
        rintro rfl
        rw [hp] at hnone
        cases hnone
      have hhides := h [p] ⟨ps, rfl⟩ e hp
      cases e with
      | file content => cases hhides
      | dir o entries =>
        -- the two directories are merged, and the path goes on in both
        have ho : o = false := hhides
        subst ho
        have hentries : ∀ q, q ≠ [] → upper.get? (p :: q) = entries.get? q :=
          fun q hq => get?_cons_of_dir hp hq
        rw [hentries ps hps] at hnone
        simp only [hps, ↓reduceIte]
        cases hlow : lower.get? [p] with
        | none =>
          have hbelow : lower.get? (p :: ps) = none :=
            get?_cons_eq_none (fun o e he => by rw [hlow] at he; cases he) hps
          simp only [hnone, hbelow]
        | some e =>
          cases e with
          | file content =>
            have hbelow : lower.get? (p :: ps) = none :=
              get?_cons_eq_none (fun o e he => by rw [hlow] at he; cases he) hps
            simp only [hnone, hbelow]
          | dir o below =>
            rw [get?_cons_of_dir hlow hps]
            refine ih hnone fun q hq e he => ?_
            have hqne : q ≠ [] := by
              rintro rfl
              simp at he
            exact h (p :: q) (List.cons_prefix_cons.mpr ⟨rfl, hq⟩) e (by rwa [hentries q hqne])

/-- **When the lower tree shows** at a path that the upper one does not have: it has nothing
there itself, or no entry of the upper tree in front of the path hides it. -/
theorem overlay_eq_lower_iff {upper lower : Listing N C} {path : List N}
    (hnone : upper.get? path = none) :
    overlay upper lower path = (lower.get? path).map Entry.shown ↔
      lower.get? path = none ∨
        ∀ q, q <+: path → ∀ e, upper.get? q = some e → e.hides = false := by
  constructor
  · intro heq
    by_contra hcon
    obtain ⟨hlow, hhides⟩ := not_or.mp hcon
    push Not at hhides
    obtain ⟨q, ⟨more, rfl⟩, e, he, hhide⟩ := hhides
    have hmore : more ≠ [] := by
      rintro rfl
      rw [List.append_nil, he] at hnone
      cases hnone
    rw [overlay_of_hides he (by simpa using hhide) hmore, hnone, Option.map_none, eq_comm,
      Option.map_eq_none_iff] at heq
    exact hlow heq
  · rintro (hlow | hhides)
    · -- what the lower tree does not have, the merged view cannot show
      by_cases hhides : ∀ q, q <+: path → ∀ e, upper.get? q = some e → e.hides = false
      · exact overlay_of_not_hides hnone hhides
      · push Not at hhides
        obtain ⟨q, ⟨more, rfl⟩, e, he, hhide⟩ := hhides
        have hmore : more ≠ [] := by
          rintro rfl
          rw [List.append_nil, he] at hnone
          cases hnone
        rw [overlay_of_hides he (by simpa using hhide) hmore, hnone, hlow]
    · exact overlay_of_not_hides hnone hhides

/-- What the upper tree has shows. -/
theorem overlay_of_get? {upper lower : Listing N C} {path : List N} {e : Entry N C}
    (he : upper.get? path = some e) : overlay upper lower path = some e.shown := by
  induction path generalizing upper lower with
  | nil => simp at he
  | cons p ps ih =>
    by_cases hps : ps = []
    · subst hps
      rw [overlay, he]
      cases e <;> rfl
    · obtain ⟨o, entries, hp, hentries⟩ := exists_dir_of_get?_cons hps he
      rw [overlay, hp]
      simp only [hps, ↓reduceIte]
      split
      · exact ih hentries
      · rw [hentries, Option.map_some]

/-- **What a merged view shows**: what the upper tree has at the path, or what the lower one has
there, when the upper one has nothing at the path and hides it nowhere. -/
theorem overlay_eq_some_iff {upper lower : Listing N C} {path : List N} {shown : Shown C} :
    overlay upper lower path = some shown ↔
      (∃ e, upper.get? path = some e ∧ e.shown = shown) ∨
        upper.get? path = none ∧ (∃ e, lower.get? path = some e ∧ e.shown = shown) ∧
          ∀ q, q <+: path → ∀ e, upper.get? q = some e → e.hides = false := by
  cases hup : upper.get? path with
  | some e =>
    rw [overlay_of_get? hup]
    simp
  | none =>
    by_cases hhides : ∀ q, q <+: path → ∀ e, upper.get? q = some e → e.hides = false
    · rw [overlay_of_not_hides hup hhides, Option.map_eq_some_iff]
      simpa using fun _ _ _ => hhides
    · refine iff_of_false (fun heq => ?_) (by simp [hhides])
      push Not at hhides
      obtain ⟨q, ⟨more, rfl⟩, e, he, hhide⟩ := hhides
      have hmore : more ≠ [] := by
        rintro rfl
        rw [List.append_nil, he] at hup
        cases hup
      rw [overlay_of_hides he (by simpa using hhide) hmore, hup] at heq
      cases heq

end Listing

end Lapas
