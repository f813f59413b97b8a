import Mathlib.Data.List.Basic
import Mathlib.Data.List.Nodup
import Mathlib.Tactic.Common

/-!
# Directory trees

A directory is the list of its entries in the order in which it is read: names with
files, or with directories that have entries of their own.  Paths are lists of names.

*Pruning* a tree by a predicate on paths removes the files it does not keep, and the
directories it does not keep that have become empty.

* `Listing`, `Entry` — directories, and what a name in them stands for.
* `Listing.Distinct` — no directory lists a name twice.
* `Listing.allNames` — a check of every name in the tree.
* `Listing.get?` — what a path stands for.
* `Listing.prune` — the pruned tree; `get?_prune` is its specification.
-/

namespace Lapas

/-- The entries of a directory in the order in which they are read.  `isOpaque` marks a
directory that hides one of the same name in a layer below. -/
inductive Listing (N C : Type) where
  | nil
  | file (name : N) (content : C) (rest : Listing N C)
  | dir (name : N) (isOpaque : Bool) (entries rest : Listing N C)
  deriving DecidableEq

/-- What a name in a directory stands for. -/
inductive Entry (N C : Type) where
  | file (content : C)
  | dir (isOpaque : Bool) (entries : Listing N C)
  deriving DecidableEq

namespace Listing

variable {N C : Type}

/-- Whether a directory has no entries, which the list of its entries says directly. -/
def isEmpty : Listing N C → Bool
  | nil => true
  | _ => false

theorem isEmpty_iff {l : Listing N C} : l.isEmpty = true ↔ l = nil := by
  cases l <;> simp [isEmpty]

/-- The names a directory lists, in the order in which it lists them. -/
def names : Listing N C → List N
  | nil => []
  | file n _ rest => n :: rest.names
  | dir n _ _ rest => n :: rest.names

/-- No directory of the tree lists a name twice. -/
def Distinct : Listing N C → Prop
  | nil => True
  | file n _ rest => n ∉ rest.names ∧ rest.Distinct
  | dir n _ entries rest => n ∉ rest.names ∧ entries.Distinct ∧ rest.Distinct

instance decidableDistinct [DecidableEq N] : ∀ l : Listing N C, Decidable l.Distinct
  | nil => inferInstanceAs (Decidable True)
  | file n _ rest =>
    have := decidableDistinct rest
    inferInstanceAs (Decidable (n ∉ rest.names ∧ rest.Distinct))
  | dir n _ entries rest =>
    have := decidableDistinct entries
    have := decidableDistinct rest
    inferInstanceAs (Decidable (n ∉ rest.names ∧ entries.Distinct ∧ rest.Distinct))

/-- All names of the tree satisfy a predicate. -/
def allNames (p : N → Bool) : Listing N C → Bool
  | nil => true
  | file n _ rest => p n && rest.allNames p
  | dir n _ entries rest => p n && entries.allNames p && rest.allNames p

/-! ### Paths -/

section

variable [DecidableEq N]

/-- What a path below a directory stands for. -/
def get? : Listing N C → List N → Option (Entry N C)
  | _, [] => none
  | nil, _ :: _ => none
  | file n c rest, p :: ps =>
    if n = p then if ps = [] then some (.file c) else none else rest.get? (p :: ps)
  | dir n o entries rest, p :: ps =>
    if n = p then if ps = [] then some (.dir o entries) else entries.get? ps
    else rest.get? (p :: ps)

@[simp] theorem get?_path_nil (l : Listing N C) : l.get? [] = none := by cases l <;> rfl

@[simp] theorem get?_nil (path : List N) : (nil : Listing N C).get? path = none := by
  cases path <;> rfl

theorem get?_file (n : N) (c : C) (rest : Listing N C) (p : N) (ps : List N) :
    (file n c rest).get? (p :: ps) =
      if n = p then if ps = [] then some (.file c) else none else rest.get? (p :: ps) := rfl

theorem get?_dir (n : N) (o : Bool) (entries rest : Listing N C) (p : N) (ps : List N) :
    (dir n o entries rest).get? (p :: ps) =
      if n = p then if ps = [] then some (.dir o entries) else entries.get? ps
      else rest.get? (p :: ps) := rfl

/-- A name that is not listed stands for nothing. -/
theorem get?_of_notMem {l : Listing N C} {p : N} (h : p ∉ l.names) (ps : List N) :
    l.get? (p :: ps) = none := by
  induction l with
  | nil => rfl
  | file n c rest ih =>
    simp only [names, List.mem_cons, not_or] at h
    rw [get?_file, if_neg (Ne.symm h.1), ih h.2]
  | dir n o entries rest _ ih =>
    simp only [names, List.mem_cons, not_or] at h
    rw [get?_dir, if_neg (Ne.symm h.1), ih h.2]

/-- A path that stands for something is made of names of the tree. -/
theorem of_get?_isSome {p : N → Bool} {l : Listing N C} (h : l.allNames p = true) {path : List N}
    (hsome : (l.get? path).isSome) : ∀ n ∈ path, p n = true := by
  induction l generalizing path with
  | nil => simp at hsome
  | file n c rest ih =>
    cases path with
    | nil => simp at hsome
    | cons q qs =>
      rw [allNames, Bool.and_eq_true] at h
      rw [get?_file] at hsome
      split at hsome
      · next hnq =>
        split at hsome
        -- a file is the end of its path
        · next hqs => simpa [hqs, ← hnq] using h.1
        · cases hsome
      · exact ih h.2 hsome
  | dir n o entries rest ihe ihr =>
    cases path with
    | nil => simp at hsome
    | cons q qs =>
      rw [allNames, Bool.and_eq_true, Bool.and_eq_true] at h
      rw [get?_dir] at hsome
      split at hsome
      · next hnq =>
        split at hsome
        · next hqs => simpa [hqs, ← hnq] using h.1.1
        · exact List.forall_mem_cons.mpr ⟨hnq ▸ h.1.1, ihe h.1.2 hsome⟩
      · exact ihr h.2 hsome

/-- A directory is not empty when some path below it stands for something. -/
theorem ne_nil_iff {l : Listing N C} : l ≠ nil ↔ ∃ path, (l.get? path).isSome := by
  constructor
  · intro h
    cases l with
    | nil => exact absurd rfl h
    | file n c rest => exact ⟨[n], by simp [get?_file]⟩
    | dir n o entries rest => exact ⟨[n], by simp [get?_dir]⟩
  · rintro ⟨path, h⟩ rfl
    simp at h

/-- Below a path that stands for a directory, paths go on in that directory. -/
theorem get?_append {l : Listing N C} {path : List N} {o : Bool} {entries : Listing N C}
    (h : l.get? path = some (.dir o entries)) {more : List N} (hmore : more ≠ []) :
    l.get? (path ++ more) = entries.get? more := by
  induction l generalizing path with
  | nil => simp at h
  | file n c rest ih =>
    cases path with
    | nil => simp at h
    | cons p ps =>
      rw [get?_file] at h
      split at h
      · split at h <;> simp at h
      · next hne => rw [List.cons_append, get?_file, if_neg hne]; exact ih h
  | dir n o' entries' rest ihe ihr =>
    cases path with
    | nil => simp at h
    | cons p ps =>
      rw [get?_dir] at h
      split at h
      · next heq =>
        split at h
        · next hps =>
          subst hps
          simp only [Option.some.injEq, Entry.dir.injEq] at h
          obtain ⟨rfl, rfl⟩ := h
          rw [List.cons_append, List.nil_append, get?_dir, if_pos heq, if_neg hmore]
        · next hps =>
          rw [List.cons_append, get?_dir, if_pos heq, if_neg (by simp [hps])]
          exact ihe h
      · next hne => rw [List.cons_append, get?_dir, if_neg hne]; exact ihr h

/-- A directory of a tree lists its own names once each. -/
theorem Distinct.of_get? {l : Listing N C} (h : l.Distinct) {path : List N} {o : Bool}
    {entries : Listing N C} (hget : l.get? path = some (.dir o entries)) : entries.Distinct := by
  induction l generalizing path with
  | nil => simp at hget
  | file n c rest ih =>
    cases path with
    | nil => simp at hget
    | cons p ps =>
      rw [get?_file] at hget
      split at hget
      · split at hget <;> cases hget
      · exact ih h.2 hget
  | dir n o' entries' rest ihe ihr =>
    cases path with
    | nil => simp at hget
    | cons p ps =>
      rw [get?_dir] at hget
      split at hget
      · split at hget
        · cases hget
          exact h.2.1
        · exact ihe h.2.1 hget
      · exact ihr h.2.2 hget

/-- Paths go on below directories only. -/
theorem get?_append_eq_none {l : Listing N C} {path : List N}
    (h : ∀ o entries, l.get? path ≠ some (.dir o entries)) (hpath : path ≠ []) (more : List N)
    (hmore : more ≠ []) : l.get? (path ++ more) = none := by
  induction l generalizing path with
  | nil => simp
  | file n c rest ih =>
    obtain ⟨p, ps, rfl⟩ := List.exists_cons_of_ne_nil hpath
    rw [List.cons_append, get?_file]
    split
    · rw [if_neg (by simp [hmore])]
    · next hne =>
      refine ih (fun o entries heq => h o entries ?_) hpath
      rw [get?_file, if_neg hne, heq]
  | dir n o' entries' rest ihe ihr =>
    obtain ⟨p, ps, rfl⟩ := List.exists_cons_of_ne_nil hpath
    rw [List.cons_append, get?_dir]
    split
    · next heq =>
      have hps : ps ≠ [] := by
        rintro rfl
        exact h o' entries' (by rw [get?_dir, if_pos heq, if_pos rfl])
      rw [if_neg (by simp [hps])]
      refine ihe (fun o entries hget => h o entries ?_) hps
      rw [get?_dir, if_pos heq, if_neg hps, hget]
    · next hne =>
      refine ihr (fun o entries heq => h o entries ?_) hpath
      rw [get?_dir, if_neg hne, heq]

theorem get?_isSome_of_append {l : Listing N C} {path more : List N} (hpath : path ≠ [])
    (h : (l.get? (path ++ more)).isSome) : (l.get? path).isSome := by
  by_cases hmore : more = []
  · rwa [hmore, List.append_nil] at h
  · by_contra hnone
    rw [Option.not_isSome_iff_eq_none] at hnone
    rw [get?_append_eq_none (fun o entries he => by rw [hnone] at he; cases he) hpath more hmore]
      at h
    cases h

end

/-! ### Pruning -/

section

variable (keep : List N → Bool)

/-- The tree below `path` without the files that are not kept, and without the
directories that are not kept and have become empty. -/
def prune (path : List N) : Listing N C → Listing N C
  | nil => nil
  | file n c rest =>
    if keep (path ++ [n]) then file n c (prune path rest) else prune path rest
  | dir n o entries rest =>
    if keep (path ++ [n]) || !(prune (path ++ [n]) entries).isEmpty then
      dir n o (prune (path ++ [n]) entries) (prune path rest)
    else prune path rest

end

end Listing

/-- What pruning leaves of an entry: what is to be kept, and the directories above something that is
kept. -/
def Entry.prune {N C : Type} (keep : List N → Bool) (path : List N) :
    Entry N C → Option (Entry N C)
  | .file c => if keep path then some (.file c) else none
  | .dir o entries =>
    if keep path || !(entries.prune keep path).isEmpty then
      some (.dir o (entries.prune keep path))
    else none

namespace Listing

section

variable {N C : Type} {keep : List N → Bool}

theorem prune_file (path : List N) (n : N) (c : C) (rest : Listing N C) :
    (file n c rest).prune keep path =
      if keep (path ++ [n]) then file n c (rest.prune keep path) else rest.prune keep path := rfl

theorem prune_dir (path : List N) (n : N) (o : Bool) (entries rest : Listing N C) :
    (dir n o entries rest).prune keep path =
      if keep (path ++ [n]) || !(entries.prune keep (path ++ [n])).isEmpty then
        dir n o (entries.prune keep (path ++ [n])) (rest.prune keep path)
      else rest.prune keep path := rfl

/-- Nothing is left of a tree of which nothing is kept. -/
theorem prune_eq_nil {path : List N} {l : Listing N C}
    (h : ∀ more, more ≠ [] → keep (path ++ more) = false) : l.prune keep path = nil := by
  induction l generalizing path with
  | nil => rfl
  | file n c rest ih =>
    rw [prune_file, h [n] (by simp)]
    exact ih h
  | dir n o entries rest ihe ihr =>
    have hentries : entries.prune keep (path ++ [n]) = nil := by
      refine ihe fun more hmore => ?_
      rw [List.append_assoc]
      exact h _ (by simp)
    rw [prune_dir, h [n] (by simp), hentries]
    exact ihr h

/-- A tree of which everything is kept stays as it is. -/
theorem prune_eq_self {path : List N} {l : Listing N C}
    (h : ∀ more, more ≠ [] → keep (path ++ more) = true) : l.prune keep path = l := by
  induction l generalizing path with
  | nil => rfl
  | file n c rest ih => rw [prune_file, h [n] (by simp), ih h, if_pos rfl]
  | dir n o entries rest ihe ihr =>
    have hentries : entries.prune keep (path ++ [n]) = entries := by
      refine ihe fun more hmore => ?_
      rw [List.append_assoc]
      exact h _ (by simp)
    rw [prune_dir, h [n] (by simp), hentries, ihr h]
    rfl

theorem names_prune_subset (path : List N) (l : Listing N C) :
    (l.prune keep path).names ⊆ l.names := by
  induction l with
  | nil => exact List.Subset.refl _
  | file n c rest ih =>
    rw [prune_file]
    split
    · exact List.cons_subset_cons n ih
    · exact List.subset_cons_of_subset n ih
  | dir n o entries rest _ ih =>
    rw [prune_dir]
    split
    · exact List.cons_subset_cons n ih
    · exact List.subset_cons_of_subset n ih

variable [DecidableEq N]

/-- **The pruned tree, path by path**: a path stands for what pruning leaves of what it
stood for. -/
theorem get?_prune {l : Listing N C} (h : l.Distinct) (path more : List N) :
    (l.prune keep path).get? more = (l.get? more).bind (Entry.prune keep (path ++ more)) := by
  induction l generalizing path more with
  | nil => simp [prune]
  | file n c rest ih =>
    cases more with
    | nil => simp
    | cons p ps =>
      rw [get?_file]
      by_cases hnp : n = p
      · subst hnp
        -- no other entry can take the place of one that is pruned
        have hrest : (rest.prune keep path).get? (n :: ps) = none :=
          get?_of_notMem (fun hn => h.1 (names_prune_subset path rest hn)) ps
        rw [if_pos rfl, prune_file]
        by_cases hps : ps = []
        · subst hps
          cases hk : keep (path ++ [n]) with
          | true => simp [get?_file, Entry.prune, hk]
          | false => simp [hrest, Entry.prune, hk]
        · cases hk : keep (path ++ [n]) with
          | true => simp [get?_file, hps]
          | false => simp [hrest, hps]
      · rw [if_neg hnp, prune_file, ← ih h.2]
        split
        · rw [get?_file, if_neg hnp]
        · rfl
  | dir n o entries rest ihe ihr =>
    cases more with
    | nil => simp
    | cons p ps =>
      rw [get?_dir]
      by_cases hnp : n = p
      · subst hnp
        have hrest : (rest.prune keep path).get? (n :: ps) = none :=
          get?_of_notMem (fun hn => h.1 (names_prune_subset path rest hn)) ps
        rw [if_pos rfl, prune_dir]
        by_cases hps : ps = []
        · subst hps
          rw [if_pos rfl, Option.bind_some, Entry.prune]
          split
          · rw [get?_dir, if_pos rfl, if_pos rfl]
          · exact hrest
        · -- a removed directory was empty, so nothing below it is lost
          have hbelow := ihe h.2.1 (path ++ [n]) ps
          rw [List.append_assoc, List.singleton_append] at hbelow
          rw [if_neg hps, ← hbelow]
          split
          · rw [get?_dir, if_pos rfl, if_neg hps]
          · next hgone =>
            rw [Bool.not_eq_true, Bool.or_eq_false_iff, Bool.not_eq_false'] at hgone
            rw [hrest, isEmpty_iff.mp hgone.2, get?_nil]
      · rw [if_neg hnp, prune_dir, ← ihr h.2.2]
        split
        · rw [get?_dir, if_neg hnp]
        · rfl

/-- What is kept is there afterwards. -/
theorem get?_prune_isSome_of_keep {l : Listing N C} (h : l.Distinct) {path more : List N}
    (hsome : (l.get? more).isSome) (hkeep : keep (path ++ more) = true) :
    ((l.prune keep path).get? more).isSome := by
  obtain ⟨e, he⟩ := Option.isSome_iff_exists.mp hsome
  rw [get?_prune h, he, Option.bind_some]
  cases e <;> simp [Entry.prune, hkeep]

/-- A path into the rest of a listing does not start with a name that is not in it. -/
theorem ne_of_get?_isSome {rest : Listing N C} {n : N} (hn : n ∉ rest.names) {path : List N}
    (h : (rest.get? path).isSome) : ∃ p ps, path = p :: ps ∧ n ≠ p := by
  cases path with
  | nil => simp at h
  | cons p ps =>
    refine ⟨p, ps, rfl, ?_⟩
    rintro rfl
    rw [get?_of_notMem hn] at h
    exact Bool.false_ne_true h

/-- What holds of a file and of everything listed behind it. -/
theorem forall_get?_file {P : List N → Entry N C → Prop} {n : N} {c : C} {rest : Listing N C}
    (hn : n ∉ rest.names) :
    (∀ more e, (file n c rest).get? more = some e → P more e) ↔
      P [n] (.file c) ∧ ∀ more e, rest.get? more = some e → P more e := by
  constructor
  · intro h
    refine ⟨h [n] _ (by simp [get?_file]), fun more e he => h more e ?_⟩
    obtain ⟨p, ps, rfl, hne⟩ := ne_of_get?_isSome hn (Option.isSome_of_eq_some he)
    rwa [get?_file, if_neg hne]
  · rintro ⟨hfirst, hrest⟩ more e he
    cases more with
    | nil => simp at he
    | cons p ps =>
      rw [get?_file] at he
      split at he
      · next heq =>
        split at he
        · next hps => cases he; rwa [← heq, hps]
        · cases he
      · exact hrest _ e he

/-- What holds of a directory, of everything below it and of everything listed behind it. -/
theorem forall_get?_dir {P : List N → Entry N C → Prop} {n : N} {o : Bool}
    {entries rest : Listing N C} (hn : n ∉ rest.names) :
    (∀ more e, (dir n o entries rest).get? more = some e → P more e) ↔
      P [n] (.dir o entries) ∧ (∀ more e, entries.get? more = some e → P (n :: more) e) ∧
        ∀ more e, rest.get? more = some e → P more e := by
  constructor
  · intro h
    refine ⟨h [n] _ (by simp [get?_dir]), fun more e he => h (n :: more) e ?_,
      fun more e he => h more e ?_⟩
    · have hmore : more ≠ [] := by
        rintro rfl
        simp at he
      rwa [get?_dir, if_pos rfl, if_neg hmore]
    · obtain ⟨p, ps, rfl, hne⟩ := ne_of_get?_isSome hn (Option.isSome_of_eq_some he)
      rwa [get?_dir, if_neg hne]
  · rintro ⟨hfirst, hbelow, hrest⟩ more e he
    cases more with
    | nil => simp at he
    | cons p ps =>
      rw [get?_dir] at he
      split at he
      · next heq =>
        split at he
        · next hps => cases he; rwa [← heq, hps]
        · exact heq ▸ hbelow ps e he
      · exact hrest _ e he

/-- Something is left of a tree exactly when something in it is kept. -/
theorem prune_ne_nil_iff {l : Listing N C} (h : l.Distinct) (path : List N) :
    l.prune keep path ≠ nil ↔ ∃ more, (l.get? more).isSome ∧ keep (path ++ more) = true := by
  constructor
  · induction l generalizing path with
    | nil => intro hne; exact absurd rfl hne
    | file n c rest ih =>
      intro hne
      rw [prune_file] at hne
      split at hne
      · next hk => exact ⟨[n], by simp [get?_file], hk⟩
      -- what is left is in the rest, where no path starts with `n`
      · obtain ⟨more, hsome, hkeep⟩ := ih h.2 path hne
        obtain ⟨p, ps, rfl, hnp⟩ := ne_of_get?_isSome h.1 hsome
        exact ⟨p :: ps, by rwa [get?_file, if_neg hnp], hkeep⟩
    | dir n o entries rest ihe ihr =>
      intro hne
      rw [prune_dir] at hne
      split at hne
      · next hstay =>
        rw [Bool.or_eq_true] at hstay
        rcases hstay with hk | hstay
        · exact ⟨[n], by simp [get?_dir], hk⟩
        · have hbelow : entries.prune keep (path ++ [n]) ≠ nil := by
            intro hnil
            rw [hnil] at hstay
            simp [isEmpty] at hstay
          obtain ⟨more, hsome, hkeep⟩ := ihe h.2.1 _ hbelow
          have hmore : more ≠ [] := by rintro rfl; simp at hsome
          refine ⟨n :: more, ?_, by rwa [List.append_assoc] at hkeep⟩
          rwa [get?_dir, if_pos rfl, if_neg hmore]
      · obtain ⟨more, hsome, hkeep⟩ := ihr h.2.2 path hne
        obtain ⟨p, ps, rfl, hnp⟩ := ne_of_get?_isSome h.1 hsome
        exact ⟨p :: ps, by rwa [get?_dir, if_neg hnp], hkeep⟩
  · rintro ⟨more, hsome, hkeep⟩
    exact ne_nil_iff.mpr ⟨more, get?_prune_isSome_of_keep h hsome hkeep⟩

/-- A path is left exactly when it or something below it is kept. -/
theorem get?_prune_isSome_iff {l : Listing N C} (h : l.Distinct) {path : List N}
    (hpath : path ≠ []) :
    ((l.prune keep []).get? path).isSome ↔
      ∃ more, (l.get? (path ++ more)).isSome ∧ keep (path ++ more) = true := by
  constructor
  · rw [get?_prune h, List.nil_append]
    cases hget : l.get? path with
    | none => intro hsome; cases hsome
    | some e =>
      rw [Option.bind_some]
      have hself : keep path = true →
          ∃ more, (l.get? (path ++ more)).isSome ∧ keep (path ++ more) = true :=
        fun hkeep => ⟨[], by rw [List.append_nil, hget]; rfl, by rwa [List.append_nil]⟩
      cases e with
      | file c =>
        rw [Entry.prune]
        split
        · next hkeep => exact fun _ => hself hkeep
        · intro hsome; cases hsome
      | dir o entries =>
        rw [Entry.prune]
        split
        · next hstays =>
          intro _
          rw [Bool.or_eq_true, Bool.not_eq_true', ← Bool.not_eq_true, isEmpty_iff] at hstays
          rcases hstays with hkeep | hne
          · exact hself hkeep
          · obtain ⟨more, hsome, hkeep⟩ := (prune_ne_nil_iff (h.of_get? hget) path).mp hne
            have hmore : more ≠ [] := by rintro rfl; simp at hsome
            exact ⟨more, by rwa [get?_append hget hmore], hkeep⟩
        · intro hsome; cases hsome
  · rintro ⟨more, hsome, hkeep⟩
    exact get?_isSome_of_append hpath (get?_prune_isSome_of_keep h hsome hkeep)

end

end Listing

end Lapas
