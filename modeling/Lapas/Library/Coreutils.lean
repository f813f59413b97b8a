import Lapas.Library.Python

/-!
# Commands on files

The commands of a shell script that create, move, remove and link, on file systems with links.
A command that fails leaves the file system alone.

## Main definitions

* `Nodes.Bare`, `Nodes.isfile`, `Nodes.held` — looking at directories and files.
* `Command`, `ignored` — commands, also those whose failure is ignored.
* `mkdirP`, `mv`, `rm`, `rmR`, `touch`, `lnS`, `lnRS` — the commands of these names.
* `landing`, `Takes` — where `mv` puts its source, and when it does.

## Main results

* `resolve_removed` — what is left when something is removed is found in the same place.
* `exists?_put_link`, `resolve_put_link` — looking up the destination of a new link.
-/

namespace Lapas

variable {N C : Type}

namespace Nodes

/-- A directory without entries: there is no node right below it, and by well-formedness none
further down. -/
def Bare (fs : Nodes N C) (path : List N) : Prop := ∀ name, fs (path ++ [name]) = none

theorem exists_of_islink {fs : Nodes N C} {path : List N} (h : fs.islink path = true) :
    ∃ target, fs path = some (.link target) := by
  rw [islink] at h
  split at h
  · rename_i target hlink
    exact ⟨target, hlink⟩
  · cases h

/-- `[ -f path ]`, which follows links: the path leads to a file. -/
def isfile (fs : Nodes N C) (path : List N) : Bool :=
  match fs.stat path with
  | some (.file _) => true
  | _ => false

/-- What is there is a file or a directory. -/
theorem isfile_or_isdir (fs : Nodes N C) (path : List N) :
    (fs.isfile path || fs.isdir path) = fs.exists? path := by
  rw [isfile, isdir, exists?, stat]
  cases hnode : fs (fs.resolve path) with
  | none => rfl
  | some node => cases node <;> rfl

/-- What a path leads to, and what is below that. -/
def held (fs : Nodes N C) (path : List N) : Nodes N C := fs.below (fs.resolve path)

end Nodes

namespace Coreutils

open Python

/-! ### The commands -/

/-- A command as a function on the file system, where `none` stands for its failure, after which
nothing has changed. -/
abbrev Command (N C : Type) := Nodes N C → Option (Nodes N C)

/-- Without a look at the exit status. -/
def ignored (command : Command N C) (fs : Nodes N C) : Nodes N C := (command fs).getD fs

section

variable [DecidableEq N]

/-- `mkdir -p`: a directory that exists is fine, and else all directories on the way are made,
unless something else is there. -/
def mkdirP (path : List N) : Command N C := fun fs =>
  if fs.isdir path then some fs
  else if Creatable fs path then some (fs.created path) else none

/-- Where `mv` and `ln` put something: into a destination that is a directory, under the last name
of the source, and else at the destination. -/
def landing (fs : Nodes N C) (src dst : List N) : List N :=
  if fs.isdir dst then fs.resolve dst ++ basename src else dst

/-- `mv` can rename: not into the source itself, and a directory only replaces an empty one, and
nothing else does. -/
def Takes (fs : Nodes N C) (src dst : List N) : Prop :=
  ¬ src <+: dst ∧ fs.isdir dst.dropLast = true ∧
    match fs src, fs dst with
    | none, _ => False
    | some _, none => True
    | some .dir, some .dir => fs.Bare dst
    | some .dir, some _ => False
    | some _, some .dir => False
    | some _, some _ => True

section

variable [∀ (fs : Nodes N C) (path : List N), Decidable (fs.Bare path)]

instance (fs : Nodes N C) (src dst : List N) : Decidable (Takes fs src dst) := by
  unfold Takes
  exact @instDecidableAnd _ _ _ (@instDecidableAnd _ _ _ (by split <;> infer_instance))

/-- `mv`, which renames: the source is at the destination afterwards with all that is below it, if
the destination takes it. -/
def mv (src dst : List N) : Command N C := fun fs =>
  if Takes fs src (landing fs src dst) then some (fs.moved src (landing fs src dst)) else none

end

/-- `rm`, which removes a file or a link, and fails on a directory and on a missing path. -/
def rm (path : List N) : Command N C := fun fs =>
  match fs path with
  | none | some .dir => none
  | some _ => some (fs.removed path)

/-- `rm -r`, which removes whatever is at the path with all that is below it; links are not
followed. -/
def rmR (path : List N) : Command N C := fun fs =>
  if (fs path).isSome then some (fs.removed path) else none

/-- `touch`, which follows links: a node that exists stays as it is, a missing one becomes an empty
file when its directory exists. -/
def touch (emptyContent : C) (path : List N) : Command N C := fun fs =>
  match fs (fs.resolve path) with
  | some (.link _) => none
  | some _ => some fs
  | none =>
    if fs.isdir (fs.resolve path).dropLast then
      some (fs.put (fs.resolve path) (.file emptyContent))
    else none

/-- `ln -s` with a text for the link; in a directory the link gets the name of its target. -/
def ln (text target path : List N) : Command N C := fun fs =>
  let linkPath := if fs.isdir path then fs.resolve path ++ basename target else path
  if (fs linkPath).isSome then none
  else if fs.isdir linkPath.dropLast then some (fs.put linkPath (.link text)) else none

/-- `ln -s`, which makes the link inside a destination that is a directory. -/
def lnS (target path : List N) : Command N C := ln target target path

/-- `ln -rs`; the links in the target are resolved. -/
def lnRS (target path : List N) : Command N C := fun fs => ln (fs.resolve target) target path fs

end

/-! ### Files under another path -/

section

variable {fs fs' : Nodes N C} {path src dst : List N}

theorem basename_of_ne_nil (hne : path ≠ []) : basename path = [path.getLast hne] := by
  rw [basename, List.getLast?_eq_getLast_of_ne_nil hne]
  rfl

theorem exists?_of_some (h : fs path ≠ none) (hlink : fs.islink path = false) :
    fs.exists? path = true := by
  rw [Nodes.exists?_of_not_link hlink]
  exact Option.isSome_iff_ne_none.mpr h

theorem isdir_iff : fs.isdir path = true ↔ fs (fs.resolve path) = some .dir := by
  rw [Nodes.isdir, Nodes.stat]
  cases hnode : fs (fs.resolve path) with
  | none => simp
  | some node => cases node <;> simp

theorem file_or_dir (hsome : fs path ≠ none) (hlink : fs.islink path = false) :
    (∃ data, fs path = some (.file data)) ∨ fs path = some .dir := by
  cases hnode : fs path with
  | none => exact absurd hnode hsome
  | some node =>
    cases node with
    | file data => exact Or.inl ⟨data, rfl⟩
    | dir => exact Or.inr rfl
    | link next => cases (Nodes.islink_of_link hnode).symm.trans hlink

theorem isdir_of_file {content : C} (h : fs path = some (.file content)) :
    fs.isdir path = false := by
  rw [Nodes.isdir, Nodes.stat_of_not_link (Nodes.islink_of_file h), h]

theorem isfile_of_file {content : C} (h : fs path = some (.file content)) :
    fs.isfile path = true := by
  rw [Nodes.isfile, Nodes.stat_of_not_link (Nodes.islink_of_file h), h]

theorem isfile_of_dir (h : fs path = some .dir) : fs.isfile path = false := by
  rw [Nodes.isfile, Nodes.stat_of_not_link (Nodes.islink_of_dir h), h]

theorem exists?_of_isdir (h : fs.isdir path = true) : fs.exists? path = true := by
  rw [← Nodes.isfile_or_isdir, h, Bool.or_true]

theorem landing_of_not_isdir (h : fs.isdir dst = false) : landing fs src dst = dst :=
  if_neg (by rw [h]; exact Bool.false_ne_true)

/-- What is below nothing is nothing. -/
theorem below_of_none (hfs : WellFormed fs) (hnone : fs path = none) {rest : List N} :
    fs (path ++ rest) = none := by
  by_cases hrest : rest = []
  · rw [hrest, List.append_nil, hnone]
  · refine hfs.none_below (List.prefix_append path rest) (fun heq => hrest ?_) ?_
    · exact List.append_right_eq_self.mp heq.symm
    · rw [hnone]
      exact fun heq => nomatch heq

/-! ### Moving -/

theorem Takes.ne_none (h : Takes fs src dst) : fs src ≠ none := fun hnone => by
  have hkind := h.2.2
  rw [hnone] at hkind
  exact hkind

/-- There is nothing below the place that `mv` takes something to. -/
theorem Takes.none_below (hfs : WellFormed fs) (h : Takes fs src dst) {p : List N}
    (hpre : dst <+: p) (hne : dst ≠ p) : fs p = none := by
  by_contra hsome
  have hkind := h.2.2
  rw [hfs.dir_above hpre hne hsome] at hkind
  cases hnode : fs src with
  | none => exact h.ne_none hnode
  | some node =>
    rw [hnode] at hkind
    cases node with
    | file _ | link _ => exact hkind
    | dir =>
      -- An empty directory has nothing below it.
      obtain ⟨rest, rfl⟩ := hpre
      cases rest with
      | nil => exact hne (List.append_nil dst).symm
      | cons name rest =>
        have hnone : fs (dst ++ [name] ++ rest) = none := below_of_none hfs (hkind name)
        rw [List.append_assoc, List.singleton_append] at hnone
        exact hsome hnone

/-- What `mv` takes to a place is not below it. -/
theorem Takes.not_prefix (hfs : WellFormed fs) (h : Takes fs src dst) : ¬ dst <+: src :=
  fun hpre => h.ne_none (h.none_below hfs hpre fun heq => h.1 (heq ▸ List.prefix_rfl))

end

/-! ### Links that change -/

section

variable {fs fs' : Nodes N C} {src : List N}

/-- Where some links are replaced by what is no directory, a path that has led to a directory
still does, or leads to none. -/
theorem resolveWith_or {real : List N}
    (hlinks : ∀ p target, fs p = some (.link target) → fs' p = some (.link target) ∨
      fs'.islink p = false ∧ fs' p ≠ some .dir)
    (hreal : fs'.islink real = false) {fuel : ℕ} {path : List N}
    (h : fs.resolveWith fuel path = real) :
    fs'.resolveWith fuel path = real ∨ fs' (fs'.resolveWith fuel path) ≠ some .dir := by
  induction fuel generalizing path with
  | zero => exact Or.inl h
  | succ fuel ih =>
    cases hlink : fs.islink path with
    | false =>
      rw [Nodes.resolveWith_of_not_link hlink] at h
      subst h
      exact Or.inl (Nodes.resolveWith_of_not_link hreal _)
    | true =>
      obtain ⟨target, htarget⟩ := Nodes.exists_of_islink hlink
      rw [Nodes.resolveWith, htarget] at h
      rcases hlinks path target htarget with hsame | ⟨hlink', hdir⟩
      · rw [Nodes.resolveWith, hsame]
        exact ih h
      · rw [Nodes.resolveWith_of_not_link hlink']
        exact Or.inr hdir

/-- Where something is removed, a path that leads to something has led there before. -/
theorem resolveWith_of_le (hle : ∀ p, fs' p = fs p ∨ fs' p = none) {fuel : ℕ} {path : List N}
    (hsome : fs' (fs'.resolveWith fuel path) ≠ none) :
    fs'.resolveWith fuel path = fs.resolveWith fuel path := by
  induction fuel generalizing path with
  | zero => rfl
  | succ fuel ih =>
    rcases hle path with hsame | hnone
    · cases hlink : fs.islink path with
      | false =>
        have hlink' : fs'.islink path = false := by rw [Nodes.islink, hsame, ← Nodes.islink, hlink]
        rw [Nodes.resolveWith_of_not_link hlink, Nodes.resolveWith_of_not_link hlink']
      | true =>
        obtain ⟨target, htarget⟩ := Nodes.exists_of_islink hlink
        rw [Nodes.resolveWith, hsame, htarget] at hsome ⊢
        rw [Nodes.resolveWith, htarget]
        exact ih hsome
    · rw [Nodes.resolveWith_of_not_link (Nodes.islink_of_none hnone)] at hsome
      exact absurd hnone hsome

variable [DecidableEq N]

theorem removed_le (p : List N) : fs.removed src p = fs p ∨ fs.removed src p = none := by
  by_cases hpre : src <+: p
  · exact Or.inr (if_pos hpre)
  · exact Or.inl (if_neg hpre)

/-- What is left when something is removed is found in the same place. -/
theorem resolve_removed {path : List N} (h : (fs.removed src).exists? path = true) :
    (fs.removed src).resolve path = fs.resolve path ∧ ¬ src <+: fs.resolve path := by
  have hsome := (Nodes.exists?_iff.mp h).1
  have hresolve : (fs.removed src).resolve path = fs.resolve path :=
    resolveWith_of_le removed_le hsome
  rw [hresolve] at hsome
  exact ⟨hresolve, fun hpre => hsome (if_pos hpre)⟩

/-- What is there without something is there. -/
theorem exists?_of_removed {path : List N} (h : (fs.removed src).exists? path = true) :
    fs.exists? path = true := by
  obtain ⟨hresolve, hnot⟩ := resolve_removed h
  rw [Nodes.exists?_iff, hresolve, Nodes.islink, Nodes.removed_of_not_below hnot] at h
  exact Nodes.exists?_iff.mpr h

/-! ### New links -/

variable {target text : List N}

/-- A path that does not lead to a free place does not see the link that is put there. -/
theorem resolveWith_put_link (hfree : fs src = none) {fuel : ℕ} {path : List N}
    (h : fs.resolveWith fuel path ≠ src) :
    (fs.put src (.link text)).resolveWith fuel path = fs.resolveWith fuel path := by
  induction fuel generalizing path with
  | zero => rfl
  | succ fuel ih =>
    have hne : path ≠ src := by
      rintro rfl
      exact h (Nodes.resolveWith_of_not_link (Nodes.islink_of_none hfree) _)
    cases hlink : fs.islink path with
    | false =>
      have hlink' : (fs.put src (.link text)).islink path = false := by
        rw [Nodes.islink, Nodes.put_of_ne hne, ← Nodes.islink, hlink]
      rw [Nodes.resolveWith_of_not_link hlink, Nodes.resolveWith_of_not_link hlink']
    | true =>
      obtain ⟨next, hnext⟩ := Nodes.exists_of_islink hlink
      rw [Nodes.resolveWith, hnext] at h
      rw [Nodes.resolveWith, Nodes.put_of_ne hne, hnext, Nodes.resolveWith, hnext]
      exact ih h

/-- A link that leads back to its own place never leads anywhere else. -/
theorem islink_of_loop {m : ℕ} (htext : fs.resolveWith m text = src)
    {fuel : ℕ} {path : List N} (hpath : ∃ n, fs.resolveWith n path = src) :
    (fs.put src (.link text)).islink ((fs.put src (.link text)).resolveWith fuel path) = true := by
  -- Whatever has led to the place is a link now.
  have hlink : ∀ path, (∃ n, fs.resolveWith n path = src) → ∃ next,
      fs.put src (.link text) path = some (.link next) ∧ ∃ n, fs.resolveWith n next = src := by
    rintro path ⟨n, hn⟩
    by_cases hne : path = src
    · exact ⟨text, by rw [hne, Nodes.put_self], m, htext⟩
    · cases hpath : fs.islink path with
      | false => exact absurd ((Nodes.resolveWith_of_not_link hpath n).symm.trans hn) hne
      | true =>
        obtain ⟨next, hnext⟩ := Nodes.exists_of_islink hpath
        refine ⟨next, (Nodes.put_of_ne hne _).trans hnext, ?_⟩
        cases n with
        | zero => exact absurd hn hne
        | succ n =>
          rw [Nodes.resolveWith, hnext] at hn
          exact ⟨n, hn⟩
  induction fuel generalizing path with
  | zero =>
    obtain ⟨next, hnext, -⟩ := hlink path hpath
    rw [Nodes.resolveWith, Nodes.islink, hnext]
  | succ fuel ih =>
    obtain ⟨next, hnext, hleads⟩ := hlink path hpath
    rw [Nodes.resolveWith, hnext]
    exact ih hleads

/-- A link to a path, or to where that leads, is no help in looking it up. -/
theorem exists?_put_link (hfree : fs src = none)
    (htext : text = target ∨ text = fs.resolve target) :
    (fs.put src (.link text)).exists? target = fs.exists? target := by
  by_cases hsrc : fs.resolve target = src
  · have hleads : ∃ m, fs.resolveWith m text = src := by
      rcases htext with rfl | rfl
      · exact ⟨40, hsrc⟩
      · exact ⟨0, hsrc⟩
    obtain ⟨m, hm⟩ := hleads
    have hlink : (fs.put src (.link text)).islink ((fs.put src (.link text)).resolve target) :=
      islink_of_loop hm ⟨40, hsrc⟩
    have hnot : (fs.put src (.link text)).exists? target = false := by
      rw [Bool.eq_false_iff]
      intro h
      exact Bool.false_ne_true ((Nodes.exists?_iff.mp h).2.symm.trans hlink)
    rw [hnot, eq_comm, Bool.eq_false_iff]
    intro h
    exact (Nodes.exists?_iff.mp h).1 (by rw [hsrc, hfree])
  · have hresolve : (fs.put src (.link text)).resolve target = fs.resolve target :=
      resolveWith_put_link hfree hsrc
    rw [Bool.eq_iff_iff, Nodes.exists?_iff, Nodes.exists?_iff, hresolve, Nodes.islink, Nodes.islink,
      Nodes.put_of_ne hsrc]

/-- Link and target lead to the same place. -/
theorem resolve_put_link (hfree : fs src = none)
    (htext : text = target ∨ text = fs.resolve target) (h : fs.exists? target = true) :
    (fs.put src (.link text)).resolve target = fs.resolve target ∧
      (fs.put src (.link text)).resolve text = fs.resolve target := by
  have hsome := Nodes.exists?_iff.mp h
  have hsrc : fs.resolve target ≠ src := fun heq => hsome.1 (by rw [heq, hfree])
  have hresolve : (fs.put src (.link text)).resolve target = fs.resolve target :=
    resolveWith_put_link hfree hsrc
  refine ⟨hresolve, ?_⟩
  rcases htext with rfl | rfl
  · exact hresolve
  · refine Nodes.resolve_of_not_link ?_
    rw [Nodes.islink, Nodes.put_of_ne hsrc, ← Nodes.islink]
    exact hsome.2

theorem below_put {path : List N} (h : ¬ path <+: src) (node : Node N C) :
    (fs.put src node).below path = fs.below path := by
  funext rest
  refine Nodes.put_of_ne (fun heq => h ?_) node
  rw [← heq]
  exact List.prefix_append path rest

/-- A new link is seen from above. -/
theorem not_prefix_of_below_put {path : List N} (hlink : fs'.islink src = false)
    (h : (fs.put src (.link text)).below path = fs'.below path) : ¬ path <+: src := by
  rintro ⟨rest, rfl⟩
  have hrest : (fs.put (path ++ rest) (.link text)) (path ++ rest) = fs' (path ++ rest) :=
    congrFun h rest
  rw [Nodes.put_self] at hrest
  rw [Nodes.islink, ← hrest] at hlink
  cases hlink

theorem ln_of_none {path : List N} (hnone : fs path = none)
    (hdir : fs path.dropLast = some .dir) :
    ln text target path fs = some (fs.put path (.link text)) := by
  have hisdir : ¬ fs.isdir path = true := by
    rw [Nodes.isdir, Nodes.stat_of_not_link (Nodes.islink_of_none hnone), hnone]
    exact Bool.false_ne_true
  rw [ln, if_neg hisdir, hnone, if_neg (fun h => by cases h), if_pos (Nodes.isdir_of_dir hdir)]

/-- In a directory the link gets the name of its target. -/
theorem lnS_of_dir {path : List N} (hdir : fs path = some .dir) (hne : target ≠ []) :
    lnS target path fs =
      if (fs (path ++ basename target)).isSome then none
      else some (fs.put (path ++ basename target) (.link target)) := by
  have hisdir := Nodes.isdir_of_dir hdir
  rw [lnS, ln, if_pos hisdir, Nodes.resolve_of_not_link (Nodes.islink_of_dir hdir),
    basename_of_ne_nil hne, List.dropLast_concat, if_pos hisdir]

/-! ### Removing -/

theorem ignored_rm_of_none {path : List N} (h : fs path = none) : ignored (rm path) fs = fs := by
  rw [ignored, rm, h]
  rfl

/-- A directory stays. -/
theorem ignored_rm_of_dir {path : List N} (h : fs path = some .dir) :
    ignored (rm path) fs = fs := by
  rw [ignored, rm, h]
  rfl

theorem rm_of_file {path : List N} {content : C} (h : fs path = some (.file content)) :
    rm path fs = some (fs.removed path) := by rw [rm, h]

/-- What is there is left alone by `touch`. -/
theorem touch_of_exists {emptyContent : C} {path : List N} (h : fs.exists? path = true) :
    touch emptyContent path fs = some fs := by
  obtain ⟨hsome, hlink⟩ := Nodes.exists?_iff.mp h
  rw [touch]
  split
  · rename_i next hnext
    rw [Nodes.islink, hnext] at hlink
    cases hlink
  · rfl
  · rename_i hnone
    exact absurd hnone hsome

/-- Otherwise, `touch` puts a file where the path leads. -/
theorem put_of_touch {emptyContent : C} {path : List N} (h : touch emptyContent path fs = some fs')
    (hexists : fs.exists? path = false) :
    fs (fs.resolve path) = none ∧ fs.isdir (fs.resolve path).dropLast = true ∧
      fs' = fs.put (fs.resolve path) (.file emptyContent) := by
  cases hnode : fs (fs.resolve path) with
  | none =>
    simp only [touch, hnode] at h
    split at h
    · exact ⟨rfl, ‹_›, (Option.some.inj h).symm⟩
    · cases h
  | some node =>
    cases node with
    | link next => simp only [touch, hnode] at h; cases h
    | file _ | dir =>
      have htrue : fs.exists? path = true :=
        Nodes.exists?_iff.mpr ⟨by simp [hnode], by simp [Nodes.islink, hnode]⟩
      rw [hexists] at htrue
      cases htrue

/-- `touch` changes nothing that is there. -/
theorem touch_apply {emptyContent : C} {path p : List N}
    (h : touch emptyContent path fs = some fs') (hp : fs p ≠ none) : fs' p = fs p := by
  cases hexists : fs.exists? path with
  | true => rw [Option.some.inj (h.symm.trans (touch_of_exists hexists))]
  | false =>
    obtain ⟨hnone, -, rfl⟩ := put_of_touch h hexists
    refine Nodes.put_of_ne (fun heq => hp ?_) _
    rw [heq, hnone]

/-- The directory of something that is removed is still there. -/
theorem dir_removed (hfs : WellFormed fs) (hne : src ≠ []) (hsrc : fs src ≠ none) :
    fs.removed src src.dropLast = some .dir := by
  rw [Nodes.removed_of_not_below (Nodes.not_prefix_dropLast hne)]
  exact hfs.dir_dropLast hne hsrc

/-! ### Moving and creating -/

variable {dst : List N}

/-- After a move the place of the source is free, in a directory. -/
theorem moved_src (hfs : WellFormed fs) (hne : src ≠ []) (h : Takes fs src dst) :
    fs.moved src dst src = none ∧ fs.moved src dst src.dropLast = some .dir := by
  have hnot := h.not_prefix hfs
  refine ⟨Nodes.moved_of_below List.prefix_rfl hnot, ?_⟩
  rw [Nodes.moved_of_not_below (Nodes.not_prefix_dropLast hne) fun hpre =>
    hnot (hpre.trans (List.dropLast_prefix src))]
  exact hfs.dir_dropLast hne h.ne_none

/-- A move replaces a link by what is none, or leaves it alone. -/
theorem Takes.link (hfs : WellFormed fs) (h : Takes fs src dst) (hlink : fs.islink src = false)
    {p next : List N} (hnext : fs p = some (.link next)) :
    fs.moved src dst p = some (.link next) ∨
      (fs.moved src dst).islink p = false ∧ fs.moved src dst p ≠ some .dir := by
  by_cases hdst : dst <+: p
  · have heq : dst = p := by
      by_contra hne
      rw [h.none_below hfs hdst hne] at hnext
      cases hnext
    subst heq
    have hkind := h.2.2
    rw [hnext] at hkind
    rw [Nodes.islink, Nodes.moved_self, ← Nodes.islink]
    refine Or.inr ⟨hlink, fun hdir => ?_⟩
    rw [hdir] at hkind
    exact hkind
  · by_cases hsrc : src <+: p
    · have hnone : fs.moved src dst p = none := Nodes.moved_of_below hsrc hdst
      exact Or.inr ⟨Nodes.islink_of_none hnone, by rw [hnone]; exact fun heq => by cases heq⟩
    · exact Or.inl ((Nodes.moved_of_not_below hsrc hdst).trans hnext)

/-- Directories are created, or nothing happens. -/
theorem ignored_mkdirP (fs : Nodes N C) (path : List N) :
    ignored (mkdirP path) fs = fs ∨
      Creatable fs path = true ∧ ignored (mkdirP path) fs = fs.created path := by
  unfold ignored mkdirP
  split
  · exact Or.inl rfl
  · split
    · exact Or.inr ⟨‹_›, rfl⟩
    · exact Or.inl rfl

theorem ignored_mkdirP_of_dir {path : List N} (h : fs path = some .dir) :
    ignored (mkdirP path) fs = fs := by
  rw [ignored, mkdirP, if_pos (Nodes.isdir_of_dir h)]
  rfl

theorem wellFormed_mkdirP (hfs : WellFormed fs) (path : List N) :
    WellFormed (ignored (mkdirP path) fs) := by
  rcases ignored_mkdirP fs path with heq | ⟨hcreatable, heq⟩
  · rwa [heq]
  · rw [heq]
    exact hfs.created (creatable_iff.mp hcreatable)

/-- Only what is above the path is created. -/
theorem ignored_mkdirP_apply {path p : List N} (h : ¬ p <+: path ∨ fs p ≠ none) :
    ignored (mkdirP path) fs p = fs p := by
  rcases ignored_mkdirP fs path with heq | ⟨-, heq⟩
  · rw [heq]
  · rw [heq]
    rcases h with hpre | hsome
    · exact Nodes.created_of_not_above hpre
    · obtain ⟨node, hnode⟩ := Option.ne_none_iff_exists'.mp hsome
      rw [hnode]
      exact Nodes.created_of_some hnode

/-- Where something is, nothing is created. -/
theorem ignored_mkdirP_of_some (hfs : WellFormed fs) {path : List N} (h : fs path ≠ none) :
    ignored (mkdirP path) fs = fs := by
  rcases ignored_mkdirP fs path with heq | ⟨-, heq⟩
  · exact heq
  · rw [heq]
    refine Nodes.created_eq_self fun p hpre => ?_
    by_cases hp : p = path
    · rw [hp]
      exact h
    · rw [hfs.dir_above hpre hp h]
      exact fun heq => nomatch heq

/-- A directory is created, when those above it can be. -/
theorem ignored_mkdirP_mkdirP {path : List N} {name : N} (hnone : fs (path ++ [name]) = none) :
    ignored (mkdirP (path ++ [name])) (ignored (mkdirP path) fs) (path ++ [name]) =
      if Creatable fs path then some .dir else none := by
  have hlonger : ¬ path ++ [name] <+: path := fun hpre => by
    have hlength := hpre.length_le
    rw [List.length_append, List.length_singleton] at hlength
    omega
  have hnone₁ : ignored (mkdirP path) fs (path ++ [name]) = none :=
    (ignored_mkdirP_apply (Or.inl hlonger)).trans hnone
  have hisdir : ¬ (ignored (mkdirP path) fs).isdir (path ++ [name]) = true := fun h =>
    Nodes.ne_none_of_exists? (exists?_of_isdir h) hnone₁
  have hcreatable : Creatable (ignored (mkdirP path) fs) (path ++ [name]) = Creatable fs path := by
    rw [Bool.eq_iff_iff, creatable_iff, creatable_iff]
    constructor
    · intro h p hpre
      by_cases hp : fs p = none
      · exact Or.inl hp
      · have hsame : ignored (mkdirP path) fs p = fs p := ignored_mkdirP_apply (Or.inr hp)
        rw [← hsame]
        exact h p (hpre.trans (List.prefix_append path _))
    · intro h p hpre
      rcases List.prefix_concat_iff.mp hpre with rfl | hpre
      · exact Or.inl hnone₁
      · rcases ignored_mkdirP fs path with heq | ⟨-, heq⟩
        · rw [heq]
          exact h p hpre
        · rw [heq, Nodes.created_of_above hpre]
          rcases h p hpre with hp | hp <;> rw [hp] <;> exact Or.inr rfl
  rw [ignored, mkdirP, if_neg hisdir, hcreatable]
  by_cases h : Creatable fs path = true
  · rw [if_pos h, if_pos h, Option.getD_some, Nodes.created_of_above List.prefix_rfl, hnone₁]
    rfl
  · rw [if_neg h, if_neg h]
    exact hnone₁

end

end Coreutils
end Lapas
