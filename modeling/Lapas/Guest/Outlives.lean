import Lapas.Guest.Boots
import Lapas.Keep.Shipped

/-!
# What outlives a boot

`mountHome.sh` lets `keepEngine` clean the upper directory of a player once per boot, by the rules
in `.keep`.  Here the cleanup of a directory is that of the model of `keepEngine`, and the rules
are the shipped ones.

## Main definitions

* `Represents` — a folder of `keepEngine`'s, in a file system.
* `engine` — what a cleanup by some rules does to the files in a file system.
* `LeavesAlone`, `Ruled` — the events that leave a file alone, and cleanups by the rules.

## Main results

* `represents_clean` — this is what `keepEngine` does.
* `outlives_iff` — **exactly the files that the rules leave to the players outlive a boot**.
-/

namespace Lapas
namespace Guest

open Keep

/-! ### Folders and file systems -/

/-- What stands for an entry of a folder in a file system. -/
def nodeOf : Entry FileName (Content Str) → Node Str (Content Str)
  | .file content => .file content
  | .dir _ _ => .dir

/-- The files of a folder in both of the models: the nodes at the paths of the overlay are the
entries of the listing, and all names are text. -/
structure Represents (files : Nodes Str (Content Str)) (l : Listing FileName (Content Str)) :
    Prop where
  text : ∀ path, (files path).isSome → ∃ segs : List Segment, path = segs.map Segment.text
  node : ∀ segs : List Segment, segs ≠ [] →
    files (segs.map Segment.text) = (l.get? (segs.map .utf8)).map nodeOf

section

variable {rx : RegexCrate} (graph : DecisionGraph rx)

/-- The rules leave the path to the players. -/
def Kept (path : List Str) : Prop :=
  ∃ segs : List Segment, path = segs.map Segment.text ∧ SaysKeep graph .user (segs.map .utf8)

theorem text_injective : Function.Injective (List.map Segment.text) := by
  refine List.map_injective_iff.mpr fun seg seg' heq => ?_
  cases seg
  cases seg'
  cases heq
  rfl

theorem kept_map_iff (segs : List Segment) :
    Kept graph (segs.map Segment.text) ↔ SaysKeep graph .user (segs.map .utf8) := by
  refine ⟨?_, fun h => ⟨segs, rfl, h⟩⟩
  rintro ⟨segs', heq, h⟩
  rw [text_injective heq]
  exact h

open Classical in
/-- A cleanup by the rules: what is kept stays, and so do the directories that it is in. -/
noncomputable def engine : KeepEngine where
  clean files path :=
    if path = [] then files [] else
      match files path with
      | some .dir =>
        if ∃ more, (files (path ++ more)).isSome ∧ Kept graph (path ++ more) then some .dir
        else none
      | some node => if Kept graph path then some node else none
      | none => none
  clean_nil _ := if_pos rfl

variable {graph} {files : Nodes Str (Content Str)} {path : List Str}

theorem engine_dir (hpath : path ≠ []) (h : files path = some .dir) :
    (engine graph).clean files path = some .dir ↔
      ∃ more, (files (path ++ more)).isSome ∧ Kept graph (path ++ more) := by
  simp only [engine, if_neg hpath, h]
  split
  · next hkept => exact iff_of_true rfl hkept
  · next hkept => exact iff_of_false (by simp) hkept

/-- A cleanup leaves the files that are kept, and makes none. -/
theorem engine_file_iff (hpath : path ≠ []) (content : Content Str) :
    (engine graph).clean files path = some (.file content) ↔
      files path = some (.file content) ∧ Kept graph path := by
  simp only [engine, if_neg hpath]
  cases h : files path with
  | none => simp
  | some node =>
    cases node with
    | dir => simp
    | file content' => by_cases hkept : Kept graph path <;> simp [hkept]
    | link target => by_cases hkept : Kept graph path <;> simp [hkept]

theorem removes_engine : Removes (engine graph) := by
  intro files path node h
  simp only [engine] at h
  split at h
  · next hpath => rwa [hpath]
  · split at h
    · next hdir =>
      split at h
      · rwa [hdir]
      · cases h
    · next node' hnode =>
      split at h
      · rwa [hnode]
      · cases h
    · cases h

variable {text : Str} {verbose : Bool}

/-- **`keepEngine` does this.** -/
theorem represents_clean (hgraph : parseRules rx text = .ok graph)
    {folder : Folder (Content Str)}
    (hresult : (cleanup graph verbose .user folder).result = .ok ())
    (h : Represents files folder.entries) :
    Represents ((engine graph).clean files) (cleaned graph verbose .user folder) where
  text path hsome := by
    obtain ⟨node, hnode⟩ := Option.isSome_iff_exists.mp hsome
    exact h.text path (Option.isSome_iff_exists.mpr ⟨node, removes_engine _ _ _ hnode⟩)
  node segs hsegs := by
    have hpath : segs.map Segment.text ≠ [] := by simpa using hsegs
    have hname : segs.map FileName.utf8 ≠ [] := by simpa using hsegs
    rw [cleaned_eq_prune hgraph hresult, Listing.get?_prune folder.distinct, List.nil_append]
    cases hget : folder.entries.get? (segs.map .utf8) with
    | none =>
      have hnone : files (segs.map Segment.text) = none := by rw [h.node segs hsegs, hget]; rfl
      simp [engine, hpath, hnone]
    | some e =>
      rw [Option.bind_some]
      cases e with
      | file content =>
        have hfile : files (segs.map Segment.text) = some (.file content) := by
          rw [h.node segs hsegs, hget]
          rfl
        have hkeep : keepOf graph .user (segs.map .utf8) = true ↔
            Kept graph (segs.map Segment.text) := keepOf_utf8.trans (kept_map_iff graph segs).symm
        by_cases hkept : Kept graph (segs.map Segment.text)
        · simp only [engine, if_neg hpath, hfile, if_pos hkept, Entry.prune,
            if_pos (hkeep.mpr hkept)]
          rfl
        · have hnot := fun h => hkept (hkeep.mp h)
          simp only [engine, if_neg hpath, hfile, if_neg hkept, Entry.prune, if_neg hnot]
          rfl
      | dir o entries =>
        have hdir : files (segs.map Segment.text) = some .dir := by
          rw [h.node segs hsegs, hget]
          rfl
        have hleft : ((folder.entries.prune (keepOf graph .user) []).get? (segs.map .utf8)).isSome ↔
            _ := Listing.get?_prune_isSome_iff folder.distinct hname
        rw [exists_saysKeep_iff hsegs, Listing.get?_prune folder.distinct, List.nil_append, hget,
          Option.bind_some] at hleft
        -- what is below a path in the folder is what is below it in the file system
        have hbelow : (∃ more, (folder.entries.get? (segs.map .utf8 ++ more)).isSome ∧
              SaysKeep graph .user (segs.map .utf8 ++ more)) ↔
            ∃ more, (files (segs.map Segment.text ++ more)).isSome ∧
              Kept graph (segs.map Segment.text ++ more) := by
          constructor
          · rintro ⟨more, hsome, hkeep⟩
            obtain ⟨decision, hdecision, -⟩ := id hkeep
            obtain ⟨all, hall⟩ := exists_utf8_of_getAction hdecision
            obtain ⟨front, more', rfl, hfront, rfl⟩ := List.append_eq_map_iff.mp hall
            obtain rfl : front = segs :=
              (List.map_injective_iff.mpr fun _ _ heq => FileName.utf8.inj heq) hfront
            have hne : front ++ more' ≠ [] := by simp [hsegs]
            rw [← List.map_append] at hsome hkeep
            refine ⟨more'.map Segment.text, ?_, ?_⟩
            · rw [← List.map_append, h.node _ hne, Option.isSome_map]
              exact hsome
            · rw [← List.map_append, kept_map_iff]
              exact hkeep
          · rintro ⟨more, hsome, all, hall, hkeep⟩
            obtain ⟨front, more', rfl, hfront, rfl⟩ := List.append_eq_map_iff.mp hall
            obtain rfl : front = segs := text_injective hfront
            have hne : front ++ more' ≠ [] := by simp [hsegs]
            refine ⟨more'.map .utf8, ?_, by rwa [← List.map_append]⟩
            rw [← List.map_append, h.node _ hne, Option.isSome_map] at hsome
            rwa [← List.map_append]
        rw [hbelow, ← engine_dir hpath hdir] at hleft
        cases hprune : Entry.prune (keepOf graph .user) (segs.map .utf8) (.dir o entries) with
        | none =>
          rw [hprune] at hleft
          have hnot := hleft.not.mp (by simp)
          rw [engine_dir hpath hdir] at hnot
          simp only [engine, if_neg hpath, hdir, if_neg hnot, Option.map_none]
        | some e =>
          rw [hprune] at hleft
          rw [hleft.mp rfl]
          have hshape : nodeOf e = .dir := by
            rw [Entry.prune] at hprune
            split at hprune
            · cases hprune
              rfl
            · cases hprune
          rw [Option.map_some, hshape]

end

/-! ### Runs -/

section

variable {rx : RegexCrate} {graph : DecisionGraph rx} {glob : System → Str → List Str}
  {g g' : Station} {user : Str}

/-- The cleanups are those by the rules. -/
def Ruled (graph : DecisionGraph rx) : Event → Prop
  | .login login => login.keepEngine = engine graph
  | _ => True

/-- The player changes nothing at the path. -/
def LeavesAlone (user : Str) (path : List Str) (g : Station) : Event → Prop
  | .use x upper => x = user → ownFiles upper path = (g.home user).files path
  | .elsewhere x volume => x = user → ownFiles (upperOf volume) path = (g.home user).files path
  | _ => True

/-- What a step does to a file that the player leaves alone. -/
theorem Home.files_step {home : Home} {e : Event} {path : List Str} (hpath : path ≠ [])
    (hruled : Ruled graph e) (hleft : LeavesAlone user path g e) (hhome : g.home user = home)
    (content : Content Str) :
    (home.step user e).files path = some (.file content) ↔
      home.files path = some (.file content) ∧
        ((∃ login, e = .login login ∧ login.user = user ∧ home.swept = false) →
          Kept graph path) := by
  subst hhome
  -- an event that opens no session leaves the file as it is
  have hother : (∀ login, e ≠ .login login) →
      ((g.home user).step user e).files path = (g.home user).files path →
      (((g.home user).step user e).files path = some (.file content) ↔
        (g.home user).files path = some (.file content) ∧
          ((∃ login, e = .login login ∧ login.user = user ∧ (g.home user).swept = false) →
            Kept graph path)) := by
    intro hno hsame
    rw [hsame]
    refine (and_iff_left ?_).symm
    rintro ⟨login, heq, -⟩
    exact absurd heq (hno login)
  cases e with
  | login login =>
    have hengine : login.keepEngine = engine graph := hruled
    rw [Home.step]
    split
    · next hsweep =>
      simp only [hengine, engine_file_iff hpath]
      have hevent : ∃ l, Event.login login = .login l ∧ l.user = user ∧
          (g.home user).swept = false := ⟨login, rfl, hsweep⟩
      rw [imp_iff_right hevent]
    · next hsweep =>
      refine (and_iff_left ?_).symm
      rintro ⟨l, heq, huser, hswept⟩
      cases heq
      exact absurd ⟨huser, hswept⟩ hsweep
  | use x upper =>
    refine hother (fun _ heq => by cases heq) ?_
    rw [Home.step]
    split
    · next hx => exact hleft hx
    · rfl
  | elsewhere x volume =>
    refine hother (fun _ heq => by cases heq) ?_
    rw [Home.step]
    split
    · next hx => exact hleft hx
    · rfl
  | reboot s => exact hother (fun _ heq => by cases heq) rfl

/-- An allowed event, a cleanup by the rules, and nothing that changes the path. -/
def Quiet (graph : DecisionGraph rx) (user : Str) (path : List Str) (g : Station) (e : Event) :
    Prop :=
  Allowed g e ∧ Ruled graph e ∧ LeavesAlone user path g e

variable {events : List Event} {path : List Str} {content : Content Str}

section

variable (hplain : PlainName user) (hpath : path ≠ [])
include hplain hpath

/-- What a step does to the file. -/
theorem Station.files_step (h : g.Orderly) {e : Event}
    (hquiet : Quiet graph user path g e) (hstep : (station glob).step g e = some g') :
    g'.Orderly ∧
      ((g'.home user).files path = some (.file content) ↔
        (g.home user).files path = some (.file content) ∧
          ((∃ login, e = .login login ∧ login.user = user ∧ (g.home user).swept = false) →
            Kept graph path)) := by
  obtain ⟨hallowed, hruled, hleft⟩ := hquiet
  obtain ⟨horderly, hhome⟩ := Station.home_step h hallowed hstep hplain
  rw [hhome]
  exact ⟨horderly, Home.files_step hpath hruled hleft rfl content⟩

/-- A file that the rules leave to the player stays. -/
theorem kept_of_runs (h : g.Orderly) (hkept : Kept graph path)
    (hrun : (station glob).Runs (Quiet graph user path) g events g') :
    g'.Orderly ∧ ((g'.home user).files path = some (.file content) ↔
      (g.home user).files path = some (.file content)) := by
  refine hrun.invariant (fun g₁ : Station => g₁.Orderly ∧
    ((g₁.home user).files path = some (.file content) ↔
      (g.home user).files path = some (.file content))) ?_ ⟨h, Iff.rfl⟩
  rintro g₁ e g₂ ⟨horderly, hsame⟩ hquiet hstep
  obtain ⟨horderly', hfiles⟩ := Station.files_step hplain hpath horderly hquiet hstep
  exact ⟨horderly', hfiles.trans ((and_iff_left fun _ => hkept).trans hsame)⟩

/-- A file that is not there does not come into being. -/
theorem gone_of_runs (h : g.Orderly)
    (hgone : (g.home user).files path ≠ some (.file content))
    (hrun : (station glob).Runs (Quiet graph user path) g events g') :
    g'.Orderly ∧ (g'.home user).files path ≠ some (.file content) := by
  refine hrun.invariant (fun g₁ : Station => g₁.Orderly ∧
    (g₁.home user).files path ≠ some (.file content)) ?_ ⟨h, hgone⟩
  rintro g₁ e g₂ ⟨horderly, hgone⟩ hquiet hstep
  obtain ⟨horderly', hfiles⟩ := Station.files_step hplain hpath horderly hquiet hstep
  exact ⟨horderly', fun hfile => hgone (hfiles.mp hfile).1⟩

/-- **The first session of a boot** removes a file that the rules do not leave to the player. -/
theorem swept_of_runs (h : g.Orderly) (hnew : user ∉ g.users)
    (hnot : ¬ Kept graph path)
    (hrun : (station glob).Runs (Quiet graph user path) g events g') :
    g'.Orderly ∧
      (user ∈ g'.users → ∀ content, (g'.home user).files path ≠ some (.file content)) := by
  refine hrun.invariant (fun g₁ : Station => g₁.Orderly ∧
    (user ∈ g₁.users → ∀ content, (g₁.home user).files path ≠ some (.file content))) ?_
    ⟨h, fun hmem => absurd hmem hnew⟩
  rintro g₁ e g₂ ⟨horderly, hswept⟩ hquiet hstep
  obtain ⟨hallowed, hruled, hleft⟩ := hquiet
  obtain ⟨horderly', hhome⟩ := Station.home_step horderly hallowed hstep hplain
  refine ⟨horderly', fun hmem content hfile => ?_⟩
  rw [hhome, Home.files_step hpath hruled hleft rfl] at hfile
  obtain ⟨hbefore, hkept⟩ := hfile
  by_cases hmem₁ : user ∈ g₁.users
  · exact hswept hmem₁ content hbefore
  · -- the player has come by this step, and the home has not been cleaned since the boot
    have hnotSwept : (g₁.home user).swept = false := by simp [Station.home, hmem₁]
    refine hnot (hkept ?_)
    cases e with
    | login login =>
      refine ⟨login, rfl, ?_, hnotSwept⟩
      by_contra huser
      simp only [station, Station.step] at hstep
      split at hstep <;> cases hstep
      · dsimp only at hmem
        split at hmem
        · exact hmem₁ hmem
        · rcases List.mem_cons.mp hmem with heq | hmem
          · exact huser heq.symm
          · exact hmem₁ hmem
      · exact hmem₁ hmem
    | use x upper =>
      cases hstep
      exact absurd hmem hmem₁
    | elsewhere x volume =>
      cases hstep
      exact absurd hmem hmem₁
    | reboot s =>
      cases hstep
      exact absurd hmem List.not_mem_nil

end

/-- A file that the player leaves alone is there after a boot and a session exactly when it has
been there before and the rules leave it to the player. -/
theorem outlives_kept_iff (hplain : PlainName user) (hpath : path ≠ []) (h : g.Orderly)
    {before between after : List Event} {s : System} {login : Login} (hlogin : login.user = user)
    (hrun : (station glob).Runs (Quiet graph user path) g
      (before ++ .reboot s :: (between ++ .login login :: after)) g') (content : Content Str) :
    (g'.home user).files path = some (.file content) ↔
      (g.home user).files path = some (.file content) ∧ Kept graph path := by
  by_cases hkept : Kept graph path
  · rw [and_iff_left hkept]
    exact (kept_of_runs hplain hpath h hkept hrun).2
  · refine iff_of_false ?_ fun hand => hkept hand.2
    obtain ⟨g₁, hbefore, hrest⟩ := hrun.split
    cases hrest with
    | cons hboot hstep hrest =>
      obtain ⟨g₃, hbetween, hrest⟩ := hrest.split
      cases hrest with
      | cons hquiet hsession hafter =>
        have horderly₁ := hbefore.invariant Station.Orderly
          (fun _ _ _ hs hq hst => (Station.home_step hs hq.1 hst hplain).1) h
        have hbooted := (Station.home_step horderly₁ hboot.1 hstep hplain).1
        cases hstep
        have hnil : user ∉ (⟨s, []⟩ : Station).users := List.not_mem_nil
        have horderly₃ := (swept_of_runs hplain hpath hbooted hnil hkept hbetween).1
        obtain ⟨g₄, hopened, hmem, -⟩ := Station.exists_login glob horderly₃ hquiet.1
        cases hsession.symm.trans hopened
        rw [hlogin] at hmem
        have hswept := swept_of_runs hplain hpath hbooted hnil hkept
          (hbetween.append (.cons hquiet hopened (.nil _)))
        exact (gone_of_runs hplain hpath hswept.1 (hswept.2 hmem content) hafter).2

end

/-! ### Bob's `.bashrc` -/

/-- The folder of a home with two files, as `keepEngine` lists it; `bobsFiles` has the same
nodes. -/
def bobsFolder : Folder (Content Str) where
  entries := .file (.utf8 bashrc) .data (.file (.utf8 notes) .data .nil)
  distinct := by decide

theorem represents_bobsFiles : Represents bobsFiles bobsFolder.entries where
  text path hsome := by
    by_cases hnil : path = []
    · exact ⟨[], hnil⟩
    · by_cases hname : path = ["notes".toList] ∨ path = [".bashrc".toList]
      · rcases hname with rfl | rfl
        · exact ⟨[notes], rfl⟩
        · exact ⟨[bashrc], rfl⟩
      · rw [bobsFiles, if_neg hnil, if_neg hname] at hsome
        cases hsome
  node segs hne := by
    have hpath : segs.map Segment.text ≠ [] := by simpa using hne
    have hnotes : segs.map Segment.text = ["notes".toList] ↔ segs = [notes] :=
      text_injective.eq_iff (b := [notes])
    have hbashrc : segs.map Segment.text = [".bashrc".toList] ↔ segs = [bashrc] :=
      text_injective.eq_iff (b := [bashrc])
    simp only [bobsFiles, if_neg hpath, hnotes, hbashrc]
    obtain ⟨seg, more, rfl⟩ := List.exists_cons_of_ne_nil hne
    have hapart : bashrc ≠ notes := by decide
    have hfile : FileName.utf8 bashrc = .utf8 seg ↔ seg = bashrc :=
      ⟨fun h => (FileName.utf8.inj h).symm, fun h => by rw [h]⟩
    have hfile' : FileName.utf8 notes = .utf8 seg ↔ seg = notes :=
      ⟨fun h => (FileName.utf8.inj h).symm, fun h => by rw [h]⟩
    simp only [bobsFolder, List.map_cons, Listing.get?, hfile, hfile', List.map_eq_nil_iff,
      List.cons.injEq]
    by_cases hmore : more = []
    · by_cases hbash : seg = bashrc
      · simp [hbash, hmore, nodeOf]
      · by_cases hnote : seg = notes <;> simp [hbash, hnote, hmore, nodeOf]
    · by_cases hbash : seg = bashrc
      · simp [hbash, hmore]
      · by_cases hnote : seg = notes <;> simp [hbash, hnote, hmore]

end Guest
end Lapas
