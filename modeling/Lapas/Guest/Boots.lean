import Lapas.Guest.Logins
import Lapas.Library.Transition

/-!
# The homes over the boots

A guest is booted, players open sessions and change the files of their homes, and it is booted
again; in between they play at other guests.  What is kept of all this is in the images of the
players.  Their upper directories are cleaned once per boot, which is found out by a marker in
them.

## Main definitions

* `Station`, `Event`, `station` — a guest with the sessions since the boot, and what happens to it.
* `Station.Orderly`, `Allowed` — the sessions are those of players whom nobody hides.
* `Home`, `Home.step` — what a player knows of a home, and what happens to it.

## Main results

* `view_of_runs` — **every home is a home of its own**: what it is after a run is decided by what
  happened to it, and not by the other players.
-/

namespace Lapas
namespace Guest

open Shell

/-! ### The guest -/

/-- A guest, and who has opened a session since it has been booted. -/
structure Station where
  system : System
  users : List Str

/-- What happens to a guest and its players: sessions are opened, files are changed here or
elsewhere, and the guest is booted again. -/
inductive Event
  | login (login : Login)
  /-- A player has done something with the files of the home, which are these now. -/
  | use (user : Str) (upper : Nodes Str (Content Str))
  /-- A player without a session here has played somewhere else. -/
  | elsewhere (user : Str) (volume : Nodes Str (Content Str))
  | reboot (system : System)

/-- A file system with other files in its upper directory. -/
def withUpper (volume upper : Nodes Str (Content Str)) : Nodes Str (Content Str)
  | [] => volume []
  | name :: rest => if name = "upper".toList then upper rest else volume (name :: rest)

/-- One step of the guest.  A session that fails leaves behind what the script has done so far, and
a boot forgets all sessions. -/
def Station.step (glob : System → Str → List Str) (g : Station) : Event → Option Station
  | .login login =>
    match mountHome System.grepBasic glob login g.system with
    | .ok s => some ⟨s, if login.user ∈ g.users then g.users else login.user :: g.users⟩
    | .error s => some ⟨s, g.users⟩
  | .use user upper =>
    some { g with system :=
      g.system.withVolume user (withUpper (volumeOf g.system.tree user) upper) }
  | .elsewhere user volume => some { g with system := g.system.withVolume user volume }
  | .reboot s => some ⟨s, []⟩

/-- A guest that has been booted, with no home mounted yet; its steps are logins and what the
players do in between. -/
def station (glob : System → Str → List Str) : Machine Station Event where
  start g := Booted g.system ∧ g.users = []
  step := Station.step glob

/-- `keepEngine` makes no files: what it leaves at a path was there before, with the same
content. -/
def Removes (keepEngine : KeepEngine) : Prop :=
  ∀ files path node, keepEngine.clean files path = some node → files path = some node

/-- The upper directory of a file system. -/
def upperOf (volume : Nodes Str (Content Str)) : Nodes Str (Content Str) :=
  volume.below ["upper".toList]

/-- The marker, seen from the upper directory of a player. -/
def markerName : List Str := [".keepApplied".toList]

/-- The player has no link in the place of the marker: the script would follow it. -/
def Unlinked (upper : Nodes Str (Content Str)) : Prop :=
  ∀ target, upper markerName ≠ some (.link target)

/-- A guest with the sessions of these users, and images without links in the place of markers. -/
structure Station.Orderly (g : Station) : Prop where
  sessions : Sessions g.users g.system
  quiet : QuietBasic g.system.bootLines
  unlinked : ∀ user, PlainName user → Unlinked (upperOf (volumeOf g.system.tree user))

/-- Players whom nobody hides log in, with names that are no patterns, and change nothing but the
files in their homes.  The images of all players are as before after a reboot. -/
def Allowed (g : Station) : Event → Prop
  | .login login => login.Regular ∧ (∀ c ∈ login.user, isBasicSpecial c = false) ∧
    Removes login.keepEngine ∧ (login.user ∈ g.users ∨ ∀ x ∈ g.users, ¬ Hides x login.user)
  | .use user upper => user ∈ g.users ∧ upper [] = some .dir ∧ Unlinked upper
  | .elsewhere user volume =>
    PlainName user ∧ user ∉ g.users ∧ Intact volume ∧ Unlinked (upperOf volume)
  | .reboot s => Booted s ∧ QuietBasic s.bootLines ∧ ∀ user, PlainName user →
    s.tree (imagePath user) = g.system.tree (imagePath user)

/-! ### A home -/

/-- Whether the marker is in an upper directory, as `[ -f ]` looks for it. -/
def hasMarker (upper : Nodes Str (Content Str)) : Bool :=
  match upper markerName with
  | some (.file _) => true
  | _ => false

/-- The files of an upper directory, apart from the marker. -/
def ownFiles (upper : Nodes Str (Content Str)) : Nodes Str (Content Str) := fun path =>
  if path = [] then some .dir
  else if path = markerName ∧ hasMarker upper then none
  else upper path

/-- What a player has stored, and whether it has been cleaned since the boot. -/
structure Home where
  files : Nodes Str (Content Str)
  swept : Bool

/-- What happens to the home of a player.  The marker is of no use when the player has a
directory of that name. -/
def Home.step (user : Str) (home : Home) : Event → Home
  | .login login =>
    if login.user = user ∧ home.swept = false then
      ⟨login.keepEngine.clean home.files, (login.keepEngine.clean home.files markerName).isNone⟩
    else home
  | .use x upper => if x = user then ⟨ownFiles upper, hasMarker upper⟩ else home
  | .elsewhere x volume => if x = user then ⟨ownFiles (upperOf volume), false⟩ else home
  | .reboot _ => ⟨home.files, false⟩

/-- The home of a player at a guest. -/
def Station.home (g : Station) (user : Str) : Home where
  files := ownFiles (upperOf (volumeOf g.system.tree user))
  swept := decide (user ∈ g.users) && hasMarker (upperOf (volumeOf g.system.tree user))

/-! ### Upper directories -/

section

variable {volume upper : Nodes Str (Content Str)}

theorem isMarked_eq (volume : Nodes Str (Content Str)) :
    isMarked volume = hasMarker (upperOf volume) := rfl

theorem ownFiles_of_not_hasMarker (hroot : upper [] = some .dir) (h : hasMarker upper = false) :
    ownFiles upper = upper := by
  funext path
  unfold ownFiles
  by_cases hpath : path = []
  · rw [if_pos hpath, hpath, hroot]
  · simp [hpath, h]

theorem upperOf_withUpper (volume upper : Nodes Str (Content Str)) :
    upperOf (withUpper volume upper) = upper := by
  funext path
  simp [upperOf, Nodes.below, withUpper]

theorem withUpper_inUse (h : InUse volume) (hroot : upper [] = some .dir) :
    InUse (withUpper volume upper) where
  root := h.root
  upper := by simpa [withUpper] using hroot
  work := by
    have hne : "work".toList ≠ "upper".toList := by decide
    simpa [withUpper, hne] using h.work

/-- A file system that has been mounted, without the marker. -/
theorem upperOf_prepared (h : Intact volume) : upperOf (prepared volume) =
    ownFiles (upperOf volume) := by
  have hother : ∀ path, path ≠ [] →
      Nodes.created (Nodes.created volume ["upper".toList]) ["work".toList]
        ("upper".toList :: path) = volume ("upper".toList :: path) := by
    intro path hpath
    rw [Nodes.created_of_not_above, Nodes.created_of_not_above]
    · simpa using hpath
    · simp
  have hmarked : isMarked (Nodes.created (Nodes.created volume ["upper".toList]) ["work".toList]) =
      hasMarker (upperOf volume) := by
    unfold isMarked
    rw [marker, hother _ (by decide)]
    rfl
  funext path
  change prepared volume ("upper".toList :: path) = _
  unfold prepared ownFiles
  by_cases hpath : path = []
  · rw [if_pos hpath, hpath, unmarked_of_ne (by decide), Nodes.created_of_not_above (by decide),
      Nodes.created_of_above List.prefix_rfl]
    rcases h.upper with hupper | hupper <;> rw [hupper] <;> rfl
  · rw [if_neg hpath]
    unfold unmarked
    rw [hmarked]
    by_cases hname : path = markerName
    · cases hhas : hasMarker (upperOf volume) with
      | true =>
        rw [if_pos rfl, if_pos ⟨hname, rfl⟩, hname]
        exact Function.update_self ..
      | false =>
        simp only [Bool.false_eq_true, and_false, if_false]
        exact hother path hpath
    · have hne : "upper".toList :: path ≠ marker := fun heq => hname (List.cons.inj heq).2
      rw [if_neg fun hand : path = markerName ∧ _ => hname hand.1]
      split
      · rw [Function.update_of_ne hne]
        exact hother path hpath
      · exact hother path hpath

theorem upperOf_swept (keepEngine : KeepEngine) (volume : Nodes Str (Content Str)) :
    upperOf (System.swept keepEngine volume ["upper".toList]) =
      keepEngine.clean (upperOf volume) := by
  funext path
  change System.swept keepEngine volume ["upper".toList] (["upper".toList] ++ path) = _
  rw [System.swept, if_pos (List.prefix_append _ _), List.drop_left]
  rfl

/-- The files stay what they are when the marker is made. -/
theorem upperOf_marked (volume : Nodes Str (Content Str)) (hroot : upperOf volume [] = some .dir)
    (h : hasMarker (upperOf volume) = false) :
    ownFiles (upperOf (marked volume)) = upperOf volume ∧
      hasMarker (upperOf (marked volume)) = (upperOf volume markerName).isNone := by
  have hname : upperOf volume markerName = volume marker := rfl
  rw [hname]
  unfold marked
  cases hmarker : volume marker with
  | some node =>
    rw [Option.isSome_some, if_pos rfl]
    exact ⟨ownFiles_of_not_hasMarker hroot h, h⟩
  | none =>
    have hput : ∀ path, upperOf (volume.put marker (.file .data)) path =
        if path = markerName then some (.file .data) else upperOf volume path := by
      intro path
      change volume.put marker (.file .data) ("upper".toList :: path) = _
      by_cases hpath : path = markerName
      · rw [if_pos hpath, hpath]
        exact Nodes.put_self _
      · have hne : "upper".toList :: path ≠ marker := fun heq => hpath (List.cons.inj heq).2
        rw [if_neg hpath, Nodes.put_of_ne hne]
        rfl
    have hhas : hasMarker (upperOf (volume.put marker (.file .data))) = true := by
      rw [hasMarker, hput, if_pos rfl]
    refine ⟨?_, hhas⟩
    funext path
    unfold ownFiles
    simp only [Option.isSome_none, Bool.false_eq_true, if_false, hhas, and_true]
    by_cases hpath : path = []
    · rw [if_pos hpath, hpath, hroot]
    · rw [if_neg hpath, hput]
      split
      · next heq => rw [heq, hname, hmarker]
      · rfl

/-- **The sweep of a file system without the marker.** -/
theorem upperOf_sweptOnce {keepEngine : KeepEngine} (hremoves : Removes keepEngine)
    (hroot : upperOf volume [] = some .dir) (h : hasMarker (upperOf volume) = false) :
    ownFiles (upperOf (sweptOnce keepEngine volume)) = keepEngine.clean (upperOf volume) ∧
      hasMarker (upperOf (sweptOnce keepEngine volume)) =
        (keepEngine.clean (upperOf volume) markerName).isNone := by
  have hswept := upperOf_swept keepEngine volume
  have hnot : hasMarker (keepEngine.clean (upperOf volume)) = false := by
    rw [← Bool.not_eq_true]
    intro hhas
    unfold hasMarker at hhas
    split at hhas
    · next content hcontent =>
      rw [hasMarker, hremoves _ _ _ hcontent] at h
      cases h
    · cases hhas
  unfold sweptOnce
  rw [isMarked_eq, h, if_neg Bool.false_ne_true, ← hswept]
  rw [← hswept] at hnot
  refine upperOf_marked _ ?_ hnot
  rw [hswept, keepEngine.clean_nil]
  exact hroot

/-- Mounting and cleaning make no links. -/
theorem unlinked_prepared (h : Intact volume) (hunlinked : Unlinked (upperOf volume)) :
    Unlinked (upperOf (prepared volume)) := by
  intro target
  rw [upperOf_prepared h, ownFiles, if_neg (by decide)]
  split
  · simp
  · exact hunlinked target

theorem unlinked_sweptOnce {keepEngine : KeepEngine} (hremoves : Removes keepEngine)
    (hunlinked : Unlinked (upperOf volume)) :
    Unlinked (upperOf (sweptOnce keepEngine volume)) := by
  unfold sweptOnce
  split
  · exact hunlinked
  · intro target hlink
    change marked (System.swept keepEngine volume ["upper".toList]) marker = _ at hlink
    unfold marked at hlink
    split at hlink
    · refine hunlinked target (hremoves _ _ _ ?_)
      rw [← upperOf_swept]
      exact hlink
    · rw [Nodes.put_self] at hlink
      cases hlink

end

/-! ### Images -/

section

variable {tree tree' : Nodes Str (Content Str)} {user x : Str} {s : System} {users : List Str}

theorem volumeOf_congr (h : tree' (imagePath user) = tree (imagePath user)) :
    volumeOf tree' user = volumeOf tree user := by
  unfold volumeOf
  rw [h]

@[simp] theorem volumeOf_withVolume_self (s : System) (user : Str)
    (volume : Nodes Str (Content Str)) : volumeOf (s.withVolume user volume).tree user = volume :=
  volumeOf_of_eq (Nodes.put_self _)

theorem volumeOf_withVolume_of_ne (h : x ≠ user) (s : System)
    (volume : Nodes Str (Content Str)) :
    volumeOf (s.withVolume user volume).tree x = volumeOf s.tree x :=
  volumeOf_congr (sameImages_put user _ x h)

theorem Ready.intact (h : Ready tree) (hplain : PlainName user) : Intact (volumeOf tree user) := by
  rcases h.image user hplain with hnone | ⟨volume, hvolume, hintact⟩
  · rw [volumeOf, hnone]
    exact intact_blank
  · rw [volumeOf_of_eq hvolume]
    exact hintact

theorem Sessions.inUse (h : Sessions users s) (hmem : user ∈ users) :
    InUse (volumeOf s.tree user) := by
  obtain ⟨volume, hvolume, huse⟩ := h.image user hmem
  rw [volumeOf_of_eq hvolume]
  exact huse

/-- The sessions go on when a file system is another one. -/
theorem Sessions.withVolume (h : Sessions users s) {volume : Nodes Str (Content Str)}
    (hintact : Intact volume) (huse : user ∈ users → InUse volume) :
    Sessions users (s.withVolume user volume) where
  plain := h.plain
  bootLines := h.bootLines
  mounts := h.mounts
  ready := h.ready.put_image hintact
  image := by
    intro x hx
    by_cases heq : x = user
    · subst heq
      exact ⟨volume, Nodes.put_self _, huse hx⟩
    · obtain ⟨volume', hvolume', huse'⟩ := h.image x hx
      exact ⟨volume', (sameImages_put user _ x heq).trans hvolume', huse'⟩
  kept := h.kept

end

/-! ### Steps -/

section

variable {glob : System → Str → List Str} {g g' : Station} {user : Str}

theorem Station.home_congr (hvolume : volumeOf g'.system.tree user = volumeOf g.system.tree user)
    (husers : user ∈ g'.users ↔ user ∈ g.users) : g'.home user = g.home user := by
  unfold Station.home
  rw [hvolume, decide_eq_decide.mpr husers]

namespace Station.Orderly

/-- The guest is in order after a session, when the image of the player is. -/
theorem of_login (h : g.Orderly) (hsessions : Sessions g'.users g'.system)
    (hlines : g'.system.bootLines = g.system.bootLines)
    (hsame : SameImages user g.system.tree g'.system.tree)
    (hunlinked : Unlinked (upperOf (volumeOf g'.system.tree user))) : g'.Orderly where
  sessions := hsessions
  quiet := hlines ▸ h.quiet
  unlinked x hx := by
    by_cases hxu : x = user
    · rwa [hxu]
    · rw [volumeOf_congr (hsame x hxu)]
      exact h.unlinked x hx

/-- And when the file system of a player is another one. -/
theorem withVolume (h : g.Orderly) {volume : Nodes Str (Content Str)} (hintact : Intact volume)
    (huse : user ∈ g.users → InUse volume) (hunlinked : Unlinked (upperOf volume)) :
    Station.Orderly { g with system := g.system.withVolume user volume } where
  sessions := h.sessions.withVolume hintact huse
  quiet := h.quiet
  unlinked x hx := by
    by_cases hxu : x = user
    · rwa [hxu, volumeOf_withVolume_self]
    · rw [volumeOf_withVolume_of_ne hxu]
      exact h.unlinked x hx

end Station.Orderly

variable (glob) in
/-- A session is opened when it is allowed. -/
theorem Station.exists_login (h : g.Orderly) {login : Login}
    (hallowed : Allowed g (.login login)) :
    ∃ g', (station glob).step g (.login login) = some g' ∧ login.user ∈ g'.users ∧
      ∀ x ∈ g'.users, x = login.user ∨ x ∈ g.users := by
  obtain ⟨hlogin, hbasic, -, hclear⟩ := hallowed
  have hgrep := literal_grepBasic hlogin.plain hbasic h.sessions.bootLines h.quiet
  by_cases hmem : login.user ∈ g.users
  · obtain ⟨s', hopen, -⟩ := h.sessions.open_again glob hlogin hgrep hmem
    exact ⟨⟨s', g.users⟩, by simp [station, Station.step, hopen, hmem], hmem, fun _ => Or.inr⟩
  · obtain ⟨s', hopen, -⟩ := h.sessions.open_new glob hlogin hgrep hmem
      (hclear.resolve_left hmem)
    exact ⟨⟨s', login.user :: g.users⟩, by simp [station, Station.step, hopen, hmem], by simp,
      fun _ => List.mem_cons.mp⟩

/-- A session of a player, seen from a home. -/
theorem Station.home_login (h : g.Orderly) {login : Login}
    (hallowed : Allowed g (.login login)) (hstep : (station glob).step g (.login login) = some g')
    (user : Str) :
    g'.Orderly ∧ g'.home user = (g.home user).step user (.login login) := by
  obtain ⟨hlogin, hbasic, hremoves, hclear⟩ := hallowed
  have hgrep := literal_grepBasic hlogin.plain hbasic h.sessions.bootLines h.quiet
  have hunlinked := h.unlinked login.user hlogin.plain
  -- another session of the player sweeps again only where the marker is gone
  by_cases hmem : login.user ∈ g.users
  · obtain ⟨s', hopen, hsessions, hlines, hvolume, hsame⟩ :=
      h.sessions.open_again glob hlogin hgrep hmem
    simp only [station, Station.step, hopen, if_pos hmem, Option.some.injEq] at hstep
    subst hstep
    refine ⟨h.of_login hsessions hlines hsame ?_, ?_⟩
    · rw [hvolume]
      exact unlinked_sweptOnce hremoves hunlinked
    rw [Home.step]
    by_cases huser : login.user = user
    · subst huser
      have hroot : upperOf (volumeOf g.system.tree login.user) [] = some .dir :=
        (h.sessions.inUse hmem).upper
      cases hmarked : hasMarker (upperOf (volumeOf g.system.tree login.user)) with
      | true =>
        have hswept : (g.home login.user).swept = true := by simp [Station.home, hmem, hmarked]
        have hsame' : volumeOf s'.tree login.user = volumeOf g.system.tree login.user := by
          rw [hvolume, sweptOnce, isMarked_eq, hmarked, if_pos rfl]
        rw [if_neg (by simp [hswept])]
        exact Station.home_congr hsame' Iff.rfl
      | false =>
        have hswept : (g.home login.user).swept = false := by simp [Station.home, hmarked]
        obtain ⟨hfiles, hhas⟩ := upperOf_sweptOnce hremoves hroot hmarked
        rw [if_pos ⟨rfl, hswept⟩]
        unfold Station.home
        simp only [hvolume, hfiles, hhas, ownFiles_of_not_hasMarker hroot hmarked, hmem,
          decide_true, Bool.true_and]
    · -- a home of somebody else is as before
      rw [if_neg fun hand => huser hand.1]
      exact Station.home_congr (volumeOf_congr (hsame user (Ne.symm huser)))
        Iff.rfl
  · obtain ⟨s', hopen, hsessions, hlines, hvolume, hsame⟩ :=
      h.sessions.open_new glob hlogin hgrep hmem (hclear.resolve_left hmem)
    -- the first session since the boot takes the marker away, and then sweeps
    have hintact := h.sessions.ready.intact hlogin.plain
    simp only [station, Station.step, hopen, if_neg hmem, Option.some.injEq] at hstep
    subst hstep
    refine ⟨h.of_login hsessions hlines hsame ?_, ?_⟩
    · rw [hvolume]
      exact unlinked_sweptOnce hremoves (unlinked_prepared hintact hunlinked)
    rw [Home.step]
    by_cases huser : login.user = user
    · subst huser
      have hprepared := upperOf_prepared hintact
      have hroot : upperOf (prepared (volumeOf g.system.tree login.user)) [] = some .dir := by
        rw [hprepared]
        exact if_pos rfl
      have hmarked : hasMarker (upperOf (prepared (volumeOf g.system.tree login.user))) = false :=
        isMarked_unmarked _
      obtain ⟨hfiles, hhas⟩ := upperOf_sweptOnce hremoves hroot hmarked
      have hswept : (g.home login.user).swept = false := by simp [Station.home, hmem]
      rw [if_pos ⟨rfl, hswept⟩]
      unfold Station.home
      simp only [hvolume, hfiles, hhas, hprepared, List.mem_cons_self, decide_true, Bool.true_and]
    · rw [if_neg fun hand => huser hand.1]
      refine Station.home_congr
        (volumeOf_congr (hsame user (Ne.symm huser))) ?_
      simp [Ne.symm huser]

/-- **One step**, seen from a home. -/
theorem Station.home_step (h : g.Orderly) {e : Event} (hallowed : Allowed g e)
    (hstep : (station glob).step g e = some g') (hplain : PlainName user) :
    g'.Orderly ∧ g'.home user = (g.home user).step user e := by
  cases e with
  | login login => exact Station.home_login h hallowed hstep user
  | use x upper =>
    obtain ⟨hmem, hroot, hunlinked⟩ := hallowed
    cases hstep
    have huse := withUpper_inUse (h.sessions.inUse hmem) hroot
    refine ⟨h.withVolume huse.intact (fun _ => huse) ?_, ?_⟩
    · rwa [upperOf_withUpper]
    rw [Home.step]
    by_cases hx : x = user
    · subst hx
      rw [if_pos rfl]
      simp [Station.home, upperOf_withUpper, hmem]
    · rw [if_neg hx]
      exact Station.home_congr (volumeOf_withVolume_of_ne (Ne.symm hx) _ _) Iff.rfl
  | elsewhere x volume =>
    obtain ⟨-, hnew, hintact, hunlinked⟩ := hallowed
    cases hstep
    refine ⟨h.withVolume hintact (fun hmem => absurd hmem hnew) hunlinked, ?_⟩
    rw [Home.step]
    by_cases hx : x = user
    · subst hx
      rw [if_pos rfl]
      simp [Station.home, hnew]
    · rw [if_neg hx]
      exact Station.home_congr (volumeOf_withVolume_of_ne (Ne.symm hx) _ _) Iff.rfl
  | reboot s =>
    obtain ⟨hbooted, hquiet, himages⟩ := hallowed
    cases hstep
    refine ⟨⟨hbooted.sessions, hquiet, fun x hx => ?_⟩, ?_⟩
    · rw [volumeOf_congr (himages x hx)]
      exact h.unlinked x hx
    simp [Home.step, Station.home, volumeOf_congr (himages user hplain)]

/-- **Every home is a home of its own.**  Over any number of boots and sessions, what becomes of
the home of a player is what happened to it: the player's own changes, and the sweeps of the
first sessions after the boots. -/
theorem view_of_runs {events : List Event} (h : g.Orderly)
    (hrun : (station glob).Runs Allowed g events g') (hplain : PlainName user) :
    g'.home user = events.foldl (Home.step user) (g.home user) := by
  refine hrun.view_eq (fun g => g.home user) (Home.step user) Station.Orderly ?_ h
  intro g e g' horderly hallowed hstep
  exact Station.home_step horderly hallowed hstep hplain

/-- A guest can always be booted again. -/
theorem Station.allowed_reboot (h : g.Orderly) :
    Allowed g (.reboot { g.system with mounts := [], kept := [] }) :=
  ⟨⟨h.sessions.bootLines, rfl, h.sessions.ready⟩, h.quiet, fun _ _ => rfl⟩

end

/-! ### Bob's notes -/

/-- Two files in a home, one that the rules keep for the user and one that they give back to the
base. -/
def bobsFiles : Nodes Str (Content Str) := fun path =>
  if path = [] then some .dir
  else if path = ["notes".toList] ∨ path = [".bashrc".toList] then some (.file .data)
  else none

theorem bobsFiles_nil : bobsFiles [] = some .dir := if_pos rfl

theorem bobsFiles_notes : bobsFiles ["notes".toList] = some (.file .data) :=
  (if_neg (by decide)).trans (if_pos (by decide))

theorem bobsFiles_marker : bobsFiles markerName = none :=
  (if_neg (by decide)).trans (if_neg (by decide))

theorem unlinked_bobsFiles : Unlinked bobsFiles := fun _ hlink =>
  nomatch bobsFiles_marker.symm.trans hlink

theorem ownFiles_bobsFiles : ownFiles bobsFiles = bobsFiles := by
  refine ownFiles_of_not_hasMarker bobsFiles_nil ?_
  rw [hasMarker, bobsFiles_marker]

/-- A guest in order that nobody has used yet. -/
theorem orderly_bootedSystem : Station.Orderly ⟨bootedSystem, []⟩ where
  sessions := booted_bootedSystem.sessions
  quiet := by
    unfold QuietBasic
    decide
  unlinked user hplain target hlink := by
    have hvolume : volumeOf bootedSystem.tree user = System.blank := by
      rw [volumeOf, show bootedSystem.tree = bootedTree from rfl, bootedTree_image hplain]
    rw [hvolume] at hlink
    cases hlink

theorem allowed_player {g : Station} {name : String} (h : name ∈ ["bobby", "bob"])
    (hclear : ∀ x ∈ g.users, ¬ Hides x name.toList) : Allowed g (.login (player name)) := by
  refine ⟨regular_player h, all_eq_false_iff.mp ?_, fun _ _ _ hnode => hnode, Or.inr hclear⟩
  simp only [List.mem_cons, List.not_mem_nil, or_false] at h
  rcases h with rfl | rfl <;> decide

/-- Bob writes, Bobby has a session as well and loses all his files, the guest is booted again, and
Bob is back. -/
theorem view_of_runs_bob : ∃ (s : System) (g' : Station),
    (station fun _ _ => []).Runs Allowed ⟨bootedSystem, []⟩ [.login (player "bob"),
      .use "bob".toList bobsFiles, .login (player "bobby"), .use "bobby".toList System.blank,
      .reboot s, .login (player "bob")] g' ∧
    (g'.home "bob".toList).files ["notes".toList] = some (.file .data) ∧
    (g'.home "bobby".toList).files ["notes".toList] = none := by
  have hregular : (player "bob").Regular := regular_player (by simp)
  have hregular' : (player "bobby").Regular := regular_player (by simp)
  have hplain : PlainName "bob".toList := hregular.plain
  have hplain' : PlainName "bobby".toList := hregular'.plain
  have hfirst : Allowed ⟨bootedSystem, []⟩ (.login (player "bob")) :=
    allowed_player (by simp) fun x hx => absurd hx List.not_mem_nil
  obtain ⟨g₁, hstep₁, hmem₁, husers₁⟩ :=
    Station.exists_login (fun _ _ => []) orderly_bootedSystem hfirst
  have hs₁ := (Station.home_step orderly_bootedSystem hfirst hstep₁ hplain).1
  have huse : Allowed g₁ (.use "bob".toList bobsFiles) :=
    ⟨hmem₁, bobsFiles_nil, unlinked_bobsFiles⟩
  obtain ⟨g₂, hstep₂, husers₂⟩ : ∃ g₂, (station fun _ _ => []).step g₁
      (.use "bob".toList bobsFiles) = some g₂ ∧ g₂.users = g₁.users := ⟨_, rfl, rfl⟩
  have hs₂ := (Station.home_step hs₁ huse hstep₂ hplain).1
  -- Bob does not hide Bobby
  have hsecond : Allowed g₂ (.login (player "bobby")) := by
    refine allowed_player (by simp) fun x hx => ?_
    rcases husers₁ x (husers₂ ▸ hx) with rfl | hx
    · decide
    · exact absurd hx List.not_mem_nil
  obtain ⟨g₃, hstep₃, hmem₃, -⟩ := Station.exists_login (fun _ _ => []) hs₂ hsecond
  have hs₃ := (Station.home_step hs₂ hsecond hstep₃ hplain).1
  have huse' : Allowed g₃ (.use "bobby".toList System.blank) := ⟨hmem₃, rfl, fun _ h => by cases h⟩
  obtain ⟨g₄, hstep₄⟩ : ∃ g₄, (station fun _ _ => []).step g₃
      (.use "bobby".toList System.blank) = some g₄ := ⟨_, rfl⟩
  have hs₄ := (Station.home_step hs₃ huse' hstep₄ hplain).1
  have hreboot := Station.allowed_reboot hs₄
  obtain ⟨g₅, hg₅⟩ : ∃ g₅ : Station, g₅ = ⟨{ g₄.system with mounts := [], kept := [] }, []⟩ :=
    ⟨_, rfl⟩
  have hstep₅ : (station fun _ _ => []).step g₄
      (.reboot { g₄.system with mounts := [], kept := [] }) = some g₅ := hg₅ ▸ rfl
  have hs₅ := (Station.home_step hs₄ hreboot hstep₅ hplain).1
  have hlast : Allowed g₅ (.login (player "bob")) := by
    refine allowed_player (by simp) fun x hx => ?_
    rw [hg₅] at hx
    exact absurd hx List.not_mem_nil
  obtain ⟨g', hstep', -⟩ := Station.exists_login (fun _ _ => []) hs₅ hlast
  have hrun := Machine.Runs.cons hfirst hstep₁ (.cons huse hstep₂ (.cons hsecond hstep₃
    (.cons huse' hstep₄ (.cons hreboot hstep₅ (.cons hlast hstep' (.nil g'))))))
  refine ⟨_, g', hrun, ?_⟩
  rw [view_of_runs orderly_bootedSystem hrun hplain, view_of_runs orderly_bootedSystem hrun hplain']
  have hclean : ∀ name files, (player name).keepEngine.clean files = files := fun _ _ => rfl
  have huser : ∀ name, (player name).user = name.toList := fun _ => rfl
  have hne : "bob".toList ≠ "bobby".toList := by decide
  simp only [List.foldl_cons, List.foldl_nil, Home.step, huser, hne, hne.symm, if_true, if_false,
    true_and, false_and, hclean, ownFiles_bobsFiles]
  exact ⟨bobsFiles_notes, rfl⟩

end Guest
end Lapas
