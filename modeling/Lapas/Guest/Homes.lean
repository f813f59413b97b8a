import Lapas.Guest.MountHome
import Lapas.Server.UserService

/-!
# The places of the users

The image of a user, the home of a user and the index of the users get their paths from names:
the server registers a name, `mountHome.sh` appends it to the directory of the images, and the
plugin for the name service to `/home`.  The server asks for three bytes and a new name, which
leaves names with slashes, and the name of the index.

## Main definitions

* `normalized` — the names on the way to a path, with `.` and `..` carried out.
* `DirectChild`, `PrivatePlaces` — what the paths of the users should be.
* `ClearName` — a name without slashes that is not the name of the index.

## Main results

* `privatePlaces_of_reach` — while only clear names are asked for, the places are private; and they
  are private in a state exactly when all names in its index are clear.
-/

namespace Lapas
namespace Guest

open Proto Server

/-! ### Paths -/

/-- The names on the way to a path. -/
def normalized (path : Str) : List Str :=
  (components path).foldl
    (fun above name => if name = "..".toList then above.dropLast else above ++ [name]) []

/-- A path is a directory and a name in it. -/
def DirectChild (dir path : Str) : Prop :=
  ∃ name, path = dir ++ '/' :: name ∧ '/' ∉ name ∧
    name ≠ [] ∧ name ≠ ".".toList ∧ name ≠ "..".toList

/-- `user_index_path`, where the guests mount it. -/
def userIndexPath : Str := "/mnt/homes/USER_INDEX".toList

/-- Every user has an image and a home of their own. -/
structure PrivatePlaces (users : List LapasUserPasswd) : Prop where
  image : ∀ user ∈ users, DirectChild "/mnt/homes".toList (userPersistentImage user.name.toList)
  home : ∀ user ∈ users, DirectChild "/home".toList (userToPasswd user).dir
  apart : ∀ user ∈ users, ∀ user' ∈ users, user.name ≠ user'.name →
    normalized (userPersistentImage user.name.toList) ≠
      normalized (userPersistentImage user'.name.toList) ∧
    normalized (userToPasswd user).dir ≠ normalized (userToPasswd user').dir
  index : ∀ user ∈ users,
    normalized (userPersistentImage user.name.toList) ≠ normalized userIndexPath ∧
    normalized (userToPasswd user).dir ≠ normalized userIndexPath

/-! ### Names -/

/-- A name that is one name of a path, and not that of the file that the server keeps among the
images. -/
def ClearName (name : String) : Prop := '/' ∉ name.toList ∧ name ≠ "USER_INDEX"

theorem ne_of_long {name : String} (hlong : 3 ≤ name.utf8ByteSize) (short : String)
    (hshort : short.utf8ByteSize < 3) : name.toList ≠ short.toList := by
  intro h
  rw [String.toList_inj.mp h] at hlong
  omega

theorem normalized_append {dir name : Str} (hname : '/' ∉ name) (hne : name ≠ [])
    (hdot : name ≠ ['.']) (hdots : name ≠ "..".toList) :
    normalized (dir ++ '/' :: name) = normalized dir ++ [name] := by
  rw [normalized, components_append, components_of_notMem hname hne hdot, List.foldl_append,
    List.foldl_cons, List.foldl_nil, if_neg hdots, ← normalized]

section

variable {user : LapasUserPasswd} (hlong : 3 ≤ user.name.utf8ByteSize)
  (hclear : ClearName user.name)
include hlong

theorem name_ne : user.name.toList ≠ [] ∧ user.name.toList ≠ ".".toList ∧
    user.name.toList ≠ "..".toList :=
  ⟨ne_of_long hlong "" (by decide), ne_of_long hlong "." (by decide),
    ne_of_long hlong ".." (by decide)⟩

include hclear

theorem directChild_of_clear (dir : Str) : DirectChild dir (dir ++ '/' :: user.name.toList) :=
  ⟨user.name.toList, rfl, hclear.1, name_ne hlong⟩

theorem normalized_of_clear (dir : Str) :
    normalized (dir ++ '/' :: user.name.toList) = normalized dir ++ [user.name.toList] :=
  normalized_append hclear.1 (name_ne hlong).1 (name_ne hlong).2.1 (name_ne hlong).2.2

end

/-- The paths are two directories and the name. -/
theorem userPersistentImage_eq_append (name : Str) :
    userPersistentImage name = "/mnt/homes".toList ++ '/' :: name := rfl

/-- Places are private exactly when all names are clear. -/
theorem privatePlaces_iff {users : List LapasUserPasswd}
    (hlong : ∀ user ∈ users, 3 ≤ user.name.utf8ByteSize) :
    PrivatePlaces users ↔ ∀ user ∈ users, ClearName user.name := by
  constructor
  · intro h user huser
    constructor
    · obtain ⟨name, hpath, hslash, -⟩ := h.image user huser
      rw [userPersistentImage_eq_append] at hpath
      obtain ⟨-, rfl⟩ := List.cons.inj (List.append_cancel_left hpath)
      exact hslash
    · intro hname
      refine (h.index user huser).1 ?_
      rw [hname]
      rfl
  · intro h
    have himage : ∀ user ∈ users, normalized (userPersistentImage user.name.toList) =
        ["mnt".toList, "homes".toList, user.name.toList] := fun user huser =>
      normalized_of_clear (hlong user huser) (h user huser) "/mnt/homes".toList
    have hhome : ∀ user ∈ users, normalized (userToPasswd user).dir =
        ["home".toList, user.name.toList] := fun user huser =>
      normalized_of_clear (hlong user huser) (h user huser) "/home".toList
    have hindex : normalized userIndexPath =
        ["mnt".toList, "homes".toList, "USER_INDEX".toList] := by decide
    refine ⟨fun user huser => ?_, fun user huser => ?_, fun user huser user' huser' hne => ?_,
      fun user huser => ?_⟩
    · exact directChild_of_clear (hlong user huser) (h user huser) _
    · exact directChild_of_clear (hlong user huser) (h user huser) _
    · have hname : user.name.toList ≠ user'.name.toList := fun heq => hne (String.toList_inj.mp heq)
      rw [himage user huser, himage user' huser', hhome user huser, hhome user' huser']
      exact ⟨fun heq => hname (by simpa using heq), fun heq => hname (by simpa using heq)⟩
    · have hname : user.name.toList ≠ "USER_INDEX".toList :=
        fun heq => (h user huser).2 (String.toList_inj.mp heq)
      rw [himage user huser, hhome user huser, hindex]
      exact ⟨fun heq => hname (by simpa using heq), fun heq => by simp at heq⟩

/-! ### Runs -/

section

variable {chrono : Chrono} {sha512Crypt : Sha512Crypt} {serde : SerdeJson chrono}

/-- A call asks for a clear name. -/
def ClearCall : UserService.Event chrono → Prop
  | .addUser call => ClearName call.username
  | _ => True

/-- A step accepts no call, or the one that it is about. -/
theorem accepted_of_step {s s' : UserService chrono} {e : UserService.Event chrono}
    (h : s.step sha512Crypt serde e = some s') :
    s'.accepted = s.accepted ∨ ∃ call, e = .addUser call ∧ s'.accepted = s.accepted ++ [call] := by
  cases e with
  | addUser call =>
    obtain ⟨hfree, ⟨error, rfl⟩ | ⟨index, -, rfl⟩⟩ := UserService.step_addUser h
    · exact .inl (s.accepted_refused call error)
    · exact .inr ⟨call, rfl, UserService.accepted_pushed hfree call index⟩
  | written =>
    rw [UserService.step] at h
    split at h
    · cases h
    · next call hcall =>
      cases h
      exact .inl (UserService.accepted_written hcall _)
  | list =>
    rw [UserService.step] at h
    split at h
    · cases h
      exact .inl rfl
    · cases h
  | restart =>
    rw [UserService.step] at h
    split at h
    · cases h
    · split at h
      · cases h
        exact .inl rfl
      · cases h

/-- All users that the server has accepted have clear names. -/
def ClearAccepted (s : UserService chrono) : Prop := ∀ call ∈ s.accepted, ClearName call.username

theorem clearAccepted_of_reach {s : UserService chrono}
    (h : (userService sha512Crypt serde).Reach (fun _ e => ClearCall e) s) : ClearAccepted s := by
  refine h.invariant (fun s hs => ?_) (fun s e s' hs hclear hstep => ?_)
  · rw [hs]
    exact fun call hcall => absurd hcall List.not_mem_nil
  · rcases accepted_of_step hstep with heq | ⟨call, rfl, heq⟩
    · rw [ClearAccepted, heq]
      exact hs
    · rw [ClearAccepted, heq]
      intro call' hcall'
      rcases List.mem_append.mp hcall' with hcall' | hcall'
      · exact hs call' hcall'
      · rwa [List.mem_singleton.mp hcall']

/-- The names of the users are those of the accepted calls. -/
theorem names_passwdAll [serde.RoundTrips] {s : UserService chrono}
    (h : (userService sha512Crypt serde).Reach (fun _ _ => True) s) :
    s.index.passwdAll.map (·.name) = s.accepted.map (·.username) := by
  have hnames := @names_entries chrono sha512Crypt 10000 s.accepted
  rw [← (inv_of_reach h).users_eq] at hnames
  rw [← hnames, UserIndex.passwdAll, List.map_map]
  rfl

/-- **Private places**: while only clear names are asked for, the places of the users are private;
and whatever is asked for, they are private exactly when all names in the index are clear. -/
theorem privatePlaces_of_reach [serde.RoundTrips] :
    (∀ s : UserService chrono, (userService sha512Crypt serde).Reach (fun _ e => ClearCall e) s →
      PrivatePlaces s.index.passwdAll) ∧
    ∀ s : UserService chrono, (userService sha512Crypt serde).Reach (fun _ _ => True) s →
      (PrivatePlaces s.index.passwdAll ↔ ∀ user ∈ s.index.passwdAll, ClearName user.name) := by
  have hcalls : ∀ s : UserService chrono,
      (userService sha512Crypt serde).Reach (fun _ _ => True) s → ∀ user ∈ s.index.passwdAll,
        ∃ call ∈ s.accepted, call.username = user.name := by
    intro s h user huser
    have hmem := List.mem_map_of_mem (f := LapasUserPasswd.name) huser
    rw [names_passwdAll h] at hmem
    exact List.mem_map.mp hmem
  have hlong : ∀ s : UserService chrono,
      (userService sha512Crypt serde).Reach (fun _ _ => True) s → ∀ user ∈ s.index.passwdAll,
        3 ≤ user.name.utf8ByteSize := by
    intro s h user huser
    obtain ⟨call, hcall, hname⟩ := hcalls s h user huser
    rw [← hname]
    exact (inv_of_reach h).names_long call hcall
  refine ⟨fun s h => ?_, fun s h => privatePlaces_iff (hlong s h)⟩
  have hreach := h.mono fun _ _ _ => trivial
  refine (privatePlaces_iff (hlong s hreach)).mpr fun user huser => ?_
  obtain ⟨call, hcall, hname⟩ := hcalls s hreach user huser
  rw [← hname]
  exact clearAccepted_of_reach h call hcall

end

/-- A second user of the server. -/
def alice : Registration epoch := { bob with username := "alice" }

/-- The server right after `bob` has been written and `alice` has been pushed. -/
theorem privatePlaces_of_reach_bob : ∃ s : UserService epoch,
    (userService bobCrypt bobJson).Reach (fun _ e => ClearCall e) s ∧
    s.index.passwdAll = [⟨10000, "bob"⟩, ⟨10001, "alice"⟩] ∧ PrivatePlaces s.index.passwdAll ∧
    normalized (userPersistentImage "bob".toList) ≠
      normalized (userPersistentImage "alice".toList) := by
  obtain ⟨file, hfile⟩ : ∃ file, file = some (bobJson.fileData bobIndex) := ⟨_, rfl⟩
  have hbob : ClearName "bob" := ⟨by decide, by decide⟩
  have halice : ClearName "alice" := ⟨by decide, by decide⟩
  have hpushed : (userService bobCrypt bobJson).Reach (fun _ e => ClearCall e)
      ⟨bobIndex, none, some bob, []⟩ := .step (.start rfl) (e := .addUser bob) hbob rfl
  have hwritten : (userService bobCrypt bobJson).Reach (fun _ e => ClearCall e)
      ⟨bobIndex, file, none, [(bob, .ok ())]⟩ :=
    .step hpushed (e := .written) trivial (by rw [hfile]; rfl)
  have hreach : (userService bobCrypt bobJson).Reach (fun _ e => ClearCall e)
      ⟨⟨10002, [bob.entry bobCrypt 10000, alice.entry bobCrypt 10001]⟩, file, some alice,
        [(bob, .ok ())]⟩ := .step hwritten (e := .addUser alice) halice rfl
  have hprivate := privatePlaces_of_reach.1 _ hreach
  refine ⟨_, hreach, rfl, hprivate, ?_⟩
  exact (hprivate.apart ⟨10000, "bob"⟩ (List.mem_cons_self ..) ⟨10001, "alice"⟩
    (List.mem_cons_of_mem _ (List.mem_singleton_self _)) (by decide)).1

/-- The image of a player with the name of the index is the index. -/
theorem not_privatePlaces_index : ∃ s : UserService epoch,
    (userService bobCrypt bobJson).Reach (fun _ _ => True) s ∧
    s.index.passwdAll.map (·.name) = ["USER_INDEX"] ∧
    userPersistentImage "USER_INDEX".toList = userIndexPath ∧
    ¬ PrivatePlaces s.index.passwdAll := by
  have hreach : (userService bobCrypt bobJson).Reach (fun _ _ => True)
      ⟨⟨10001, [{ bob with username := "USER_INDEX" }.entry bobCrypt 10000]⟩, none,
        some { bob with username := "USER_INDEX" }, []⟩ :=
    .step (.start rfl) (e := .addUser { bob with username := "USER_INDEX" }) trivial rfl
  refine ⟨_, hreach, rfl, rfl, fun h => ?_⟩
  exact (h.index ⟨10000, "USER_INDEX"⟩ (List.mem_singleton_self _)).1 rfl

end Guest
end Lapas
