import Lapas.Guest.MountHome

/-!
# The lines of the mount table

The script greps the lines that `mount` prints for names of directories.  They are taken apart
at their slashes here: a name of a directory is a run of these pieces, except for the last one,
which only begins with the last name.

## Main definitions

* `PlainName` — the names that neither the shell nor a command takes apart.
* `baseMount`, `imageMount`, `overlayMount` — the mounts of a user.
* `Hides` — the users whose mounts are taken for those of another one.

## Main results

* `eq_of_contains_base`, `prefix_of_contains_image`, `hides_of_contains_home` — whose mounts let
  the guards fire.
* `contains_base`, `contains_image`, `exists_contains_home` — these do.
-/

namespace Lapas
namespace Guest

open Shell

/-! ### Pieces -/

section

variable {sep : Char} {u text : Str}

/-- A text without separators is at the start of a piece. -/
theorem splitOn_append_of_notMem (hu : sep ∉ u) (text : Str) :
    ∃ piece pieces, (u ++ text).splitOn sep = (u ++ piece) :: pieces := by
  induction u with
  | nil =>
    cases hsplit : text.splitOn sep with
    | nil => exact absurd hsplit (List.splitOn_ne_nil sep text)
    | cons piece pieces => exact ⟨piece, pieces, hsplit⟩
  | cons c u ih =>
    rw [List.mem_cons, not_or] at hu
    obtain ⟨piece, pieces, hsplit⟩ := ih hu.2
    refine ⟨piece, pieces, ?_⟩
    rw [List.cons_append, List.splitOn_cons_eq_if_modifyHead, hsplit,
      if_neg (by simpa using Ne.symm hu.1)]
    rfl

/-- Words that are led by separators are pieces; the last one is at the start of a piece. -/
theorem infix_splitOn {words : List Str} (hwords : ∀ word ∈ words, sep ∉ word) (hu : sep ∉ u)
    (h : words.flatMap (sep :: ·) ++ sep :: u <:+: text) :
    ∃ piece, u <+: piece ∧ words ++ [piece] <:+: text.splitOn sep := by
  obtain ⟨before, after, rfl⟩ := h
  obtain ⟨piece, pieces, hpiece⟩ := splitOn_append_of_notMem hu after
  -- the induction is on the words, and keeps the first separator in front
  have hsplit : ∃ rest, words.flatMap (sep :: ·) ++ sep :: u ++ after = sep :: rest ∧
      rest.splitOn sep = words ++ (u ++ piece) :: pieces := by
    clear before
    induction words with
    | nil => exact ⟨u ++ after, rfl, hpiece⟩
    | cons word words ih =>
      obtain ⟨rest, hrest, hsplit⟩ := ih fun w hw => hwords w (List.mem_cons_of_mem _ hw)
      refine ⟨word ++ sep :: rest, ?_, ?_⟩
      · rw [← hrest]
        simp
      · rw [List.splitOn_append_cons_self_of_not_mem (hwords word List.mem_cons_self), hsplit]
        rfl
  obtain ⟨rest, hrest, hsplit⟩ := hsplit
  refine ⟨u ++ piece, List.prefix_append _ _, before.splitOn sep, pieces, ?_⟩
  rw [List.append_assoc before, hrest, List.splitOn_append_cons_self, hsplit]
  simp

theorem prefix_of_prefix_append {x : Str} (h : u <+: x ++ sep :: text) (hu : sep ∉ u) :
    u <+: x := by
  rcases List.prefix_or_prefix_of_prefix h (List.prefix_append x _) with hux | ⟨rest, rfl⟩
  · exact hux
  · rw [List.prefix_append_right_inj] at h
    cases rest with
    | nil => rw [List.append_nil]
    | cons c rest =>
      rw [(List.cons_prefix_cons.mp h).1] at hu
      exact absurd (List.mem_append_right _ List.mem_cons_self) hu

end

/-! ### Names -/

/-- Characters with a meaning for the shell, for a path, for `cut` and `chown`, or for the
options of a mount. -/
def isSpecial (c : Char) : Bool :=
  ifs c || isPattern c || ['/', ':', ',', '\\', '"'].contains c

/-- A name of a user that is one name of a directory, also after the shell has expanded it. -/
structure PlainName (name : Str) : Prop where
  chars : ∀ c ∈ name, isSpecial c = false
  /-- It is no option. -/
  start : name.head? ≠ some '-' ∧ name.head? ≠ some '+'
  number : number? name = none
  /-- Shorter names are refused by the server, and longer ones by the file systems. -/
  length : 3 ≤ (String.ofList name).utf8ByteSize ∧ (String.ofList name).utf8ByteSize ≤ 255
  /-- The server keeps its index among the images. -/
  ne_index : name ≠ "USER_INDEX".toList

theorem PlainName.notMem {name : Str} (h : PlainName name) {c : Char} (hc : isSpecial c = true) :
    c ∉ name := by
  intro hmem
  rw [h.chars c hmem] at hc
  cases hc

/-- The mount of the home of the base user for a user. -/
def baseMount (user : Str) : Mount := ⟨userBaseDir, userBaseMountDir user, .bindfs⟩

/-- The mount of the image of a user. -/
def imageMount (user : Str) : Mount :=
  ⟨userPersistentImage user, userPersistentMountDir user, .ext4⟩

/-- The home of a user, as the database of users has it. -/
def home (user : Str) : Str := "/home/".toList ++ user

/-- The mount of the home of a user: an overlay, whose line names the directories that it is made
of. -/
def overlayMount (user : Str) : Mount :=
  ⟨"overlay".toList, home user, .overlay (userBaseMountDir user) (upperDir user) (workDir user)⟩

/-- The mounts of a session, the last one first. -/
def sessionMounts (user : Str) : List Mount := [overlayMount user, imageMount user, baseMount user]

/-- The mounts of the user `x` are taken for those of `u`. -/
def Hides (x u : Str) : Prop :=
  u <+: x ∨ x = "home".toList ∧ (u <+: "base".toList ∨ u <+: "overlay".toList)

instance (x u : Str) : Decidable (Hides x u) := inferInstanceAs (Decidable (_ ∨ _))

/-! ### The lines -/

section

variable {x u : Str}

theorem splitOn_base (hx : '/' ∉ x) : (baseMount x).line.splitOn '/' =
    [[], "mnt".toList, "homeBase on ".toList, "mnt".toList, ".mounts".toList, x,
      "base type fuse (ro,noatime)".toList] := by
  refine Eq.trans ?_ (List.splitOn_intercalate '/' ?_ (List.cons_ne_nil [] _))
  · unfold baseMount Mount.line Mount.description userBaseDir userBaseMountDir userMountDir
    simp only [List.intercalate_cons_cons, List.intercalate_singleton, String.reduceToList,
      List.cons_append, List.nil_append, List.append_assoc]
  · simp [hx]

theorem splitOn_image (hx : '/' ∉ x) : (imageMount x).line.splitOn '/' =
    [[], "mnt".toList, "homes".toList, x ++ " on ".toList, "mnt".toList, ".mounts".toList, x,
      "overlay type ext4 (rw,relatime)".toList] := by
  refine Eq.trans ?_ (List.splitOn_intercalate '/' ?_ (List.cons_ne_nil [] _))
  · unfold imageMount Mount.line Mount.description userPersistentImage userPersistentMountDir
      userMountDir
    simp only [List.intercalate_cons_cons, List.intercalate_singleton, String.reduceToList,
      List.cons_append, List.nil_append, List.append_assoc]
  · simp [hx]

theorem splitOn_overlay (hx : '/' ∉ x) : (overlayMount x).line.splitOn '/' =
    ["overlay on ".toList, "home".toList, x ++ " type overlay (rw,relatime,lowerdir=".toList,
      "mnt".toList, ".mounts".toList, x, "base,upperdir=".toList,
      "mnt".toList, ".mounts".toList, x, "overlay".toList, "upper,workdir=".toList,
      "mnt".toList, ".mounts".toList, x, "overlay".toList, "work)".toList] := by
  refine Eq.trans ?_ (List.splitOn_intercalate '/' ?_ (List.cons_ne_nil _ _))
  · unfold overlayMount Mount.line Mount.description home upperDir workDir userBaseMountDir
      userPersistentMountDir userMountDir
    simp only [List.intercalate_cons_cons, List.intercalate_singleton, String.reduceToList,
      List.cons_append, List.nil_append, List.append_assoc]
  · simp [hx]

/-! ### The patterns -/

theorem userBaseMountDir_eq (u : Str) : userBaseMountDir u =
    ["mnt".toList, ".mounts".toList, u].flatMap ('/' :: ·) ++ '/' :: "base".toList := by
  unfold userBaseMountDir userMountDir
  simp

theorem userPersistentImage_eq (u : Str) : userPersistentImage u =
    ["mnt".toList, "homes".toList].flatMap ('/' :: ·) ++ '/' :: u := by
  unfold userPersistentImage
  simp

theorem home_eq (u : Str) : home u = ["home".toList].flatMap ('/' :: ·) ++ '/' :: u := by
  unfold home
  simp

theorem home_ne_append (x text : Str) : "home".toList ≠ x ++ ' ' :: text := by
  intro heq
  have hmem : ' ' ∈ "home".toList := heq ▸ List.mem_append_right _ List.mem_cons_self
  exact absurd hmem (by decide)

/-! ### The guards -/

/-- The directory of the mounts is followed by the user of the line. -/
theorem eq_of_infix_mounts (hx : '/' ∉ x) {m : Mount} (hm : m ∈ sessionMounts x) {c : Char}
    {piece : Str}
    (h : ["mnt".toList, c :: "mounts".toList, u, piece] <:+: m.line.splitOn '/') :
    c = '.' ∧ u = x := by
  simp only [sessionMounts, List.mem_cons, List.not_mem_nil, or_false] at hm
  rcases hm with rfl | rfl | rfl
  · rw [splitOn_overlay hx] at h
    have hpieces : c = '.' ∧ u = x ∧ piece = "base,upperdir=".toList ∨
        c = '.' ∧ u = x ∧ piece = "overlay".toList := by
      simpa [List.infix_cons_iff] using h
    exact hpieces.elim (fun hp => ⟨hp.1, hp.2.1⟩) fun hp => ⟨hp.1, hp.2.1⟩
  · rw [splitOn_image hx] at h
    have hpieces : c = '.' ∧ u = x ∧ piece = "overlay type ext4 (rw,relatime)".toList := by
      simpa [List.infix_cons_iff] using h
    exact ⟨hpieces.1, hpieces.2.1⟩
  · rw [splitOn_base hx] at h
    have hpieces : c = '.' ∧ u = x ∧ piece = "base type fuse (ro,noatime)".toList := by
      simpa [List.infix_cons_iff] using h
    exact ⟨hpieces.1, hpieces.2.1⟩

/-- No name behind `mnt` is empty. -/
theorem not_infix_nil (hx : '/' ∉ x) {m : Mount} (hm : m ∈ sessionMounts x) {words : List Str} :
    ¬ ["mnt".toList, [], "mounts".toList] ++ words <:+: m.line.splitOn '/' := by
  intro h
  replace h := (List.prefix_append _ words).isInfix.trans h
  simp only [sessionMounts, List.mem_cons, List.not_mem_nil, or_false] at hm
  rcases hm with rfl | rfl | rfl
  · rw [splitOn_overlay hx] at h
    simp [List.infix_cons_iff] at h
  · rw [splitOn_image hx] at h
    simp [List.infix_cons_iff] at h
  · rw [splitOn_base hx] at h
    simp [List.infix_cons_iff] at h

/-- The first guard only fires for mounts of the user. -/
theorem eq_of_contains_base (hx : PlainName x) (hu : PlainName u) {m : Mount}
    (hm : m ∈ sessionMounts x) (h : contains (userBaseMountDir u) m.line = true) : u = x := by
  have hslash : '/' ∉ u := hu.notMem rfl
  rw [contains_iff, userBaseMountDir_eq] at h
  obtain ⟨piece, -, hinfix⟩ := infix_splitOn (by simp [hslash]) (by simp) h
  exact (eq_of_infix_mounts (hx.notMem rfl) hm hinfix).2

/-- The directory of an image is not in the line of a bind mount. -/
theorem not_contains_image_base (hx : PlainName x) (hu : PlainName u) :
    contains (userPersistentImage u) (baseMount x).line = false := by
  rw [← Bool.not_eq_true, contains_iff, userPersistentImage_eq]
  intro h
  obtain ⟨piece, -, hinfix⟩ := infix_splitOn (by simp) (hu.notMem rfl) h
  rw [splitOn_base (hx.notMem rfl)] at hinfix
  simp [List.infix_cons_iff] at hinfix

/-- The second guard fires for every user whose name begins with that of the user. -/
theorem prefix_of_contains_image (hx : PlainName x) (hu : PlainName u) {m : Mount}
    (hm : m ∈ sessionMounts x) (h : contains (userPersistentImage u) m.line = true) : u <+: x := by
  have hslash : '/' ∉ x := hx.notMem rfl
  simp only [sessionMounts, List.mem_cons, List.not_mem_nil, or_false] at hm
  rcases hm with rfl | rfl | rfl
  · rw [contains_iff, userPersistentImage_eq] at h
    obtain ⟨piece, hpiece, hinfix⟩ := infix_splitOn (by simp) (hu.notMem rfl) h
    rw [splitOn_overlay hslash] at hinfix
    simp [List.infix_cons_iff] at hinfix
  · rw [contains_iff, userPersistentImage_eq] at h
    obtain ⟨piece, hpiece, hinfix⟩ := infix_splitOn (by simp) (hu.notMem rfl) h
    rw [splitOn_image hslash] at hinfix
    have hpieces : piece = x ++ ' ' :: "on ".toList := by
      simpa [List.infix_cons_iff] using hinfix
    exact prefix_of_prefix_append (hpieces ▸ hpiece) (hu.notMem rfl)
  · exact absurd h (Bool.eq_false_iff.mp (not_contains_image_base hx hu))

/-- A home in the line of an image or a bind mount is a directory of the user `home`. -/
theorem home_of_contains_home (hx : PlainName x) (hu : PlainName u) {m : Mount}
    (hm : m = imageMount x ∨ m = baseMount x) (h : contains (home u) m.line = true) :
    x = "home".toList ∧ (u <+: "base".toList ∨ u <+: "overlay".toList) := by
  have hslash : '/' ∉ x := hx.notMem rfl
  have hspace : ' ' ∉ u := hu.notMem rfl
  rw [contains_iff, home_eq] at h
  obtain ⟨piece, hpiece, hinfix⟩ := infix_splitOn (by simp) (hu.notMem rfl) h
  rcases hm with rfl | rfl
  · rw [splitOn_image hslash] at hinfix
    have hpieces : "home".toList = x ++ ' ' :: "on ".toList ∧ piece = "mnt".toList ∨
        "home".toList = x ∧
          piece = "overlay".toList ++ ' ' :: "type ext4 (rw,relatime)".toList := by
      simpa [List.infix_cons_iff] using hinfix
    rcases hpieces with ⟨heq, -⟩ | ⟨rfl, rfl⟩
    · exact absurd heq (home_ne_append x _)
    · exact ⟨rfl, Or.inr (prefix_of_prefix_append hpiece hspace)⟩
  · rw [splitOn_base hslash] at hinfix
    have hpieces : "home".toList = x ∧
        piece = "base".toList ++ ' ' :: "type fuse (ro,noatime)".toList := by
      simpa [List.infix_cons_iff] using hinfix
    obtain ⟨rfl, rfl⟩ := hpieces
    exact ⟨rfl, Or.inl (prefix_of_prefix_append hpiece hspace)⟩

/-- The last guard fires for these, and for names that begin with that of the user. -/
theorem hides_of_contains_home (hx : PlainName x) (hu : PlainName u) {m : Mount}
    (hm : m ∈ sessionMounts x) (h : contains (home u) m.line = true) : Hides x u := by
  simp only [sessionMounts, List.mem_cons, List.not_mem_nil, or_false] at hm
  rcases hm with rfl | hm
  · rw [contains_iff, home_eq] at h
    obtain ⟨piece, hpiece, hinfix⟩ := infix_splitOn (by simp) (hu.notMem rfl) h
    rw [splitOn_overlay (hx.notMem rfl)] at hinfix
    have hpieces : piece = x ++ ' ' :: "type overlay (rw,relatime,lowerdir=".toList ∨
        "home".toList = x ++ ' ' :: "type overlay (rw,relatime,lowerdir=".toList ∧
          piece = "mnt".toList ∨
        "home".toList = x ∧ piece = "base".toList ++ ',' :: "upperdir=".toList ∨
        "home".toList = x ∧ piece = "overlay".toList := by
      simpa [List.infix_cons_iff] using hinfix
    rcases hpieces with rfl | ⟨heq, -⟩ | ⟨rfl, rfl⟩ | ⟨rfl, rfl⟩
    · exact Or.inl (prefix_of_prefix_append hpiece (hu.notMem rfl))
    · exact absurd heq (home_ne_append x _)
    · exact Or.inr ⟨rfl, Or.inl (prefix_of_prefix_append hpiece (hu.notMem rfl))⟩
    · exact Or.inr ⟨rfl, Or.inr hpiece⟩
  · exact Or.inr (home_of_contains_home hx hu hm h)

/-- A user does not find his home in the lines that are there before it has been mounted. -/
theorem not_contains_home_own (hu : PlainName u) {m : Mount}
    (hm : m = imageMount u ∨ m = baseMount u) : contains (home u) m.line = false := by
  rw [← Bool.not_eq_true]
  intro h
  obtain ⟨rfl, hprefix⟩ := home_of_contains_home hu hu hm h
  exact absurd hprefix (by decide)

/-! ### Basic regular expressions -/

/-- Characters with a meaning in basic regular expressions. -/
def isBasicSpecial (c : Char) : Bool := ['.', '[', '*', '^', '$', '\\'].contains c

/-- With the dot of `.mounts` as a special character, the first guard finds no more. -/
theorem eq_dot_of_infix_base (hx : PlainName x) (hu : PlainName u) {m : Mount}
    (hm : m ∈ sessionMounts x) {c : Char}
    (h : "/mnt/".toList ++ c :: ("mounts/".toList ++ u ++ "/base".toList) <:+: m.line) :
    c = '.' := by
  have hslash : '/' ∉ u := hu.notMem rfl
  by_cases hc : c = '/'
  · -- an empty name would follow `mnt`
    have hwords : "/mnt/".toList ++ c :: ("mounts/".toList ++ u ++ "/base".toList) =
        ["mnt".toList, [], "mounts".toList, u].flatMap ('/' :: ·) ++ '/' :: "base".toList := by
      simp [hc]
    rw [hwords] at h
    obtain ⟨piece, -, hinfix⟩ := infix_splitOn (by simp [hslash]) (by simp) h
    exact absurd hinfix (not_infix_nil (hx.notMem rfl) hm)
  · have hwords : "/mnt/".toList ++ c :: ("mounts/".toList ++ u ++ "/base".toList) =
        ["mnt".toList, c :: "mounts".toList, u].flatMap ('/' :: ·) ++ '/' :: "base".toList := by
      simp
    rw [hwords] at h
    obtain ⟨piece, -, hinfix⟩ := infix_splitOn (by simp [hslash, Ne.symm hc]) (by simp) h
    exact (eq_of_infix_mounts (hx.notMem rfl) hm hinfix).1

/-- `grep` finds the first path of a user where it is written literally. -/
theorem grepMatches_base (hx : PlainName x) (hu : PlainName u) (hdot : '.' ∉ u) {m : Mount}
    (hm : m ∈ sessionMounts x) :
    grepMatches (userBaseMountDir u) m.line = contains (userBaseMountDir u) m.line := by
  have hpattern : userBaseMountDir u =
      "/mnt/".toList ++ '.' :: ("mounts/".toList ++ u ++ "/base".toList) := by
    unfold userBaseMountDir userMountDir
    simp
  rw [Bool.eq_iff_iff, contains_iff, hpattern, grepMatches_dot_iff (by decide) (by simp [hdot])]
  refine ⟨?_, fun h => ⟨'.', h⟩⟩
  rintro ⟨c, h⟩
  rwa [← eq_dot_of_infix_base hx hu hm h]

/-! ### The guards fire -/

theorem contains_base (u : Str) : contains (userBaseMountDir u) (baseMount u).line = true := by
  refine contains_iff.mpr ⟨"/mnt/homeBase on ".toList, " type fuse (ro,noatime)".toList, ?_⟩
  unfold baseMount Mount.line Mount.description userBaseDir
  simp

theorem contains_image (u : Str) : contains (userPersistentImage u) (imageMount u).line = true := by
  refine contains_iff.mpr (List.IsPrefix.isInfix ?_)
  unfold imageMount Mount.line
  simp only [List.append_assoc]
  exact List.prefix_append _ _

theorem contains_home (h : u <+: x) : contains (home u) (overlayMount x).line = true := by
  obtain ⟨rest, rfl⟩ := h
  refine contains_iff.mpr ⟨"overlay on ".toList, ?_⟩
  unfold overlayMount Mount.line home
  simp

/-- Who is hidden by a user finds his home in one of the lines of that user. -/
theorem exists_contains_home (h : Hides x u) :
    ∃ m ∈ sessionMounts x, contains (home u) m.line = true := by
  rcases h with h | ⟨rfl, ⟨rest, hrest⟩ | ⟨rest, hrest⟩⟩
  · exact ⟨overlayMount x, by simp [sessionMounts], contains_home h⟩
  · refine ⟨baseMount "home".toList, by simp [sessionMounts], contains_iff.mpr ?_⟩
    have hline : (baseMount "home".toList).line = "/mnt/homeBase on /mnt/.mounts".toList ++
        ("/home/".toList ++ ("base".toList ++ " type fuse (ro,noatime)".toList)) := by
      decide +kernel
    rw [hline, ← hrest, List.append_assoc u, ← List.append_assoc "/home/".toList]
    exact List.infix_append' _ (home u) _
  · refine ⟨imageMount "home".toList, by simp [sessionMounts], contains_iff.mpr ?_⟩
    have hline : (imageMount "home".toList).line = "/mnt/homes/home on /mnt/.mounts".toList ++
        ("/home/".toList ++ ("overlay".toList ++ " type ext4 (rw,relatime)".toList)) := by
      decide +kernel
    rw [hline, ← hrest, List.append_assoc u, ← List.append_assoc "/home/".toList]
    exact List.infix_append' _ (home u) _

end

end Guest
end Lapas
