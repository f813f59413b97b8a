import Lapas.Library.Shell
import Mathlib.Data.List.GetD

/-!
# Adding a user from the desktop

`lapasAddUser` asks for the password of the administration until the server takes it, and then
for the name and the password of a player until they are complete.  The dialog prints its three
entries in one line, with bars between them, and the script takes the line apart again.

## Main definitions

* `splitFields`, `submitted` — the line, taken apart and checked.
* `lapasAddUser` — the script: two loops over the rounds of its dialogs.
* `Sends` — the name and the password that the script takes from a form.

## Main results

* `submitted_printed` — what the script makes of a form.
* `sends_typed_iff` — when that is what was typed.
* `calls_iff` — **the call at the end of the script, in every run.**
-/

namespace Lapas
namespace Guest

open Shell

/-! ### The script -/

/-- The entries of `zenity --forms`, as they are typed; nothing keeps the bar, which separates them
in the output, out of a text. -/
structure Form where
  username : Str
  password : Str
  confirm : Str

/-- What the dialog prints: its three entries with a bar between them, on one line. -/
def Form.printed (form : Form) : Str :=
  form.username ++ '|' :: (form.password ++ '|' :: form.confirm)

/-- Word splitting where each separator ends a field. -/
def splitFields (sep : Char) (text : Str) : List Str :=
  let pieces := text.splitOn sep
  if pieces.getLast? = some [] then pieces.dropLast else pieces

/-- `${CREDS[n]}`, where an element that the array does not have expands to the empty text. -/
def cred (creds : List Str) (n : ℕ) : Str := creds.getD n []

/-- The body of the second loop; `none` when it continues. -/
def submitted (glob : Str → List Str) (output : Str) : Option (Str × Str) :=
  let creds := (splitFields '|' output).flatMap (expandPathname glob)
  if cred creds 0 = [] then none
  else if cred creds 1 = [] then none
  else if cred creds 1 ≠ cred creds 2 then none
  else some (cred creds 0, cred creds 1)

/-- A round of the first loop, which asks for the API password until `check-auth` succeeds or the
dialog is closed. -/
inductive AuthRound
  | aborted
  /-- A password is entered, and `check-auth` succeeds or fails. -/
  | entered (lapasPassword : Str) (succeeds : Bool)

/-- How far a run of `lapasAddUser` gets: it waits for a dialog, has been aborted, or calls the
client. -/
inductive Ending
  /-- A dialog is open. -/
  | waiting
  | aborted
  /-- `lapas-api-client --auth auth add-user username password` -/
  | calls (auth username password : Str)
  deriving DecidableEq

/-- The second loop; a round in which the dialog is aborted has no form. -/
def askForUser (glob : Str → List Str) (auth : Str) : List (Option Form) → Ending
  | [] => .waiting
  | none :: _ => .aborted
  | some form :: rounds =>
    match submitted glob form.printed with
    | none => askForUser glob auth rounds
    | some (username, password) => .calls auth username password

/-- The whole script: the loop for the API password, then the one for the user. The lists are what
the player does in front of the dialogs, round by round. -/
def lapasAddUser (glob : Str → List Str) : List AuthRound → List (Option Form) → Ending
  | [], _ => .waiting
  | .aborted :: _, _ => .aborted
  | .entered lapasPassword succeeds :: rounds, forms =>
    if succeeds then askForUser glob lapasPassword forms else lapasAddUser glob rounds forms

/-! ### One form -/

/-- The script takes a name and a password from a form: the first two pieces of its line, where
the third is the second again. -/
def Sends (form : Form) (username password : Str) : Prop :=
  username ≠ [] ∧ password ≠ [] ∧
    ∃ rest, form.printed.splitOn '|' = username :: password :: password :: rest

/-- No piece of the line is a pattern for a file that exists. -/
def Unmatched (glob : Str → List Str) (form : Form) : Prop :=
  ∀ piece ∈ form.printed.splitOn '|', expandPathname glob piece = [piece]

/-- The field that is dropped is empty. -/
theorem cred_splitFields (sep : Char) (text : Str) (n : ℕ) :
    cred (splitFields sep text) n = cred (text.splitOn sep) n := by
  rw [splitFields]
  by_cases hlast : (text.splitOn sep).getLast? = some []
  · rw [if_pos hlast]
    obtain ⟨pieces, hpieces⟩ := List.getLast?_eq_some_iff.mp hlast
    rw [hpieces, List.dropLast_concat, cred, cred]
    by_cases hn : n < pieces.length
    · rw [List.getD_append _ _ _ _ hn]
    · rw [List.getD_append_right _ _ _ _ (not_lt.mp hn), List.getD_eq_default _ _ (not_lt.mp hn)]
      cases n - pieces.length <;> rfl
  · rw [if_neg hlast]

theorem mem_of_mem_splitFields {sep : Char} {text piece : Str} (h : piece ∈ splitFields sep text) :
    piece ∈ text.splitOn sep := by
  rw [splitFields] at h
  by_cases hlast : (text.splitOn sep).getLast? = some []
  · rw [if_pos hlast] at h
    exact List.dropLast_subset _ h
  · rwa [if_neg hlast] at h

/-- Pieces that are no patterns are left alone. -/
theorem flatMap_expandPathname {glob : Str → List Str} {pieces : List Str}
    (h : ∀ piece ∈ pieces, expandPathname glob piece = [piece]) :
    pieces.flatMap (expandPathname glob) = pieces := by
  induction pieces with
  | nil => rfl
  | cons piece pieces ih =>
    rw [List.flatMap_cons, h piece List.mem_cons_self,
      ih fun p hp => h p (List.mem_cons_of_mem _ hp)]
    rfl

theorem splitOn_printed (form : Form) : form.printed.splitOn '|' =
    form.username.splitOn '|' ++ (form.password.splitOn '|' ++ form.confirm.splitOn '|') := by
  rw [Form.printed, List.splitOn_append_cons_self, List.splitOn_append_cons_self]

/-- A line has three pieces at least. -/
theorem exists_pieces (form : Form) :
    ∃ u p c rest, form.printed.splitOn '|' = u :: p :: c :: rest := by
  have hu := List.length_pos_of_ne_nil (List.splitOn_ne_nil '|' form.username)
  have hp := List.length_pos_of_ne_nil (List.splitOn_ne_nil '|' form.password)
  have hc := List.length_pos_of_ne_nil (List.splitOn_ne_nil '|' form.confirm)
  have hlength : 3 ≤ (form.printed.splitOn '|').length := by
    rw [splitOn_printed, List.length_append, List.length_append]
    omega
  rcases hpieces : form.printed.splitOn '|' with _ | ⟨u, _ | ⟨p, _ | ⟨c, rest⟩⟩⟩
  · rw [hpieces] at hlength
    simp at hlength
  · rw [hpieces] at hlength
    simp at hlength
  · rw [hpieces] at hlength
    simp at hlength
  · exact ⟨u, p, c, rest, rfl⟩

/-- **What the script makes of a form.** -/
theorem submitted_printed {glob : Str → List Str} {form : Form} (h : Unmatched glob form)
    (username password : Str) :
    submitted glob form.printed = some (username, password) ↔ Sends form username password := by
  -- pathname expansion leaves the pieces as they are
  have hcreds : (splitFields '|' form.printed).flatMap (expandPathname glob) =
      splitFields '|' form.printed :=
    flatMap_expandPathname fun piece hpiece => h piece (mem_of_mem_splitFields hpiece)
  obtain ⟨u, p, c, rest, hpieces⟩ := exists_pieces form
  have h0 : cred (splitFields '|' form.printed) 0 = u := by rw [cred_splitFields, hpieces]; rfl
  have h1 : cred (splitFields '|' form.printed) 1 = p := by rw [cred_splitFields, hpieces]; rfl
  have h2 : cred (splitFields '|' form.printed) 2 = c := by rw [cred_splitFields, hpieces]; rfl
  simp only [submitted, hcreds, h0, h1, h2]
  have hfirst : (∃ behind, u :: p :: c :: rest = username :: password :: password :: behind) ↔
      u = username ∧ p = password ∧ c = password := by
    constructor
    · rintro ⟨behind, heq⟩
      obtain ⟨hu, heq⟩ := List.cons.inj heq
      obtain ⟨hp, heq⟩ := List.cons.inj heq
      exact ⟨hu, hp, (List.cons.inj heq).1⟩
    · rintro ⟨rfl, rfl, rfl⟩
      exact ⟨rest, rfl⟩
  rw [Sends, hpieces, hfirst]
  -- the checks of the script, in their order
  by_cases hu : u = []
  · rw [if_pos hu]
    constructor
    · intro h
      cases h
    · rintro ⟨hne, -, rfl, -⟩
      exact absurd hu hne
  by_cases hp : p = []
  · rw [if_neg hu, if_pos hp]
    constructor
    · intro h
      cases h
    · rintro ⟨-, hne, -, rfl, -⟩
      exact absurd hp hne
  rw [if_neg hu, if_neg hp]
  by_cases hc : p = c
  · rw [if_neg (not_not.mpr hc), Option.some.injEq, Prod.mk.injEq]
    constructor
    · rintro ⟨rfl, rfl⟩
      exact ⟨hu, hp, rfl, rfl, hc.symm⟩
    · rintro ⟨-, -, hu', hp', -⟩
      exact ⟨hu', hp'⟩
  · rw [if_pos hc]
    constructor
    · intro h
      cases h
    · rintro ⟨-, -, -, hp', hc'⟩
      exact absurd (hp'.trans hc'.symm) hc

/-- The first piece of a text. -/
theorem splitOn_cases (sep : Char) (text : Str) :
    (sep ∉ text ∧ text.splitOn sep = [text]) ∨
      ∃ front rest, text = front ++ sep :: rest ∧ sep ∉ front ∧
        text.splitOn sep = front :: rest.splitOn sep := by
  by_cases hsep : sep ∈ text
  · obtain ⟨front, rest, rfl, hfront⟩ := List.eq_append_cons_of_mem hsep
    exact .inr ⟨front, rest, rfl, hfront, List.splitOn_append_cons_self_of_not_mem hfront rest⟩
  · exact .inl ⟨hsep, List.splitOn_eq_singleton hsep⟩

/-- The first piece is the whole text only when there is no separator. -/
theorem notMem_of_splitOn {sep : Char} {text : Str} {more rest : List Str}
    (h : text.splitOn sep ++ more = text :: rest) : sep ∉ text ∧ more = rest := by
  rcases splitOn_cases sep text with ⟨hnot, hpieces⟩ | ⟨front, behind, htext, -, hpieces⟩
  · rw [hpieces] at h
    exact ⟨hnot, (List.cons.inj h).2⟩
  · rw [hpieces] at h
    have hfront : front = text := (List.cons.inj h).1
    have hlength := congrArg List.length htext
    rw [hfront, List.length_append, List.length_cons] at hlength
    omega

/-- **It is what was typed** when there is no bar in the name and in the password; a bar ends what
the confirmation is compared to. -/
theorem sends_typed_iff (form : Form) : Sends form form.username form.password ↔
    form.username ≠ [] ∧ form.password ≠ [] ∧ '|' ∉ form.username ∧ '|' ∉ form.password ∧
      (form.confirm = form.password ∨ form.password ++ ['|'] <+: form.confirm) := by
  rw [Sends, splitOn_printed]
  constructor
  · rintro ⟨hu, hp, rest, hpieces⟩
    obtain ⟨hubar, hpieces⟩ := notMem_of_splitOn hpieces
    obtain ⟨hpbar, hpieces⟩ := notMem_of_splitOn hpieces
    refine ⟨hu, hp, hubar, hpbar, ?_⟩
    rcases splitOn_cases '|' form.confirm with ⟨-, hconfirm⟩ | ⟨front, behind, htext, -, hconfirm⟩
    · rw [hconfirm] at hpieces
      exact .inl (List.cons.inj hpieces).1
    · rw [hconfirm] at hpieces
      rw [htext, ← (List.cons.inj hpieces).1]
      exact .inr ⟨behind, by rw [List.append_assoc, List.singleton_append]⟩
  · rintro ⟨hu, hp, hubar, hpbar, hconfirm⟩
    refine ⟨hu, hp, ?_⟩
    rw [List.splitOn_eq_singleton hubar, List.splitOn_eq_singleton hpbar]
    rcases hconfirm with heq | ⟨behind, heq⟩
    · rw [heq, List.splitOn_eq_singleton hpbar]
      exact ⟨[], rfl⟩
    · have hconfirm : form.confirm = form.password ++ '|' :: behind := by
        rw [← heq, List.append_assoc, List.singleton_append]
      rw [hconfirm, List.splitOn_append_cons_self_of_not_mem hpbar]
      exact ⟨behind.splitOn '|', rfl⟩

/-- Without bars nothing else is taken. -/
theorem Sends.eq_typed {form : Form} {username password : Str}
    (h : Sends form username password) (hubar : '|' ∉ form.username)
    (hpbar : '|' ∉ form.password) : username = form.username ∧ password = form.password := by
  obtain ⟨-, -, rest, hpieces⟩ := h
  rw [splitOn_printed, List.splitOn_eq_singleton hubar, List.splitOn_eq_singleton hpbar] at hpieces
  obtain ⟨hu, hpieces⟩ := List.cons.inj hpieces
  exact ⟨hu.symm, (List.cons.inj hpieces).1.symm⟩

/-! ### Runs -/

/-- The server takes a password that is entered, and none before. -/
def Authenticated (auths : List AuthRound) (auth : Str) : Prop :=
  ∃ failed rest, auths = failed ++ .entered auth true :: rest ∧
    ∀ round ∈ failed, ∃ lapasPassword, round = .entered lapasPassword false

/-- A form is filled in from which the script takes a name and a password, and none before. -/
def Submitted (forms : List (Option Form)) (form : Form) (username password : Str) : Prop :=
  ∃ failed rest, forms = failed ++ some form :: rest ∧
    (∀ round ∈ failed, ∃ form', round = some form' ∧ ∀ u p, ¬ Sends form' u p) ∧
    Sends form username password

/-- The rounds in front of the first one that succeeds, one round at a time. -/
theorem exists_failed_cons_iff {α : Type} {Fails : α → Prop} {round hit : α} {rounds : List α} :
    (∃ failed rest, round :: rounds = failed ++ hit :: rest ∧ ∀ r ∈ failed, Fails r) ↔
      round = hit ∨ Fails round ∧
        ∃ failed rest, rounds = failed ++ hit :: rest ∧ ∀ r ∈ failed, Fails r := by
  constructor
  · rintro ⟨failed, rest, heq, hfailed⟩
    cases failed with
    | nil => exact .inl (List.cons.inj heq).1
    | cons first failed =>
      obtain ⟨rfl, hrounds⟩ := List.cons.inj heq
      obtain ⟨hround, hfailed⟩ := List.forall_mem_cons.mp hfailed
      exact .inr ⟨hround, failed, rest, hrounds, hfailed⟩
  · rintro (rfl | ⟨hround, failed, rest, rfl, hfailed⟩)
    · exact ⟨[], rounds, rfl, List.forall_mem_nil _⟩
    · exact ⟨round :: failed, rest, rfl, List.forall_mem_cons.mpr ⟨hround, hfailed⟩⟩

theorem not_authenticated_nil (auth : Str) : ¬ Authenticated [] auth := by
  rintro ⟨failed, rest, heq, -⟩
  exact List.append_ne_nil_of_right_ne_nil failed (List.cons_ne_nil _ _) heq.symm

theorem authenticated_cons_iff {round : AuthRound} {rounds : List AuthRound} {auth : Str} :
    Authenticated (round :: rounds) auth ↔
      round = .entered auth true ∨
        (∃ lapasPassword, round = .entered lapasPassword false) ∧ Authenticated rounds auth :=
  exists_failed_cons_iff

/-- What a form amounts to does not depend on where it is found. -/
theorem submitted_iff {forms : List (Option Form)} {form : Form} {username password : Str} :
    Submitted forms form username password ↔
      (∃ failed rest, forms = failed ++ some form :: rest ∧
        ∀ round ∈ failed, ∃ form', round = some form' ∧ ∀ u p, ¬ Sends form' u p) ∧
      Sends form username password := by
  constructor
  · rintro ⟨failed, rest, heq, hfailed, hsends⟩
    exact ⟨⟨failed, rest, heq, hfailed⟩, hsends⟩
  · rintro ⟨⟨failed, rest, heq, hfailed⟩, hsends⟩
    exact ⟨failed, rest, heq, hfailed, hsends⟩

theorem not_submitted_nil (form : Form) (username password : Str) :
    ¬ Submitted [] form username password := by
  rintro ⟨failed, rest, heq, -⟩
  exact List.append_ne_nil_of_right_ne_nil failed (List.cons_ne_nil _ _) heq.symm

theorem submitted_cons_iff {round : Option Form} {rounds : List (Option Form)} {form : Form}
    {username password : Str} :
    Submitted (round :: rounds) form username password ↔
      round = some form ∧ Sends form username password ∨
        (∃ form', round = some form' ∧ ∀ u p, ¬ Sends form' u p) ∧
          Submitted rounds form username password := by
  rw [submitted_iff, submitted_iff, exists_failed_cons_iff, or_and_right, and_assoc]

/-- The second loop ends with the first form from which it takes something. -/
theorem askForUser_eq_calls {glob : Str → List Str} {forms : List (Option Form)}
    (hglob : ∀ form, some form ∈ forms → Unmatched glob form)
    {entered auth username password : Str} :
    askForUser glob entered forms = .calls auth username password ↔
      entered = auth ∧ ∃ form, Submitted forms form username password := by
  -- on the forms in the order in which they are submitted; the first one that sends is the last
  induction forms with
  | nil =>
    constructor
    · intro h
      cases h
    · rintro ⟨-, form, hform⟩
      exact absurd hform (not_submitted_nil form username password)
  | cons round rounds ih =>
    simp only [submitted_cons_iff]
    cases round with
    | none =>
      constructor
      · intro h
        cases h
      · rintro ⟨-, form, ⟨hround, -⟩ | ⟨⟨form', hround, -⟩, -⟩⟩
        · cases hround
        · cases hround
    | some first =>
      have hfirst := submitted_printed (hglob first List.mem_cons_self)
      have hrounds : ∀ form, some form ∈ rounds → Unmatched glob form :=
        fun form hform => hglob form (List.mem_cons_of_mem _ hform)
      rw [askForUser]
      cases hsubmitted : submitted glob first.printed with
      | none =>
        -- a form that is rejected sends nothing, and the next one decides
        have hno : ∀ u p, ¬ Sends first u p := by
          intro u p hsends
          have hsome := (hfirst u p).mpr hsends
          rw [hsubmitted] at hsome
          cases hsome
        refine (ih hrounds).trans (and_congr_right fun _ => exists_congr fun form => ?_)
        constructor
        · intro h
          exact .inr ⟨⟨first, rfl, hno⟩, h⟩
        · rintro (⟨hround, hsends⟩ | ⟨-, h⟩)
          · obtain rfl := Option.some.inj hround
            exact absurd hsends (hno username password)
          · exact h
      | some taken =>
        obtain ⟨u, p⟩ := taken
        -- this form is accepted, and the ones behind it are never shown
        have hsends := (hfirst u p).mp hsubmitted
        constructor
        · intro h
          cases h
          exact ⟨rfl, first, .inl ⟨rfl, hsends⟩⟩
        · rintro ⟨rfl, form, ⟨hround, hform⟩ | ⟨⟨form', hround, hno⟩, -⟩⟩
          · obtain rfl := Option.some.inj hround
            have hsome := (hfirst username password).mpr hform
            rw [hsubmitted] at hsome
            cases hsome
            rfl
          · obtain rfl := Option.some.inj hround
            exact absurd hsends (hno u p)

/-- The script ends with a call when the first loop and the second do. -/
theorem lapasAddUser_eq_calls {glob : Str → List Str} {auths : List AuthRound}
    {forms : List (Option Form)} {auth username password : Str} :
    lapasAddUser glob auths forms = .calls auth username password ↔
      ∃ entered, Authenticated auths entered ∧
        askForUser glob entered forms = .calls auth username password := by
  induction auths with
  | nil =>
    constructor
    · intro h
      cases h
    · rintro ⟨entered, hentered, -⟩
      exact absurd hentered (not_authenticated_nil entered)
  | cons round rounds ih =>
    simp only [authenticated_cons_iff]
    cases round with
    | aborted =>
      constructor
      · intro h
        cases h
      · rintro ⟨entered, hround | ⟨⟨lapasPassword, hround⟩, -⟩, -⟩
        · cases hround
        · cases hround
    | entered lapasPassword succeeds =>
      cases succeeds with
      | false =>
        -- a password that fails is forgotten, and the loop goes on with the next round
        refine ih.trans (exists_congr fun entered => and_congr_left fun _ => ?_)
        constructor
        · intro h
          exact .inr ⟨⟨lapasPassword, rfl⟩, h⟩
        · rintro (hround | ⟨-, h⟩)
          · cases hround
          · exact h
      | true =>
        constructor
        · intro h
          exact ⟨lapasPassword, .inl rfl, h⟩
        · rintro ⟨entered, hround | ⟨⟨password', hround⟩, -⟩, h⟩
          · cases hround
            exact h
          · cases hround

/-- **The call at the end of the script, in every run**: it is made with the first password that
the server takes, and with what the script takes from the first form that it accepts.  This is what
was typed into the form exactly when there is no bar in the name and in the password. -/
theorem calls_iff {glob : Str → List Str} {auths : List AuthRound} {forms : List (Option Form)}
    (hglob : ∀ form, some form ∈ forms → Unmatched glob form) (auth username password : Str) :
    lapasAddUser glob auths forms = .calls auth username password ↔
      Authenticated auths auth ∧ ∃ form, Submitted forms form username password ∧
        ((username = form.username ∧ password = form.password) ↔
          ('|' ∉ form.username ∧ '|' ∉ form.password)) := by
  have htyped {form : Form} (h : Submitted forms form username password) :
      (username = form.username ∧ password = form.password) ↔
        ('|' ∉ form.username ∧ '|' ∉ form.password) := by
    obtain ⟨-, -, -, -, hsends⟩ := h
    constructor
    · rintro ⟨rfl, rfl⟩
      obtain ⟨-, -, hubar, hpbar, -⟩ := (sends_typed_iff form).mp hsends
      exact ⟨hubar, hpbar⟩
    · rintro ⟨hubar, hpbar⟩
      exact hsends.eq_typed hubar hpbar
  rw [lapasAddUser_eq_calls]
  constructor
  · rintro ⟨entered, hauth, h⟩
    obtain ⟨rfl, form, hform⟩ := (askForUser_eq_calls hglob).mp h
    exact ⟨hauth, form, hform, htyped hform⟩
  · rintro ⟨hauth, form, hform, -⟩
    exact ⟨auth, hauth, (askForUser_eq_calls hglob).mpr ⟨rfl, form, hform⟩⟩

/-- The password of the administration is wrong at first, and then the one of bob is confirmed by
another. -/
theorem calls_iff_bob :
    Authenticated [.entered "no".toList false, .entered "lapas".toList true] "lapas".toList ∧
      ∃ form, Submitted [some ⟨"bob".toList, "a".toList, "b".toList⟩,
          some ⟨"bob".toList, "secret".toList, "secret".toList⟩] form
          "bob".toList "secret".toList ∧
        (("bob".toList = form.username ∧ "secret".toList = form.password) ↔
          ('|' ∉ form.username ∧ '|' ∉ form.password)) := by
  have hglob (form : Form) : Unmatched (fun _ => []) form := by
    intro piece _
    rw [expandPathname]
    split
    · rfl
    · rfl
  refine (calls_iff (fun form _ => hglob form) _ _ _).mp ?_
  decide

end Guest
end Lapas
