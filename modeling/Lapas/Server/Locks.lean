import Lapas.Library.Mutex
import Lapas.Server.ApiServer

/-!
# The locks of the services

`add_user` and `create_mapping` take the lock of their service with the first step and give it
back with the last one.  In between, at every `await`, the tasks of other connections may run.

## Main definitions

* `Inside` — the task is in the middle of one of them.
* `ApiServer.Locked` — the locks name the tasks that are, and the file of a mapping holds what its
  task has written.
* `Undisturbed` — what the locks are for.

## Main results

* `ApiServer.Locked.step` — the steps of all tasks keep it.
* `undisturbed_of_reach` — **no task comes in between the steps of another one.**
-/

namespace Lapas
namespace Server

open Proto

variable {chrono : Chrono} {ι : Type}

/-- The task has a lock: it writes the index of the users, or a file for a mapping. -/
def Inside : Handler chrono → Prop
  | .writing | .mapping _ _ => True
  | _ => False

section

variable {handler : Handler chrono}

theorem ne_writing_of_not_inside (h : ¬ Inside handler) : handler ≠ .writing := by
  rintro rfl
  exact h trivial

theorem ne_mapping_of_not_inside (h : ¬ Inside handler) :
    ¬ ∃ username written, handler = .mapping username written := by
  rintro ⟨username, written, rfl⟩
  exact h trivial

theorem ne_mapping_of_writing (h : handler = .writing) :
    ¬ ∃ username written, handler = .mapping username written := by
  rintro ⟨username, written, rfl⟩
  cases h

/-- A task that waits for a packet, or has just received one, has no lock. -/
theorem not_inside_receive {setup : Setup ι} {packet : LapasProtocol chrono}
    {session session' : Session chrono}
    (h : session.receive "Incompatible Protocol Version" (handleClient setup) packet =
      some session') : ¬ Inside session.handler ∧ ¬ Inside session'.handler := by
  unfold Session.receive at h
  split at h
  · next hhandler =>
    cases h
    refine ⟨by rw [hhandler]; exact not_false, ?_⟩
    unfold receiveHandshake
    dsimp only
    split
    · split <;> exact not_false
    · exact not_false
  · next hhandler =>
    cases h
    refine ⟨by rw [hhandler]; exact not_false, ?_⟩
    show ¬ Inside (handleClient setup packet)
    cases packet with
    | controlCheckAuth | userRegister | userDnsMapping | shadowGetList =>
      rw [handleClient]
      rcases handleRequest_eq (rfl : handleRequest setup _ _ _ = _) with
        heq | heq | ⟨heq, -⟩ <;> rw [heq] <;> exact not_false
    | _ => exact not_false
  · cases h

end

/-- The locks are those of the tasks that write. -/
structure ApiServer.Locked (setup : Setup ι) (s : ApiServer ι chrono) : Prop where
  user : Guards s.userLock fun client => (s.sessions client).handler = .writing
  dns : Guards s.dnsLock fun client =>
    ∃ username written, (s.sessions client).handler = .mapping username written
  file : ∀ client username written, (s.sessions client).handler = .mapping username written →
    s.hosts (pushPath setup.hostsDir username) =
      some ((hostMapping setup client username).take written)

/-- The operations on the users, and on the host files, are not disturbed by others.  What is said
of the files is for usernames without slashes: others lead out of the directory, and an absolute
one can name the file of the index, which the user service writes under a lock of its own. -/
structure Undisturbed [DecidableEq ι] (setup : Setup ι) (s : ApiServer ι chrono) : Prop where
  writing : ∀ client other, (s.sessions client).handler = .writing →
    (s.sessions other).handler = .writing → client = other
  mapping : ∀ client other username username' written written',
    (s.sessions client).handler = .mapping username written →
    (s.sessions other).handler = .mapping username' written' → client = other
  file : ∀ client username written, '/' ∉ username.toList →
    (s.sessions client).handler = .mapping username written →
    s.hosts (pushPath setup.hostsDir username) =
      some ((hostMapping setup client username).take written)
  /-- When `create_mapping` returns, the file is that of its client. -/
  mapped : ∀ client username written s', '/' ∉ username.toList →
    (s.sessions client).handler = .mapping username written →
    s.step setup client (.mapped (.ok ())) = some s' →
    s'.hosts (pushPath setup.hostsDir username) = some (hostMapping setup client username)

section

variable [DecidableEq ι] {setup : Setup ι} {s s' : ApiServer ι chrono} {client : ι}

theorem handler_access (s : ApiServer ι chrono) (client : ι) (handler : Handler chrono) :
    ((s.access client handler).sessions client).handler = handler := by
  rw [ApiServer.access, ApiServer.sessions_setSession]
  rfl

/-- The handler of another client. -/
theorem handler_update {session : Session chrono} {other : ι}
    (hsessions : s'.sessions = Function.update s.sessions client session)
    (hother : other ≠ client) : (s'.sessions other).handler = (s.sessions other).handler := by
  rw [hsessions, Function.update_of_ne hother]

/-- A step that does not begin or end the writing of the index. -/
theorem ApiServer.Locked.user_congr (h : s.Locked setup) {session : Session chrono}
    (hsessions : s'.sessions = Function.update s.sessions client session)
    (hiff : session.handler = .writing ↔ (s.sessions client).handler = .writing) :
    Guards s.userLock fun client => (s'.sessions client).handler = .writing := by
  refine h.user.congr fun other => ?_
  by_cases heq : other = client
  · rw [heq, hsessions, Function.update_self]
    exact hiff
  · rw [handler_update hsessions heq]

/-- A step that does not begin or end the writing of a mapping. -/
theorem ApiServer.Locked.dns_congr (h : s.Locked setup) {session : Session chrono}
    (hsessions : s'.sessions = Function.update s.sessions client session)
    (hiff : (∃ username written, session.handler = .mapping username written) ↔
      ∃ username written, (s.sessions client).handler = .mapping username written) :
    Guards s.dnsLock fun client =>
      ∃ username written, (s'.sessions client).handler = .mapping username written := by
  refine h.dns.congr fun other => ?_
  by_cases heq : other = client
  · rw [heq, hsessions, Function.update_self]
    exact hiff
  · rw [handler_update hsessions heq]

/-- A step that leaves the host files alone. -/
theorem ApiServer.Locked.file_congr (h : s.Locked setup) {session : Session chrono}
    (hsessions : s'.sessions = Function.update s.sessions client session)
    (hhosts : s'.hosts = s.hosts)
    (hnew : ¬ ∃ username written, session.handler = .mapping username written)
    (other : ι) (username : String) (written : ℕ)
    (hother : (s'.sessions other).handler = .mapping username written) :
    s'.hosts (pushPath setup.hostsDir username) =
      some ((hostMapping setup other username).take written) := by
  rw [hhosts]
  by_cases heq : other = client
  · rw [heq, hsessions, Function.update_self] at hother
    exact absurd ⟨username, written, hother⟩ hnew
  · rw [handler_update hsessions heq] at hother
    exact h.file other username written hother

/-- A step of a task that has no lock, in front of it or behind it. -/
theorem ApiServer.Locked.frame (h : s.Locked setup) {session : Session chrono}
    (hsessions : s'.sessions = Function.update s.sessions client session)
    (huser : s'.userLock = s.userLock) (hdns : s'.dnsLock = s.dnsLock) (hhosts : s'.hosts = s.hosts)
    (hold : ¬ Inside (s.sessions client).handler) (hnew : ¬ Inside session.handler) :
    s'.Locked setup where
  user := by
    rw [huser]
    exact h.user_congr hsessions
      (iff_of_false (ne_writing_of_not_inside hnew) (ne_writing_of_not_inside hold))
  dns := by
    rw [hdns]
    exact h.dns_congr hsessions
      (iff_of_false (ne_mapping_of_not_inside hnew) (ne_mapping_of_not_inside hold))
  file := h.file_congr hsessions hhosts (ne_mapping_of_not_inside hnew)

/-- A step of a session that receives or sends. -/
theorem ApiServer.Locked.setSession (h : s.Locked setup) {session : Session chrono}
    (hold : ¬ Inside (s.sessions client).handler) (hnew : ¬ Inside session.handler) :
    (s.setSession client session).Locked setup := h.frame rfl rfl rfl rfl hold hnew

/-- The task that has the lock for the host files writes to its file, and goes on. -/
theorem ApiServer.Locked.write (h : s.Locked setup) {session : Session chrono} {username : String}
    {n : ℕ} (hsessions : s'.sessions = Function.update s.sessions client session)
    (hhandler : session.handler = .mapping username n)
    (hold : (s.sessions client).handler ≠ .writing)
    (hothers : ∀ other, other ≠ client →
      ¬ ∃ username written, (s.sessions other).handler = .mapping username written)
    (huser : s'.userLock = s.userLock)
    (hdns : Guards s'.dnsLock fun client =>
      ∃ username written, (s'.sessions client).handler = .mapping username written)
    (hhosts : s'.hosts = Function.update s.hosts (pushPath setup.hostsDir username)
      (some ((hostMapping setup client username).take n))) : s'.Locked setup where
  user := by
    rw [huser]
    refine h.user_congr hsessions (iff_of_false ?_ hold)
    rw [hhandler]
    exact fun heq => by cases heq
  dns := hdns
  file := by
    intro other username' written hother
    by_cases heq : other = client
    · rw [heq] at hother ⊢
      rw [hsessions, Function.update_self, hhandler] at hother
      cases hother
      rw [hhosts, Function.update_self]
    · rw [handler_update hsessions heq] at hother
      exact absurd ⟨username', written, hother⟩ (hothers other heq)

/-- **The tasks keep the locks.** -/
theorem ApiServer.Locked.step (h : s.Locked setup) {e : ApiServer.Event chrono}
    (hstep : s.step setup client e = some s') : s'.Locked setup := by
  -- what is forwarded touches neither lock
  have hforward : ∀ packet, s.forward client packet = some s' → s'.Locked setup := by
    intro packet hforward
    unfold ApiServer.forward at hforward
    split at hforward <;> cases hforward
    exact ⟨h.user, h.dns, h.file⟩
  cases e with
  -- steps outside of the locks only change a session that is not inside
  | recv packet =>
    obtain ⟨session, hsession, rfl⟩ := Option.map_eq_some_iff.mp hstep
    obtain ⟨hold, hnew⟩ := not_inside_receive hsession
    exact h.setSession hold hnew
  | hangUp =>
    obtain ⟨session, hsession, rfl⟩ := Option.map_eq_some_iff.mp hstep
    unfold Session.hangUp at hsession
    split at hsession <;> cases hsession <;> next hhandler =>
      exact h.setSession (by rw [hhandler]; exact not_false) not_false
  | send sent =>
    obtain ⟨session, hsession, rfl⟩ := Option.map_eq_some_iff.mp hstep
    unfold Session.deliver at hsession
    split at hsession <;> cases hsession
    next hhandler =>
      refine h.setSession (by rw [hhandler]; exact not_false) ?_
      dsimp only
      split <;> exact not_false
  | forward i =>
    obtain ⟨packet, -, hpacket⟩ := Option.bind_eq_some_iff.mp hstep
    exact hforward packet hpacket
  | ping => exact hforward _ hstep
  | listen =>
    simp only [ApiServer.step] at hstep
    split at hstep <;> cases hstep
    next hhandler =>
      exact h.frame rfl rfl rfl rfl (by rw [hhandler]; exact not_false) not_false
  | addUser salt creationTs lastUpdateTs =>
    simp only [ApiServer.step] at hstep
    split at hstep
    · next username password hhandler hlock =>
      have hold : ¬ Inside (s.sessions client).handler := by
        rw [hhandler]
        exact not_false
      split at hstep <;> cases hstep
      · exact h.setSession hold not_false
      · have huser := h.user
        rw [hlock] at huser
        refine ⟨huser.acquire (handler_access s client .writing) fun other hother => ?_,
          h.dns_congr rfl
            (iff_of_false (ne_mapping_of_writing rfl) (ne_mapping_of_not_inside hold)),
          h.file_congr rfl rfl (ne_mapping_of_writing rfl)⟩
        rw [handler_update rfl hother]
    · cases hstep
  | written result =>
    simp only [ApiServer.step] at hstep
    split at hstep <;> cases hstep
    next hhandler =>
    refine ⟨h.user.release hhandler ?_ fun other hother => ?_,
      h.dns_congr rfl
        (iff_of_false (ne_mapping_of_not_inside not_false) (ne_mapping_of_writing hhandler)),
      h.file_congr rfl rfl (ne_mapping_of_not_inside not_false)⟩
    · dsimp only
      rw [handler_access]
      exact ne_writing_of_not_inside not_false
    · rw [handler_update rfl hother]
  | createMapping result =>
    simp only [ApiServer.step] at hstep
    split at hstep
    · next username hhandler hlock =>
      have hold : ¬ Inside (s.sessions client).handler := by
        rw [hhandler]
        exact not_false
      -- the file is created and the lock taken, or neither
      split at hstep <;> cases hstep
      · have hdns := h.dns
        rw [hlock] at hdns
        refine h.write rfl rfl (ne_writing_of_not_inside hold) (fun _ _ => hdns.free) rfl ?_ rfl
        refine hdns.acquire ⟨username, 0, handler_access s client _⟩ fun other hother => ?_
        rw [handler_update rfl hother]
      · exact h.setSession hold not_false
    · cases hstep
  | landMapping n =>
    simp only [ApiServer.step] at hstep
    split at hstep
    · next username written hhandler =>
      split at hstep <;> cases hstep
      -- only the holder of the lock may write, and so no other mapping is under way
      refine h.write rfl rfl ?_ (fun other hother hmapping => ?_) rfl ?_ rfl
      · rw [hhandler]
        exact fun heq => by cases heq
      · exact hother (h.dns.exclusive hmapping ⟨username, written, hhandler⟩)
      · exact h.dns_congr rfl (iff_of_true ⟨username, n, rfl⟩ ⟨username, written, hhandler⟩)
    · cases hstep
  | mapped result =>
    simp only [ApiServer.step] at hstep
    split at hstep
    · next username written hhandler =>
      split at hstep <;> cases hstep
      refine ⟨h.user_congr rfl (iff_of_false (ne_writing_of_not_inside not_false) ?_),
        h.dns.release ⟨username, written, hhandler⟩ ?_ fun other hother => ?_,
        h.file_congr rfl rfl (ne_mapping_of_not_inside not_false)⟩
      · rw [hhandler]
        exact fun heq => by cases heq
      · dsimp only
        rw [handler_access]
        exact ne_mapping_of_not_inside not_false
      · rw [handler_update rfl hother]
    · cases hstep
  | list =>
    simp only [ApiServer.step] at hstep
    split at hstep <;> cases hstep <;> next hhandler _ =>
      exact h.setSession (by rw [hhandler]; exact not_false) not_false

theorem locked_of_reach (h : (apiServer setup chrono).Reach (fun _ _ => True) s) :
    s.Locked setup := by
  refine h.invariant (fun s hs => ?_) fun s e s' hs _ hstep => hs.step hstep
  obtain ⟨index, hosts, rfl⟩ := hs
  refine ⟨fun client => iff_of_false ?_ ?_, fun client => iff_of_false ?_ ?_, ?_⟩
  · exact fun heq => by cases heq
  · exact fun heq => by cases heq
  · exact fun heq => by cases heq
  · rintro ⟨username, written, heq⟩
    cases heq
  · intro client username written heq
    cases heq

/-- **The services are not disturbed.**  Whatever the clients send and in whatever order their
tasks take turns, at most one task is between the check of a new user and the end of the writing of
the index, and at most one within `create_mapping`.  The file that this one writes, for a name
without slashes, holds what it has written so far and nothing of another task, and when the call
succeeds, its whole mapping. -/
theorem undisturbed_of_reach (h : (apiServer setup chrono).Reach (fun _ _ => True) s) :
    Undisturbed setup s := by
  have hlocked := locked_of_reach h
  refine ⟨fun client other => hlocked.user.exclusive, ?_,
    fun client username written _ => hlocked.file client username written, ?_⟩
  · intro client other username username' written written' hclient hother
    exact hlocked.dns.exclusive ⟨username, written, hclient⟩ ⟨username', written', hother⟩
  · intro client username written s' _ hhandler hstep
    have hfile := hlocked.file client username written hhandler
    simp only [ApiServer.step, hhandler] at hstep
    split at hstep <;> cases hstep
    next hlength =>
    -- the call does not return in front of the last byte
    have hwritten : (hostMapping setup client username).length ≤ written := by
      by_contra hlt
      exact hlength ⟨rfl, by omega⟩
    rw [List.take_of_length_le hwritten] at hfile
    exact hfile

end

/-! ### Two clients -/

/-- The setup of the examples, in which passwords are not hashed and the clients are told apart by a
truth value. -/
def namesakesSetup : Setup Bool where
  config
    | "LAPAS_PASSWORD_SALT" => some "s"
    | "LAPAS_PASSWORD_HASH" => some "7370"
    | _ => none
  sha512 := id
  sha512Crypt _ password := password
  dnsDomain := "lapas"
  hostsDir := "/etc/lapas/dns"
  ip client := if client then "10.0.0.3" else "10.0.0.2"

/-- Two clients ask for the same name, and the first one is in the middle of its mapping. -/
def mappingEvents : List (Bool × ApiServer.Event epoch) :=
  [(false, .recv (.controlHandshake version)), (true, .recv (.controlHandshake version)),
    (false, .send true), (true, .send true),
    (false, .recv (.userDnsMapping (.password "p") "bob")),
    (true, .recv (.userDnsMapping (.password "p") "bob")),
    (false, .createMapping (.ok ())), (false, .landMapping 5)]

theorem undisturbed_of_reach_mapping : ∃ s : ApiServer Bool epoch,
    (apiServer namesakesSetup epoch).Reach (fun _ _ => True) s ∧
    s.hosts "/etc/lapas/dns/bob" = some (utf8Bytes "10.0.") ∧ Undisturbed namesakesSetup s := by
  obtain ⟨start, hstart⟩ : ∃ start : ApiServer Bool epoch,
      start = ⟨.default, fun _ => none, none, none, [], [], fun _ => .accepted, []⟩ := ⟨_, rfl⟩
  have hrun : ((apiServer namesakesSetup epoch).run start mappingEvents).any fun s =>
      s.hosts "/etc/lapas/dns/bob" = some (utf8Bytes "10.0.") := by
    subst hstart
    decide +kernel
  obtain ⟨s, hs, hfile⟩ := (Option.any_eq_true _ _).mp hrun
  have hreach := Machine.reach_of_run
    (.start (show (apiServer namesakesSetup epoch).start start from ⟨_, _, hstart⟩)) hs
  exact ⟨s, hreach, of_decide_eq_true hfile, undisturbed_of_reach hreach⟩

end Server
end Lapas
