import Lapas.Daemon.Coherence

/-!
# Forwarding notifications

`send` puts a notification into a channel that keeps a single one, and `forward_notifications`
takes it out and writes it to its connection.  `recv` returns an error to a task that has
missed a notification, and the task then ends, while its connection stays open.

## Main definitions

* `NotificationService`, `notificationService` — the channel, and one of the tasks that `add`
  has spawned, with what has been sent and written since.
* `Reported` — a notification has been written since it was last sent.
* `Delivers` — no notification is lost.
* `Timely` — when the task receives, one notification at most is waiting.

## Main results

* `NotificationService.Inv.step` — a notification has been reported, or is on its way.
* `step_of_linkStep` — the forwarder of the daemon's connection makes steps of the service.
* `delivers_of_timely` — **in timely runs, no notification is lost.**
* `not_delivers_of_late` — a task that receives late ends.
-/

namespace Lapas
namespace Server

open Proto Daemon

variable {chrono : Chrono}

/-! ### The service -/

/-- What has happened since the registration of a client: a notification was sent to the channel, or
a packet written to the client. -/
inductive Entry (chrono : Chrono)
  | sent (notification : LapasProtocol chrono)
  | written (packet : LapasProtocol chrono)

/-- One forwarding task and the channel that it reads the notifications from. -/
structure NotificationService (chrono : Chrono) where
  /-- The notifications that have been sent. -/
  channel : List (LapasProtocol chrono)
  forwarder : Forwarder chrono
  /-- The connection of the forwarder accepts writes. -/
  accepts : Bool
  /-- The latest first. -/
  log : List (Entry chrono)

/-- The steps of the channel and of the task: a notification is sent into the channel, or the task
receives one, has a ping to send, or comes back from its write. -/
inductive NotificationService.Event (chrono : Chrono)
  | send (notification : LapasProtocol chrono)
  /-- `notify_rx.recv()` returns. -/
  | receive
  /-- The time of a ping has come. -/
  | ping
  /-- `client_tx.send` returns. -/
  | written
  /-- It returns an error. -/
  | refused

/-- One step.  A task that has missed a notification or cannot write ends. -/
def NotificationService.step (s : NotificationService chrono) :
    NotificationService.Event chrono → Option (NotificationService chrono)
  | .send notification =>
    some { s with channel := s.channel ++ [notification], log := .sent notification :: s.log }
  | .receive =>
    match s.forwarder with
    | .waiting next =>
      (Broadcast.receive 1 s.channel next).map fun (received, next) =>
        { s with
          forwarder := match received with
            | .value notification => .sending next notification
            | .lagged _ => .dead }
    | _ => none
  | .ping =>
    match s.forwarder with
    | .waiting next => some { s with forwarder := .sending next .controlPing }
    | _ => none
  | .written =>
    match s.forwarder with
    | .sending next packet =>
      some { s with forwarder := .waiting next, log := .written packet :: s.log }
    | _ => none
  | .refused =>
    match s.forwarder with
    | .sending _ _ => some { s with forwarder := .dead, accepts := false }
    | _ => none

/-- The service from the registration of a client on. -/
def notificationService (chrono : Chrono) :
    Machine (NotificationService chrono) (NotificationService.Event chrono) where
  start s := ∃ channel, s = ⟨channel, .waiting channel.length, true, []⟩
  step := NotificationService.step

/-! ### Lost notifications -/

/-- The notification has been written since it was sent for the last time. -/
def Reported (notification : LapasProtocol chrono) (log : List (Entry chrono)) : Prop :=
  ∃ later earlier, log = later ++ .written notification :: earlier ∧ .sent notification ∉ later

/-- The task goes on while its connection accepts writes; and when the channel holds nothing
for it, everything that has been sent has been written since, but for the notification that
is being written. -/
def Delivers (s : NotificationService chrono) : Prop :=
  (s.accepts = true → s.forwarder ≠ .dead) ∧
  (s.accepts = true → s.forwarder.unreceived s.channel = [] → ∀ notification,
    .sent notification ∈ s.log → Reported notification s.log ∨
      s.forwarder.carried = [notification])

/-- When the task receives, one notification at most has been sent since it has received. -/
def Timely (s : NotificationService chrono) : NotificationService.Event chrono → Prop
  | .receive => (s.forwarder.unreceived s.channel).length ≤ 1
  | _ => True

/-- What holds as long as the task is not late: it is there, and a notification has been reported or
is still to come. -/
structure NotificationService.Inv (s : NotificationService chrono) : Prop where
  alive : s.accepts = true → s.forwarder ≠ .dead ∧ s.forwarder ≠ .absent
  position_le : ∀ next, s.forwarder.position = some next → next ≤ s.channel.length
  on_way : s.accepts = true → ∀ notification, .sent notification ∈ s.log →
    Reported notification s.log ∨
      notification ∈ s.forwarder.carried ++ s.forwarder.unreceived s.channel

section

variable {s s' : NotificationService chrono}

theorem Reported.cons {notification : LapasProtocol chrono} {log : List (Entry chrono)}
    (h : Reported notification log) {entry : Entry chrono} (hentry : entry ≠ .sent notification) :
    Reported notification (entry :: log) := by
  obtain ⟨later, earlier, rfl, hlater⟩ := h
  refine ⟨entry :: later, earlier, rfl, fun hmem => ?_⟩
  rcases List.mem_cons.mp hmem with heq | hmem
  · exact hentry heq.symm
  · exact hlater hmem

theorem reported_written (notification : LapasProtocol chrono) (log : List (Entry chrono)) :
    Reported notification (.written notification :: log) :=
  ⟨[], log, rfl, List.not_mem_nil⟩

/-! ### One step -/

theorem NotificationService.Inv.start (h : (notificationService chrono).start s) : s.Inv := by
  obtain ⟨channel, rfl⟩ := h
  refine ⟨fun _ => ⟨(fun heq => nomatch heq), fun heq => nomatch heq⟩, ?_, ?_⟩
  · intro next hnext
    cases hnext
    exact Nat.le_refl _
  · intro _ notification hmem
    cases hmem

/-- A notification that is sent waits in the channel. -/
theorem NotificationService.Inv.send (h : s.Inv) (notification : LapasProtocol chrono) :
    NotificationService.Inv { s with
      channel := s.channel ++ [notification], log := .sent notification :: s.log } := by
  have hposition : ∀ next, s.forwarder.position = some next →
      (s.channel ++ [notification]).drop next = s.channel.drop next ++ [notification] :=
    fun next hnext => List.drop_append_of_le_length (h.position_le next hnext)
  have hunreceived : s.accepts = true →
      s.forwarder.unreceived (s.channel ++ [notification]) =
        s.forwarder.unreceived s.channel ++ [notification] := by
    intro haccepts
    obtain ⟨hdead, habsent⟩ := h.alive haccepts
    cases hforwarder : s.forwarder with
    | absent => exact absurd hforwarder habsent
    | dead => exact absurd hforwarder hdead
    | waiting next => exact hposition next (by rw [hforwarder]; rfl)
    | sending next packet => exact hposition next (by rw [hforwarder]; rfl)
  refine ⟨h.alive, fun next hnext => ?_, fun haccepts notification' hmem => ?_⟩
  · exact Nat.le_trans (h.position_le next hnext) (by simp)
  · show _ ∨ notification' ∈ s.forwarder.carried ++ s.forwarder.unreceived _
    rw [hunreceived haccepts, ← List.append_assoc]
    by_cases heq : notification' = notification
    · subst heq
      exact Or.inr (List.mem_append_right _ (List.mem_singleton_self _))
    · have hold : .sent notification' ∈ s.log := by
        rcases List.mem_cons.mp hmem with hnew | hold
        · cases hnew
          exact absurd rfl heq
        · exact hold
      refine (h.on_way haccepts notification' hold).imp (fun hreported => ?_)
        (List.mem_append_left _)
      exact hreported.cons fun hsent => heq (Entry.sent.inj hsent).symm

/-- A task that is in time receives the notification that waits. -/
theorem NotificationService.Inv.receive (h : s.Inv) {next : ℕ}
    (hforwarder : s.forwarder = .waiting next)
    (htimely : (s.forwarder.unreceived s.channel).length ≤ 1)
    {received : Broadcast.Received (LapasProtocol chrono)} {next' : ℕ}
    (hreceive : Broadcast.receive 1 s.channel next = some (received, next')) :
    ∃ notification, received = .value notification ∧
      NotificationService.Inv { s with forwarder := .sending next' notification } := by
  have hlength : (s.channel.drop next).length ≤ 1 := by
    rw [hforwarder] at htimely
    exact htimely
  rw [List.length_drop] at hlength
  have hkeeps : Broadcast.Keeps 1 s.channel next :=
    ⟨h.position_le next (by rw [hforwarder]; rfl), by omega⟩
  obtain ⟨notification, rfl, rfl, hdrop, hkeeps'⟩ := hkeeps.receive hreceive
  refine ⟨notification, rfl, fun _ => ⟨(fun heq => nomatch heq), fun heq => nomatch heq⟩, ?_, ?_⟩
  · intro position hposition
    cases hposition
    exact hkeeps'.next_le
  · intro haccepts notification' hmem
    have hway := h.on_way haccepts notification' hmem
    rw [hforwarder] at hway
    change _ ∨ notification' ∈ s.channel.drop next at hway
    rw [hdrop] at hway
    exact hway

/-- Pings leave the channel alone. -/
theorem NotificationService.Inv.ping (h : s.Inv) {next : ℕ}
    (hforwarder : s.forwarder = .waiting next) :
    NotificationService.Inv { s with forwarder := .sending next .controlPing } := by
  refine ⟨fun _ => ⟨(fun heq => nomatch heq), fun heq => nomatch heq⟩, ?_, ?_⟩
  · intro position hposition
    exact h.position_le position (by rw [hforwarder]; exact hposition)
  · intro haccepts notification hmem
    refine (h.on_way haccepts notification hmem).imp_right fun hway => ?_
    rw [hforwarder] at hway
    exact List.mem_cons_of_mem _ hway

/-- The packet that was carried has been written. -/
theorem NotificationService.Inv.written (h : s.Inv) {next : ℕ} {packet : LapasProtocol chrono}
    (hforwarder : s.forwarder = .sending next packet) :
    NotificationService.Inv { s with
      forwarder := .waiting next, log := .written packet :: s.log } := by
  refine ⟨fun _ => ⟨(fun heq => nomatch heq), fun heq => nomatch heq⟩, ?_, ?_⟩
  · intro position hposition
    exact h.position_le position (by rw [hforwarder]; exact hposition)
  · intro haccepts notification hmem
    have hold : .sent notification ∈ s.log :=
      (List.mem_cons.mp hmem).resolve_left fun heq => nomatch heq
    rcases h.on_way haccepts notification hold with hreported | hway
    · exact Or.inl (hreported.cons fun heq => nomatch heq)
    · rw [hforwarder] at hway
      rcases List.mem_cons.mp hway with rfl | hwaiting
      · exact Or.inl (reported_written _ _)
      · exact Or.inr hwaiting

/-- **The step lemma.** -/
theorem NotificationService.Inv.step (h : s.Inv) {e : NotificationService.Event chrono}
    (htimely : Timely s e) (hstep : s.step e = some s') : s'.Inv := by
  cases e with
  | send notification =>
    cases hstep
    exact h.send notification
  | receive =>
    simp only [NotificationService.step] at hstep
    split at hstep
    · rename_i next hforwarder
      obtain ⟨⟨received, next'⟩, hreceive, rfl⟩ := Option.map_eq_some_iff.mp hstep
      obtain ⟨notification, rfl, hinv⟩ := h.receive hforwarder htimely hreceive
      exact hinv
    · cases hstep
  | ping =>
    simp only [NotificationService.step] at hstep
    split at hstep
    · rename_i next hforwarder
      cases hstep
      exact h.ping hforwarder
    · cases hstep
  | written =>
    simp only [NotificationService.step] at hstep
    split at hstep
    · rename_i next packet hforwarder
      cases hstep
      exact h.written hforwarder
    · cases hstep
  | refused =>
    simp only [NotificationService.step] at hstep
    split at hstep
    · cases hstep
      -- the connection does not accept writes any more
      exact ⟨(fun haccepts => nomatch haccepts), (fun _ hnext => nomatch hnext),
        fun haccepts => nomatch haccepts⟩
    · cases hstep

/-! ### Runs -/

/-- The steps of the forwarder of a connection of the daemon are steps of the service. -/
theorem step_of_linkStep {ι : Type} {setup : Setup ι} {auth : ApiAuth} {t t' : Coherence chrono}
    {l : Link chrono} {e : Coherence.Event chrono}
    (he : e = .receive ∨ e = .forward ∨ e = .forwardPing)
    (hstep : t.linkStep setup auth l e = some t') (log : List (Entry chrono)) :
    ∃ l' e' log', t' = t.setLink l' ∧
      NotificationService.step ⟨t.channel, l.forwarder, true, log⟩ e' =
        some ⟨t.channel, l'.forwarder, true, log'⟩ := by
  rcases he with rfl | rfl | rfl
  · simp only [Coherence.linkStep] at hstep
    split at hstep
    · rename_i next hforwarder
      obtain ⟨⟨received, next'⟩, hreceive, rfl⟩ := Option.map_eq_some_iff.mp hstep
      refine ⟨_, .receive, log, rfl, ?_⟩
      cases received <;> simp [NotificationService.step, hforwarder, hreceive]
    · cases hstep
  · simp only [Coherence.linkStep] at hstep
    split at hstep
    · rename_i next packet hforwarder
      cases hstep
      refine ⟨_, .written, .written packet :: log, rfl, ?_⟩
      simp only [NotificationService.step, hforwarder]
    · cases hstep
  · simp only [Coherence.linkStep] at hstep
    split at hstep
    · rename_i next hforwarder
      cases hstep
      refine ⟨_, .ping, log, rfl, ?_⟩
      simp only [NotificationService.step, hforwarder]
    · cases hstep

theorem NotificationService.Inv.delivers (h : s.Inv) : Delivers s := by
  refine ⟨fun haccepts => (h.alive haccepts).1, fun haccepts hunreceived notification hmem => ?_⟩
  refine (h.on_way haccepts notification hmem).imp_right fun hway => ?_
  rw [hunreceived, List.append_nil] at hway
  cases hforwarder : s.forwarder with
  | sending next packet =>
    rw [hforwarder] at hway
    rw [List.mem_singleton.mp hway]
    rfl
  | absent | waiting _ | dead =>
    rw [hforwarder] at hway
    cases hway

theorem inv_of_reach_timely (h : (notificationService chrono).Reach Timely s) : s.Inv := by
  refine h.invariant (fun s hs => ?_) fun s e s' hs htimely hstep => hs.step htimely hstep
  exact NotificationService.Inv.start hs

/-- **When the forwarder always receives before a second notification is sent, it goes on as
long as its connection accepts writes, and no notification is lost.** -/
theorem delivers_of_timely (h : (notificationService chrono).Reach Timely s) : Delivers s :=
  (inv_of_reach_timely h).delivers

/-- A user is registered, and the forwarder writes the notification. -/
theorem delivers_of_timely_users : ∃ s : NotificationService epoch,
    (notificationService epoch).Reach Timely s ∧
    s.log = [.written .notifyUsersChanged, .sent .notifyUsersChanged] ∧ Delivers s := by
  have hstart : (notificationService epoch).Reach Timely ⟨[], .waiting 0, true, []⟩ :=
    .start ⟨[], rfl⟩
  have hsent : (notificationService epoch).Reach Timely ⟨[.notifyUsersChanged], .waiting 0, true,
      [.sent .notifyUsersChanged]⟩ := .step hstart (e := .send .notifyUsersChanged) trivial rfl
  have hreceived : (notificationService epoch).Reach Timely ⟨[.notifyUsersChanged],
      .sending 1 .notifyUsersChanged, true, [.sent .notifyUsersChanged]⟩ :=
    .step hsent (e := .receive) (Nat.le_refl 1) rfl
  have hwritten : (notificationService epoch).Reach Timely ⟨[.notifyUsersChanged],
      .waiting 1, true, [.written .notifyUsersChanged, .sent .notifyUsersChanged]⟩ :=
    .step hreceived (e := .written) trivial rfl
  exact ⟨_, hwritten, rfl, delivers_of_timely hwritten⟩

/-- A task that has missed a notification ends when it receives. -/
theorem not_delivers_of_late (haccepts : s.accepts = true)
    (hlate : ¬ Timely s .receive) (hstep : s.step .receive = some s') : ¬ Delivers s' := by
  simp only [NotificationService.step] at hstep
  split at hstep
  · rename_i next hforwarder
    have hlength : 1 < (s.channel.drop next).length := by
      have hlate : ¬ (s.forwarder.unreceived s.channel).length ≤ 1 := hlate
      rw [hforwarder] at hlate
      exact Nat.lt_of_not_le hlate
    rw [List.length_drop] at hlength
    rw [Broadcast.receive, if_pos (by omega)] at hstep
    cases hstep
    exact fun hdelivers => hdelivers.1 haccepts rfl
  · cases hstep

end

/-- No run loses a notification: in every state that is reached each one sent is written, or still
waits. -/
def NotificationsDelivered (chrono : Chrono) : Prop :=
  ∀ s : NotificationService chrono,
    (notificationService chrono).Reach (fun _ _ => True) s → Delivers s

/-- Two users are registered before the forwarder receives: it ends. -/
theorem not_notificationsDelivered : ¬ NotificationsDelivered epoch := by
  intro h
  have hstart : (notificationService epoch).Reach (fun _ _ => True) ⟨[], .waiting 0, true, []⟩ :=
    .start ⟨[], rfl⟩
  have hsent : (notificationService epoch).Reach (fun _ _ => True)
      ⟨[.notifyUsersChanged, .notifyUsersChanged], .waiting 0, true,
        [.sent .notifyUsersChanged, .sent .notifyUsersChanged]⟩ :=
    .step (.step hstart (e := .send .notifyUsersChanged) trivial rfl)
      (e := .send .notifyUsersChanged) trivial rfl
  have hdead : (notificationService epoch).Reach (fun _ _ => True)
      ⟨[.notifyUsersChanged, .notifyUsersChanged], .dead, true,
        [.sent .notifyUsersChanged, .sent .notifyUsersChanged]⟩ :=
    .step hsent (e := .receive) trivial rfl
  exact (h _ hdead).1 rfl rfl

end Server
end Lapas
