import Lapas.Client.Commands
import Lapas.Daemon.AuthServer

/-!
# What the commands report

Between its first packet and its result a command passes through a few stages, in each of which
it is fixed what is on its way and what the task of the server is doing.  No step of anybody
leaves the stages, so what a command reports in the end is an answer to its own request.

## Main definitions

* `Stage` — the stages of a command.
* `Commands.Holds`, `Commands.Inv` — the invariant, with what has happened in a run.

## Main results

* `Stage.send`, `Stage.receive`, `Stage.handle`, `Stage.serve` — the steps of a command, of its
  connection and of its task at the server.
* `unmoved_of_step` — a step of another client.
* `grows_of_run` — the server forgets nothing.
* `outcome_of_run` — **in every run, the result of a command is what has happened.**
-/

namespace Lapas
namespace Client

open Proto Server

variable {chrono : Chrono} {ι : Type}

/-! ### Where a command and its connection are -/

/-- The task of the server waits for a packet of the command, or has ended. -/
def Waiting (handler : Handler chrono) : Prop := handler = .idle ∨ handler = .stopped

section

variable (setup : Setup ι) (past : Commands ι chrono → Commands.Event ι chrono → Prop)
  (server : ApiServer ι chrono) (client : ι) (args : CliArgs)

/-- The command, what is on its way, and the task of the server. -/
inductive Stage :
    Task → List (LapasProtocol chrono) → Handler chrono → List (LapasProtocol chrono) → Prop
  | connecting {handler : Handler chrono} (h : handler = .handshake ∨ handler = .stopped)
    (hauth : args.apiPassword ≠ none) : Stage .connecting [] handler []
  | greeting {handler : Handler chrono} (h : handler = .handshake ∨ handler = .stopped)
    (hauth : args.apiPassword ≠ none) :
    Stage .handshake [.controlHandshake version] handler []
  | greeted (hauth : args.apiPassword ≠ none) :
    Stage .handshake [] (.sending (.controlHandshakeResponse (.ok ())) true) []
  | welcome {handler : Handler chrono} (h : Waiting handler) (hauth : args.apiPassword ≠ none) :
    Stage .handshake [] handler [.controlHandshakeResponse (.ok ())]
  | unwelcome (hauth : args.apiPassword ≠ none) : Stage .handshake [] .stopped []
  | connected {handler : Handler chrono} (h : Waiting handler) (hauth : args.apiPassword ≠ none) :
    Stage .connected [] handler []
  | asking {handler : Handler chrono} {packet : LapasProtocol chrono} (h : Waiting handler)
    (hrequest : request args = .ok packet) : Stage .requested [packet] handler []
  | serving {handler : Handler chrono} (h : Serving setup past server client args handler) :
    Stage .requested [] handler []
  | answered {handler : Handler chrono} {packet : LapasProtocol chrono} (h : Waiting handler)
    (hanswered : Answered setup past client args packet) : Stage .requested [] handler [packet]
  | returned {result : Except Error (List String)} {up down : List (LapasProtocol chrono)}
    {handler : Handler chrono} (h : Outcome setup past client args result) :
    Stage (.returned result) up handler down

end

section

variable {setup : Setup ι} {past past' : Commands ι chrono → Commands.Event ι chrono → Prop}
  {server server' : ApiServer ι chrono} {client : ι} {args : CliArgs} {task task' : Task}
  {up down packets : List (LapasProtocol chrono)} {handler : Handler chrono}

/-- What other clients do leaves a command where it is. -/
theorem Stage.mono (hpast : ∀ s e, past s e → past' s e) (hgrows : Grows server server')
    (h : Stage setup past server client args task up handler down) :
    Stage setup past' server' client args task up handler down := by
  cases h with
  | connecting h hauth => exact .connecting h hauth
  | greeting h hauth => exact .greeting h hauth
  | greeted hauth => exact .greeted hauth
  | welcome h hauth => exact .welcome h hauth
  | unwelcome hauth => exact .unwelcome hauth
  | connected h hauth => exact .connected h hauth
  | asking h hrequest => exact .asking h hrequest
  | serving h => exact .serving (h.mono hpast hgrows)
  | answered h hanswered => exact .answered h (hanswered.mono hpast)
  | returned h => exact .returned (h.mono hpast)

/-- With a password on the command line, there is a request. -/
theorem exists_request (chrono : Chrono) (hauth : args.apiPassword ≠ none) :
    ∃ packet : LapasProtocol chrono, request args = .ok packet := by
  obtain ⟨_ | apiPassword, command⟩ := args
  · exact absurd rfl hauth
  · cases command <;> exact ⟨_, rfl⟩

/-- The command sends its next packet. -/
theorem Stage.send (h : Stage setup past server client args task up handler down)
    (hsend : task.send args = some (task', packets)) :
    Stage setup past server client args task' (up ++ packets) handler down := by
  cases h with
  | connecting h hauth =>
    cases hsend
    exact .greeting h hauth
  | connected h hauth =>
    obtain ⟨packet, hpacket⟩ := exists_request chrono hauth
    rw [Task.send, hpacket] at hsend
    cases hsend
    exact .asking h hpacket
  | _ => cases hsend

/-- A packet arrives at the command. -/
theorem Stage.receive {packet : LapasProtocol chrono}
    (h : Stage setup past server client args task up handler (packet :: down))
    (hreceive : task.receive args.command packet = some task') :
    Stage setup past server client args task' up handler down := by
  cases h with
  | welcome h hauth =>
    cases hreceive
    exact .connected h hauth
  | answered h hanswered =>
    cases hreceive
    exact .returned (.answered hanswered)
  | returned h => cases hreceive

/-- The connection of the command fails. -/
theorem Stage.lose {s : Commands ι chrono} (hnow : past s (.lose client))
    (hlose : task.lose = some task') :
    Stage setup past server client args task' up handler down := by
  have htask : task' = .returned (.error .io) := by
    cases task <;> cases hlose <;> rfl
  rw [htask]
  exact .returned (.io hnow)

/-- The server matches on a packet of the command. -/
theorem Stage.handle {s : Commands ι chrono} {packet : LapasProtocol chrono}
    {session session' : Session chrono} (hnow : past s (.handle client))
    (hup : (s.up client).head? = some packet)
    (h : Stage setup past server client args task (packet :: up) session.handler down)
    (hreceive : session.receive "Incompatible Protocol Version" (handleClient setup) packet =
      some session') : Stage setup past server client args task up session'.handler down := by
  generalize hhandler : session.handler = handler at h
  cases h with
  | greeting h hauth =>
    rcases h with rfl | rfl
    · rw [Session.receive, hhandler] at hreceive
      cases hreceive
      exact .greeted hauth
    · rw [Session.receive, hhandler] at hreceive
      cases hreceive
  | asking h hrequest =>
    rcases h with rfl | rfl
    · rw [Session.receive, hhandler] at hreceive
      cases hreceive
      exact .serving (serving_handleClient hnow hup hrequest)
    · rw [Session.receive, hhandler] at hreceive
      cases hreceive
  | returned h => exact .returned h

end

section

variable [DecidableEq ι] {setup : Setup ι}
  {past past' : Commands ι chrono → Commands.Event ι chrono → Prop} {s : Commands ι chrono}
  {server' : ApiServer ι chrono} {client : ι} {args : CliArgs} {task : Task}
  {up down : List (LapasProtocol chrono)}

/-- Another step of the server for the command. -/
theorem Stage.serve
    (h : Stage setup past s.server client args task up (s.server.sessions client).handler down)
    (hlocked : s.server.Locked setup) (hlistener : client ∉ s.server.listeners)
    {e : ApiServer.Event chrono} (hrecv : ∀ packet, e ≠ .recv packet)
    (hpast : ∀ s e, past s e → past' s e) (hnow : past' s (.serve client e))
    (hstep : s.server.step setup client e = some server') :
    Stage setup past' server' client args task up (server'.sessions client).handler
      (down ++ sent s.server client e) := by
  -- a task that waits for a packet can only be cut off
  have hcut : (s.server.sessions client).handler = .handshake ∨
      (s.server.sessions client).handler = .idle ∨
        (s.server.sessions client).handler = .stopped →
      (server'.sessions client).handler = .stopped ∧
        down ++ sent s.server client e = down := by
    intro hwaiting
    obtain ⟨hstopped, hsent⟩ := serve_of_waiting hwaiting hlistener hrecv hstep
    exact ⟨hstopped, by rw [hsent, List.append_nil]⟩
  generalize hhandler : (s.server.sessions client).handler = handler at h hcut
  cases h with
  | connecting h hauth =>
    obtain ⟨hstopped, hdown⟩ := hcut (h.imp_right .inr)
    rw [hdown]
    exact .connecting (.inr hstopped) hauth
  | greeting h hauth =>
    obtain ⟨hstopped, hdown⟩ := hcut (h.imp_right .inr)
    rw [hdown]
    exact .greeting (.inr hstopped) hauth
  | greeted hauth =>
    rcases serve_of_sending hhandler hlistener hrecv hstep with ⟨hstopped, hsent⟩ | ⟨hidle, hsent⟩
    · rw [hstopped, hsent]
      exact .unwelcome hauth
    · rw [hsent]
      exact .welcome (.inl hidle) hauth
  | welcome h hauth =>
    obtain ⟨hstopped, hdown⟩ := hcut (.inr h)
    rw [hdown]
    exact .welcome (.inr hstopped) hauth
  | unwelcome hauth =>
    obtain ⟨hstopped, hdown⟩ := hcut (.inr (.inr rfl))
    rw [hstopped, hdown]
    exact .unwelcome hauth
  | connected h hauth =>
    obtain ⟨hstopped, hdown⟩ := hcut (.inr h)
    rw [hdown]
    exact .connected (.inr hstopped) hauth
  | asking h hrequest =>
    obtain ⟨hstopped, hdown⟩ := hcut (.inr h)
    rw [hdown]
    exact .asking (.inr hstopped) hrequest
  | serving h =>
    rw [← hhandler] at h
    rcases h.serve hlocked hlistener hrecv hpast hnow hstep with
      ⟨h, hsent⟩ | ⟨packet, hanswered, hsent, hwaiting⟩
    · rw [hsent]
      exact .serving h
    · rw [hsent]
      exact .answered hwaiting hanswered
  | answered h hanswered =>
    obtain ⟨hstopped, hdown⟩ := hcut (.inr h)
    rw [hdown]
    exact .answered (.inr hstopped) (hanswered.mono hpast)
  | returned h => exact .returned (h.mono hpast)

end

/-! ### Whole runs -/

section

variable {setup : Setup ι} {past past' : Commands ι chrono → Commands.Event ι chrono → Prop}
  {s s' : Commands ι chrono}

/-- The request of a command is not to register. -/
theorem request_ne {a : CliArgs} {packet : LapasProtocol chrono} (h : request a = .ok packet) :
    packet ≠ .controlListenEvents := by
  obtain ⟨apiPassword, command⟩ := a
  unfold request at h
  cases command with
  | listUsers =>
    cases h
    exact fun heq => by cases heq
  | _ =>
    obtain ⟨auth, -, h⟩ := exists_of_bind_ok h
    cases h
    exact fun heq => by cases heq

theorem Task.not_mem_send {a : CliArgs} {task task' : Task} {packets : List (LapasProtocol chrono)}
    (h : task.send a = some (task', packets)) : .controlListenEvents ∉ packets := by
  unfold Task.send at h
  split at h
  · cases h
    simp
  · split at h
    · next packet hrequest =>
      cases h
      exact fun hmem => request_ne hrequest (List.mem_singleton.mp hmem).symm
    · cases h
      exact List.not_mem_nil
  · cases h

/-- Only the packet for it starts a registration. -/
theorem eq_of_handleClient {packet : LapasProtocol chrono}
    (h : handleClient setup packet = .registering) : packet = .controlListenEvents := by
  cases packet with
  | controlListenEvents => rfl
  | controlCheckAuth | userRegister | userDnsMapping | shadowGetList =>
    rw [handleClient] at h
    rcases handleRequest_eq h with h | h | ⟨h, -⟩ <;> cases h
  | _ => cases h

theorem handler_receive_ne {session session' : Session chrono} {packet : LapasProtocol chrono}
    (h : session.receive "Incompatible Protocol Version" (handleClient setup) packet =
      some session') (hpacket : packet ≠ .controlListenEvents) :
    session'.handler ≠ .registering := by
  unfold Session.receive at h
  split at h
  · cases h
    unfold receiveHandshake
    dsimp only
    split
    · split <;> exact fun heq => by cases heq
    · exact fun heq => by cases heq
  · cases h
    exact fun heq => hpacket (eq_of_handleClient heq)
  · cases h

/-- The client whose command, connection or task makes the step. -/
def Commands.Event.client : Commands.Event ι chrono → ι
  | .send client | .receive client | .lose client | .other client _ | .handle client
  | .serve client _ => client

/-- A command, its connection, and the packets that it never sends. -/
structure Commands.Holds (setup : Setup ι)
    (past : Commands ι chrono → Commands.Event ι chrono → Prop) (s : Commands ι chrono) (client : ι)
    (a : CliArgs) : Prop where
  stage : Stage setup past s.server client a (s.tasks client) (s.up client)
    (s.server.sessions client).handler (s.down client)
  listener : client ∉ s.server.listeners
  handler : (s.server.sessions client).handler ≠ .registering
  up : .controlListenEvents ∉ s.up client

/-- What a step of another client cannot change. -/
structure Unmoved (s s' : Commands ι chrono) (client : ι) : Prop where
  tasks : s'.tasks client = s.tasks client
  up : s'.up client = s.up client
  down : s'.down client = s.down client
  session : s'.server.sessions client = s.server.sessions client
  grows : Grows s.server s'.server
  listener : client ∉ s.server.listeners → (s.server.sessions client).handler ≠ .registering →
    client ∉ s'.server.listeners

theorem Commands.Holds.of_unmoved {client : ι} {a : CliArgs} (h : s.Holds setup past client a)
    (hpast : ∀ s e, past s e → past' s e) (hunmoved : Unmoved s s' client) :
    s'.Holds setup past' client a where
  stage := by
    rw [hunmoved.tasks, hunmoved.up, hunmoved.down, hunmoved.session]
    exact h.stage.mono hpast hunmoved.grows
  listener := hunmoved.listener h.listener h.handler
  handler := by
    rw [hunmoved.session]
    exact h.handler
  up := by
    rw [hunmoved.up]
    exact h.up

end

section

variable [DecidableEq ι] {setup : Setup ι} {args : ι → Option CliArgs}
  {past past' : Commands ι chrono → Commands.Event ι chrono → Prop} {s s' : Commands ι chrono}

/-- No other step of a task starts one. -/
theorem handler_serve_ne {server server' : ApiServer ι chrono} {client : ι}
    {e : ApiServer.Event chrono} (hrecv : ∀ packet, e ≠ .recv packet)
    (h : server.step setup client e = some server')
    (hne : (server.sessions client).handler ≠ .registering) :
    (server'.sessions client).handler ≠ .registering := by
  have hforward : ∀ packet, server.forward client packet = some server' →
      (server'.sessions client).handler ≠ .registering := by
    intro packet h
    unfold ApiServer.forward at h
    split at h <;> cases h
    exact hne
  cases e with
  | recv packet => exact absurd rfl (hrecv packet)
  | forward i =>
    obtain ⟨packet, -, h⟩ := Option.bind_eq_some_iff.mp h
    exact hforward packet h
  | ping => exact hforward _ h
  | hangUp =>
    obtain ⟨session, hsession, rfl⟩ := Option.map_eq_some_iff.mp h
    unfold Session.hangUp at hsession
    split at hsession <;> cases hsession <;> simp
  | send ok =>
    obtain ⟨session, hsession, rfl⟩ := Option.map_eq_some_iff.mp h
    unfold Session.deliver at hsession
    split at hsession <;> cases hsession
    rw [ApiServer.sessions_setSession]
    dsimp only
    split <;> exact fun heq => by cases heq
  | _ =>
    simp only [ApiServer.step] at h
    repeat' split at h
    all_goals cases h
    all_goals simp [ApiServer.access, Session.access]

/-- A step of the server is one of the session of its client. -/
theorem sessions_of_step {server server' : ApiServer ι chrono} {client other : ι}
    {e : ApiServer.Event chrono} (h : server.step setup client e = some server')
    (hother : other ≠ client) : server'.sessions other = server.sessions other := by
  rcases moves_of_step h with hmoves | ⟨packet, -, hforward⟩
  · obtain ⟨session, -, hsessions⟩ := hmoves.session
    rw [hsessions, Function.update_of_ne hother]
  · unfold ApiServer.forward at hforward
    split at hforward <;> cases hforward
    rfl

/-- Only the clients that register become listeners. -/
theorem listeners_of_step {server server' : ApiServer ι chrono} {client other : ι}
    {e : ApiServer.Event chrono} (h : server.step setup client e = some server')
    (hother : other ∉ server.listeners)
    (hne : (server.sessions other).handler ≠ .registering) : other ∉ server'.listeners := by
  intro hmem
  rcases moves_of_step h with hmoves | ⟨packet, -, hforward⟩
  · rcases hmoves.listeners other hmem with hold | ⟨rfl, hregistering⟩
    · exact hother hold
    · exact hne hregistering
  · unfold ApiServer.forward at hforward
    split at hforward <;> cases hforward
    exact hother hmem

/-- A step of one client leaves the others alone. -/
theorem unmoved_of_step {e : Commands.Event ι chrono} (h : s.step setup args e = some s')
    {other : ι} (hother : other ≠ e.client) : Unmoved s s' other := by
  -- a step of the server for one client leaves the sessions of the others alone
  have hserver : ∀ {server' : ApiServer ι chrono} {e' : ApiServer.Event chrono},
      s.server.step setup e.client e' = some server' → ∀ up down,
      up other = s.up other → down other = s.down other →
      Unmoved s { s with server := server', up, down } other :=
    fun hstep up down hup hdown =>
      ⟨rfl, hup, hdown, sessions_of_step hstep hother, grows_of_step hstep,
        listeners_of_step hstep⟩
  -- and so does a step of a command
  have hlocal : ∀ tasks up down, tasks other = s.tasks other → up other = s.up other →
      down other = s.down other → Unmoved s { s with tasks, up, down } other :=
    fun tasks up down htasks hup hdown =>
      ⟨htasks, hup, hdown, rfl, .of_eq rfl rfl, fun hlistener _ => hlistener⟩
  have hupdate : ∀ {α : Type} (f : ι → α) (x : α), Function.update f e.client x other = f other :=
    fun f x => Function.update_of_ne hother x f
  cases e with
  | send client =>
    simp only [Commands.step] at h
    split at h
    · cases h
    · obtain ⟨_, -, rfl⟩ := Option.map_eq_some_iff.mp h
      exact hlocal _ _ _ (hupdate _ _) (hupdate _ _) rfl
  | receive client =>
    simp only [Commands.step] at h
    split at h
    · obtain ⟨_, -, rfl⟩ := Option.map_eq_some_iff.mp h
      exact hlocal _ _ _ (hupdate _ _) rfl (hupdate _ _)
    · cases h
  | lose client =>
    simp only [Commands.step] at h
    split at h
    · cases h
    · obtain ⟨_, -, rfl⟩ := Option.map_eq_some_iff.mp h
      exact hlocal _ _ _ (hupdate _ _) rfl rfl
  | other client packet =>
    simp only [Commands.step] at h
    split at h <;> cases h
    exact hlocal _ _ _ rfl (hupdate _ _) rfl
  | handle client =>
    simp only [Commands.step] at h
    split at h
    · cases h
    · obtain ⟨_, hstep, rfl⟩ := Option.map_eq_some_iff.mp h
      exact hserver hstep _ _ (hupdate _ _) rfl
  | serve client e' =>
    simp only [Commands.step] at h
    split at h
    · cases h
    · obtain ⟨_, hstep, rfl⟩ := Option.map_eq_some_iff.mp h
      exact hserver hstep _ _ rfl (hupdate _ _)

/-- A step of the system is none of the server, or one of it. -/
theorem server_of_step {e : Commands.Event ι chrono} (h : s.step setup args e = some s') :
    s'.server = s.server ∨ ∃ e', s.server.step setup e.client e' = some s'.server := by
  cases e with
  | send client =>
    simp only [Commands.step] at h
    split at h
    · cases h
    · obtain ⟨⟨task, packets⟩, -, rfl⟩ := Option.map_eq_some_iff.mp h
      exact .inl rfl
  | receive client =>
    simp only [Commands.step] at h
    split at h
    · obtain ⟨task, -, rfl⟩ := Option.map_eq_some_iff.mp h
      exact .inl rfl
    · cases h
  | lose client =>
    simp only [Commands.step] at h
    split at h
    · cases h
    · obtain ⟨task, -, rfl⟩ := Option.map_eq_some_iff.mp h
      exact .inl rfl
  | other client packet =>
    simp only [Commands.step] at h
    split at h <;> cases h
    exact .inl rfl
  | handle client =>
    simp only [Commands.step] at h
    split at h
    · cases h
    · obtain ⟨server', hserver, rfl⟩ := Option.map_eq_some_iff.mp h
      exact .inr ⟨_, hserver⟩
  | serve client e =>
    simp only [Commands.step] at h
    split at h
    · cases h
    · obtain ⟨server', hserver, rfl⟩ := Option.map_eq_some_iff.mp h
      exact .inr ⟨_, hserver⟩

/-- A step of a command, of its connection or of its task at the server. -/
theorem Commands.Holds.step {e : Commands.Event ι chrono} {a : CliArgs}
    (ha : args e.client = some a) (h : s.Holds setup past e.client a)
    (hlocked : s.server.Locked setup) (hpast : ∀ s e, past s e → past' s e) (hnow : past' s e)
    (hstep : s.step setup args e = some s') : s'.Holds setup past' e.client a := by
  obtain ⟨hstage, hlistener, hne, hup⟩ := h
  -- a step of the client moves it on; a step of the server moves its request on
  cases e with
  | send client =>
    simp only [Commands.Event.client] at ha
    simp only [Commands.step, ha] at hstep
    obtain ⟨⟨task, packets⟩, hsend, rfl⟩ := Option.map_eq_some_iff.mp hstep
    refine ⟨?_, hlistener, hne, ?_⟩
    · simp only [Commands.Event.client, Function.update_self]
      exact (hstage.send hsend).mono hpast (.of_eq rfl rfl)
    · simp only [Commands.Event.client, Function.update_self, List.mem_append, not_or]
      exact ⟨hup, Task.not_mem_send hsend⟩
  | receive client =>
    simp only [Commands.Event.client] at ha
    simp only [Commands.step, ha] at hstep
    split at hstep
    · next packet rest heq hdown =>
      cases heq
      obtain ⟨task, hreceive, rfl⟩ := Option.map_eq_some_iff.mp hstep
      refine ⟨?_, hlistener, hne, hup⟩
      simp only [Commands.Event.client, Function.update_self]
      simp only [Commands.Event.client, hdown] at hstage
      exact (hstage.receive hreceive).mono hpast (.of_eq rfl rfl)
    · cases hstep
  | lose client =>
    simp only [Commands.Event.client] at ha
    simp only [Commands.step, ha] at hstep
    obtain ⟨task, hlose, rfl⟩ := Option.map_eq_some_iff.mp hstep
    refine ⟨?_, hlistener, hne, hup⟩
    simp only [Commands.Event.client, Function.update_self]
    -- whatever the command was waiting for, it fails
    exact Stage.lose hnow hlose
  | other client packet =>
    simp only [Commands.Event.client] at ha
    simp only [Commands.step, ha] at hstep
    cases hstep
  | handle client =>
    simp only [Commands.Event.client] at *
    simp only [Commands.step] at hstep
    split at hstep
    · cases hstep
    · next packet rest hupEq =>
      obtain ⟨server', hserver, rfl⟩ := Option.map_eq_some_iff.mp hstep
      have hlistener' := listeners_of_step hserver hlistener hne
      have hgrows := grows_of_step hserver
      have hhead : (s.up client).head? = some packet := by rw [hupEq, List.head?_cons]
      obtain ⟨session, hsession, rfl⟩ := Option.map_eq_some_iff.mp hserver
      -- the packet that the server takes is the first one that the command has sent
      rw [hupEq] at hstage hup
      rw [List.mem_cons, not_or] at hup
      refine ⟨?_, hlistener', ?_, ?_⟩
      · simp only [Function.update_self, ApiServer.sessions_setSession]
        exact (Stage.handle hnow hhead (hstage.mono hpast (.of_eq rfl rfl)) hsession).mono
          (fun _ _ => id) hgrows
      · simp only [ApiServer.sessions_setSession]
        exact handler_receive_ne hsession (Ne.symm hup.1)
      · simp only [Function.update_self]
        exact hup.2
  | serve client e' =>
    simp only [Commands.Event.client] at *
    simp only [Commands.step] at hstep
    split at hstep
    · cases hstep
    · next e' hrecv =>
      obtain ⟨server', hserver, rfl⟩ := Option.map_eq_some_iff.mp hstep
      refine ⟨?_, listeners_of_step hserver hlistener hne, ?_, hup⟩
      · simp only [Function.update_self]
        exact hstage.serve hlocked hlistener (fun packet heq => hrecv packet heq) hpast hnow hserver
      · exact handler_serve_ne (fun packet heq => hrecv packet heq) hserver hne

/-- All commands are where they should be, and the locks of the server are with their tasks. -/
structure Commands.Inv (setup : Setup ι) (args : ι → Option CliArgs)
    (past : Commands ι chrono → Commands.Event ι chrono → Prop) (s : Commands ι chrono) : Prop where
  locked : s.server.Locked setup
  holds : ∀ client a, args client = some a → s.Holds setup past client a

theorem Commands.Inv.step (h : s.Inv setup args past) {e : Commands.Event ι chrono}
    (hpast : ∀ s e, past s e → past' s e) (hnow : past' s e)
    (hstep : s.step setup args e = some s') : s'.Inv setup args past' where
  locked := by
    rcases server_of_step hstep with heq | ⟨e', hserver⟩
    · rw [heq]
      exact h.locked
    · exact h.locked.step hserver
  holds client a ha := by
    by_cases hclient : client = e.client
    · subst hclient
      exact (h.holds _ a ha).step ha h.locked hpast hnow hstep
    · exact (h.holds client a ha).of_unmoved hpast (unmoved_of_step hstep hclient)

theorem inv_of_start (h : (commands setup args chrono).start s) : s.Inv setup args past := by
  obtain ⟨index, hosts, rfl⟩ := h
  refine ⟨locked_of_reach (.start ⟨index, hosts, rfl⟩), fun client a ha => ?_⟩
  refine ⟨?_, List.not_mem_nil, (fun heq => by cases heq), List.not_mem_nil⟩
  simp only [ha, Option.elim_some, Task.main]
  split
  · next hnone => exact .returned (.unauthenticated (Option.isNone_iff_eq_none.mp hnone))
  · next hsome =>
    exact .connecting (.inl rfl) fun hnone => hsome (by rw [hnone]; rfl)

/-- The invariant holds in all states that are reached, whatever has happened. -/
theorem inv_of_reach (h : (commands setup args chrono).Reach (fun _ _ => True) s) :
    s.Inv setup args fun _ _ => True := by
  refine h.invariant (fun s hs => inv_of_start hs) fun s e s' hs _ hstep => ?_
  exact hs.step (fun _ _ => id) trivial hstep

/-- In a run, it speaks of what has happened. -/
theorem inv_of_run {start : Commands ι chrono} (hstart : (commands setup args chrono).start start)
    {events : List (Commands.Event ι chrono)}
    (hrun : (commands setup args chrono).run start events = some s) :
    s.Inv setup args ((commands setup args chrono).Happens start events) := by
  refine Machine.run_induction hrun
    (fun events s => s.Inv setup args ((commands setup args chrono).Happens start events))
    (inv_of_start hstart) fun events s e s' hrun hs hstep => ?_
  exact hs.step (fun _ _ h => h.concat e) (Machine.happens_concat_self hrun e) hstep

/-- **The server forgets nothing of a run.** -/
theorem grows_of_run {start : Commands ι chrono} {events : List (Commands.Event ι chrono)}
    (hrun : (commands setup args chrono).run start events = some s) :
    ∀ s₀ e, (commands setup args chrono).Happens start events s₀ e → Grows s₀.server s.server := by
  refine Machine.run_induction hrun (fun events s => ∀ s₀ e,
    (commands setup args chrono).Happens start events s₀ e → Grows s₀.server s.server) ?_
    fun events s e s' hrun ih hstep s₀ e₀ h => ?_
  · rintro s₀ e ⟨earlier, later, heq, -⟩
    exact absurd heq (by simp)
  have hgrows : Grows s.server s'.server := by
    rcases server_of_step hstep with heq | ⟨e', hserver⟩
    · exact .of_eq (by rw [heq]) (by rw [heq])
    · exact grows_of_step hserver
  rcases (Machine.happens_concat_iff hrun).mp h with h | ⟨rfl, rfl⟩
  · exact (ih s₀ e₀ h).trans hgrows
  · exact hgrows

/-- **What a command reports is true.**  In every run of commands, of other clients that send
anything, and of the tasks of the server, a command that has returned reports what the task of the
server has done for its request, or why it was refused; or its connection has failed, or it was
started without a password.  It never comes to an unexpected packet, and the server keeps the users
and the host files that there were at any time. -/
theorem outcome_of_run {start : Commands ι chrono}
    (hstart : (commands setup args chrono).start start)
    {events : List (Commands.Event ι chrono)}
    (hrun : (commands setup args chrono).run start events = some s) {client : ι} {a : CliArgs}
    (ha : args client = some a) {result : Except Error (List String)}
    (hresult : s.tasks client = .returned result) :
    Outcome setup ((commands setup args chrono).Happens start events) client a result ∧
      result ≠ .error .unexpectedResponse ∧
      ∀ s₀ e, (commands setup args chrono).Happens start events s₀ e →
        Grows s₀.server s.server := by
  have hstage := ((inv_of_run hstart hrun).holds client a ha).stage
  rw [hresult] at hstage
  cases hstage with
  | returned h => exact ⟨h, h.ne_unexpectedResponse, grows_of_run hrun⟩

end

/-- One command registers a user, the other one lists the users. -/
def twoCommands (client : Bool) : Option CliArgs :=
  some ⟨some "p", if client then .addUser "alice" "1234" else .listUsers⟩

/-- The first one comes as far as the writing of the index. -/
def writingEvents : List (Commands.Event Bool epoch) :=
  [.send true, .handle true, .serve true (.send true), .receive true, .send true, .handle true,
    .serve true (.addUser "salt" epochStart epochStart)]

/-- The index is written, and the users are listed. -/
def listedEvents : List (Commands.Event Bool epoch) :=
  [.send false, .handle false, .serve false (.send true), .receive false, .send false,
    .serve true (.written (.ok ())), .handle false, .serve false .list, .serve true (.send true),
    .serve false (.send true), .receive false, .receive true]

/-- Alice is registered while the users are listed, and both commands return. -/
theorem outcome_of_run_alice : ∃ (start s : Commands Bool epoch) (result result' :
    Except Error (List String)),
    (commands namesakesSetup twoCommands epoch).run start (writingEvents ++ listedEvents) = some s ∧
    s.tasks true = .returned result ∧ result = .ok ["User: alice was successfully created"] ∧
    s.tasks false = .returned result' ∧ result' = .ok ["10000: bob", "10001: alice"] ∧
    ∀ client a result, twoCommands client = some a → s.tasks client = .returned result →
      Outcome namesakesSetup ((commands namesakesSetup twoCommands epoch).Happens start
        (writingEvents ++ listedEvents)) client a result := by
  obtain ⟨start, hstart⟩ : ∃ start : Commands Bool epoch, start =
      ⟨⟨bobIndex, fun _ => none, none, none, [], [], fun _ => .accepted, []⟩,
        fun _ => .connecting, fun _ => [], fun _ => []⟩ := ⟨_, rfl⟩
  obtain ⟨s, hrun, htask, htask'⟩ : ∃ s,
      (commands namesakesSetup twoCommands epoch).run start (writingEvents ++ listedEvents) =
        some s ∧
      s.tasks true = .returned (.ok ["User: alice was successfully created"]) ∧
      s.tasks false = .returned (.ok (listing [⟨10000, "bob"⟩, ⟨10001, "alice"⟩])) := by
    subst hstart
    exact ⟨_, rfl, rfl, rfl⟩
  have hlisting : listing [⟨10000, "bob"⟩, ⟨10001, "alice"⟩] = ["10000: bob", "10001: alice"] := by
    rw [listing, List.mergeSort_of_pairwise (by decide)]
    decide +kernel
  rw [hlisting] at htask'
  refine ⟨start, s, _, _, hrun, htask, rfl, htask', rfl, fun client a result ha hresult => ?_⟩
  exact (outcome_of_run ⟨bobIndex, fun _ => none, hstart⟩ hrun ha hresult).1

end Client
end Lapas
