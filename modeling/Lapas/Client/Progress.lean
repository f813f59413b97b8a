import Lapas.Client.Outcomes
import Mathlib.Logic.Relation

/-!
# Commands come to an end

A command waits for the server, whose task waits for a lock, whose holder has to make steps of its
own.  None of this goes round in a circle: as long as its session is not cut off, a command can
always get to its answer by steps in which nothing fails.

## Main definitions

* `Commands.Event.Faultless` — the steps in which nothing fails.
* `Commands.Awaits`, `Commands.Advances` — those that a command depends on.
* `Commands.Returns` — they lead to an answer.

## Main results

* `exists_userLock_free`, `exists_dnsLock_free` — who has a lock can give it back.
* `returns_of_handler` — the task of the server can finish what it does for a command.
* `returns_of_reach` — **every command whose session is not cut off can come to its end.**
-/

namespace Lapas
namespace Client

open Proto Server Relation

variable {chrono : Chrono} {ι : Type}

/-! ### Steps without failures -/

/-- Nothing fails in the step: packets are sent and received, and the operations of the services
that can fail succeed. -/
inductive Commands.Event.Faultless : Commands.Event ι chrono → Prop
  | send (client : ι) : Faultless (.send client)
  | receive (client : ι) : Faultless (.receive client)
  | handle (client : ι) : Faultless (.handle client)
  | sent (client : ι) : Faultless (.serve client (.send true))
  | addUser (client : ι) (salt : String) (creationTs lastUpdateTs : chrono.DateTime) :
    Faultless (.serve client (.addUser salt creationTs lastUpdateTs))
  | written (client : ι) : Faultless (.serve client (.written (.ok ())))
  | createMapping (client : ι) : Faultless (.serve client (.createMapping (.ok ())))
  | landMapping (client : ι) (n : ℕ) : Faultless (.serve client (.landMapping n))
  | mapped (client : ι) : Faultless (.serve client (.mapped (.ok ())))
  | list (client : ι) : Faultless (.serve client .list)

section

variable [DecidableEq ι] (setup : Setup ι) (args : ι → Option CliArgs)

/-- The task of the client waits for a lock that the task of the other one has. -/
def Commands.Awaits (s : Commands ι chrono) (client holder : ι) : Prop :=
  match (s.server.sessions client).handler with
  | .running (.createUserHostMapping _) => s.server.dnsLock = some holder
  | .running _ => s.server.userLock = some holder
  | _ => False

/-- A step in which nothing fails, of a command, of its connection or of its task, or of the task
that has the lock which its task waits for. -/
def Commands.Advances (client : ι) (s s' : Commands ι chrono) : Prop :=
  ∃ e : Commands.Event ι chrono, e.Faultless ∧
    (e.client = client ∨ ∃ holder work, e = .serve holder work ∧ s.Awaits client holder) ∧
    s.step setup args e = some s'

/-- Such steps lead to the answer for a command. -/
def Commands.Returns (s : Commands ι chrono) (client : ι) : Prop :=
  ∃ s' result, ReflTransGen (Commands.Advances setup args client) s s' ∧
    s'.tasks client = .returned result ∧ result ≠ .error .io

end

/-- Where a command, its connection and its task at the server are. -/
structure Commands.Is (s : Commands ι chrono) (client : ι) (task : Task)
    (up : List (LapasProtocol chrono)) (handler : Handler chrono)
    (down : List (LapasProtocol chrono)) : Prop where
  tasks : s.tasks client = task
  up : s.up client = up
  handler : (s.server.sessions client).handler = handler
  down : s.down client = down

/-- What a command makes of an answer is not a failure of the connection. -/
theorem respond_ne_io (command : ClientCommand) (packet : LapasProtocol chrono) :
    respond command packet ≠ .error .io := by
  intro h
  unfold respond at h
  split at h
  · next result => cases result <;> cases h
  · next result => cases result <;> cases h
  · next result => cases result <;> cases h
  · next result => cases result <;> cases h
  · cases h

/-- With the parameters in its configuration, the check of the server does not panic. -/
theorem handleClient_ne_stopped {setup : Setup ι} (hcheck : ∀ auth, checkAuth setup auth ≠ none)
    (packet : LapasProtocol chrono) : handleClient setup packet ≠ .stopped := by
  have hrequest : ∀ {α : Type} {auth : ApiAuth}
      {responsePkt : Except String α → LapasProtocol chrono} {resultExpr : Handler chrono},
      resultExpr ≠ .stopped →
      handleRequest setup (some auth) responsePkt resultExpr ≠ .stopped := by
    intro α auth responsePkt resultExpr hne
    rw [handleRequest]
    split
    · exact absurd ‹_› (hcheck auth)
    · exact fun heq => by cases heq
    · exact hne
  cases packet with
  | controlCheckAuth | userRegister | userDnsMapping | shadowGetList =>
    exact hrequest fun heq => by cases heq
  | _ => exact fun heq => by cases heq

section

variable [DecidableEq ι] {setup : Setup ι} {args : ι → Option CliArgs} {s s' : Commands ι chrono}
  {client : ι} {a : CliArgs} {task task' : Task} {up down packets : List (LapasProtocol chrono)}
  {handler handler' : Handler chrono} {packet : LapasProtocol chrono}

variable (setup) in
/-- The command sends its next packet. -/
theorem Commands.Is.send (h : s.Is client task up handler down) (ha : args client = some a)
    (hsend : task.send a = some (task', packets)) :
    ∃ s', Commands.Advances setup args client s s' ∧
      s'.Is client task' (up ++ packets) handler down := by
  have hstep : s.step setup args (.send client) =
      some { s with tasks := Function.update s.tasks client task'
                    up := Function.update s.up client (s.up client ++ packets) } := by
    simp only [Commands.step, ha, h.tasks, hsend, Option.map_some]
  refine ⟨_, ⟨.send client, .send client, .inl rfl, hstep⟩, ?_, ?_, h.handler, h.down⟩
  · exact Function.update_self ..
  · rw [h.up]
    exact Function.update_self ..

variable (setup) in
/-- A packet arrives at the command. -/
theorem Commands.Is.receive (h : s.Is client task up handler (packet :: down))
    (ha : args client = some a) (hreceive : task.receive a.command packet = some task') :
    ∃ s', Commands.Advances setup args client s s' ∧ s'.Is client task' up handler down := by
  have hstep : s.step setup args (.receive client) =
      some { s with tasks := Function.update s.tasks client task'
                    down := Function.update s.down client down } := by
    simp only [Commands.step, ha, h.tasks, h.down, hreceive, Option.map_some]
  refine ⟨_, ⟨.receive client, .receive client, .inl rfl, hstep⟩, ?_, h.up, h.handler, ?_⟩
  · exact Function.update_self ..
  · exact Function.update_self ..

/-- The server matches on a packet of the command. -/
theorem Commands.Is.handle (h : s.Is client task (packet :: up) handler down)
    {session : Session chrono}
    (hreceive : (s.server.sessions client).receive "Incompatible Protocol Version"
      (handleClient setup) packet = some session) :
    ∃ s', Commands.Advances setup args client s s' ∧ s'.Is client task up session.handler down := by
  have hstep : s.step setup args (.handle client) =
      some { s with server := s.server.setSession client session
                    up := Function.update s.up client up } := by
    simp only [Commands.step, h.up, ApiServer.step, hreceive, Option.map_some]
  refine ⟨_, ⟨.handle client, .handle client, .inl rfl, hstep⟩, h.tasks, ?_, ?_, h.down⟩
  · exact Function.update_self ..
  · rw [ApiServer.sessions_setSession]

/-- A step of a task of the server. -/
theorem Commands.advances_serve {other : ι} (hclient : other = client ∨ s.Awaits client other)
    {e : ApiServer.Event chrono} {server' : ApiServer ι chrono}
    (hfaultless : (Commands.Event.serve other e).Faultless)
    (hserver : s.server.step setup other e = some server') :
    Commands.Advances setup args client s { s with
      server := server'
      down := Function.update s.down other (s.down other ++ sent s.server other e) } := by
  refine ⟨.serve other e, hfaultless, hclient.imp_right fun hawaits => ⟨other, e, rfl, hawaits⟩, ?_⟩
  cases hfaultless <;> simp only [Commands.step, hserver, Option.map_some]

/-- A step of the task of the server for the command. -/
theorem Commands.Is.serve (h : s.Is client task up handler down) {e : ApiServer.Event chrono}
    {server' : ApiServer ι chrono} (hfaultless : (Commands.Event.serve client e).Faultless)
    (hserver : s.server.step setup client e = some server')
    (hhandler : (server'.sessions client).handler = handler')
    (hsent : sent s.server client e = packets) :
    ∃ s', Commands.Advances setup args client s s' ∧
      s'.Is client task up handler' (down ++ packets) := by
  refine ⟨_, Commands.advances_serve (.inl rfl) hfaultless hserver, h.tasks, h.up, hhandler, ?_⟩
  rw [← h.down, ← hsent]
  exact Function.update_self ..

/-- A step of the task that has the lock which the task of the command waits for. -/
theorem Commands.Is.serve_other (h : s.Is client task up handler down) {other : ι}
    (hother : client ≠ other) (hawaits : s.Awaits client other) {e : ApiServer.Event chrono}
    {server' : ApiServer ι chrono} (hfaultless : (Commands.Event.serve other e).Faultless)
    (hserver : s.server.step setup other e = some server') :
    ∃ s', Commands.Advances setup args client s s' ∧ s'.server = server' ∧
      s'.Is client task up handler down := by
  refine ⟨_, Commands.advances_serve (.inr hawaits) hfaultless hserver, rfl, h.tasks, h.up, ?_, ?_⟩
  · rw [← h.handler, ← sessions_of_step hserver hother]
  · rw [← h.down]
    exact Function.update_of_ne hother _ _

/-! ### Waiting for a lock -/

/-- **The server of the commands is the api server.** -/
theorem server_of_reach (h : (commands setup args chrono).Reach (fun _ _ => True) s) :
    (apiServer setup chrono).Reach (fun _ _ => True) s.server := by
  induction h with
  | start h =>
    obtain ⟨index, hosts, rfl⟩ := h
    exact .start ⟨index, hosts, rfl⟩
  | step _ _ hstep ih =>
    rcases server_of_step hstep with heq | ⟨e, hserver⟩
    · rwa [heq]
    · exact .step ih trivial (e := (_, e)) hserver

theorem reach_of_advances (h : (commands setup args chrono).Reach (fun _ _ => True) s)
    (hadvances : ReflTransGen (Commands.Advances setup args client) s s') :
    (commands setup args chrono).Reach (fun _ _ => True) s' := by
  induction hadvances with
  | refl => exact h
  | tail _ hstep ih =>
    obtain ⟨e, -, -, hstep⟩ := hstep
    exact .step ih trivial hstep

/-- The task that writes the index can give its lock back to a request that waits for it. -/
theorem exists_userLock_free (h : (commands setup args chrono).Reach (fun _ _ => True) s)
    {work : Request} (his : s.Is client task up (.running work) down)
    (hwork : ∀ username, work ≠ .createUserHostMapping username) :
    ∃ s', ReflTransGen (Commands.Advances setup args client) s s' ∧ s'.server.userLock = none ∧
      s'.Is client task up (.running work) down := by
  cases hlock : s.server.userLock with
  | none => exact ⟨s, .refl, hlock, his⟩
  | some holder =>
    have hwriting := ((locked_of_reach (server_of_reach h)).user holder).mp hlock
    have hother : client ≠ holder := by
      rintro rfl
      cases his.handler.symm.trans hwriting
    have hawaits : s.Awaits client holder := by
      unfold Commands.Awaits
      rw [his.handler]
      cases work with
      | createUserHostMapping username => exact absurd rfl (hwork username)
      | _ => exact hlock
    have hwritten : ∃ server', s.server.step setup holder (.written (.ok ())) = some server' ∧
        server'.userLock = none := by
      simp only [ApiServer.step, hwriting]
      exact ⟨_, rfl, rfl⟩
    obtain ⟨server', hserver, hfree⟩ := hwritten
    obtain ⟨s', hadvances, rfl, his'⟩ :=
      his.serve_other hother hawaits (.written holder) hserver
    exact ⟨s', .single hadvances, hfree, his'⟩

/-- The bytes of a mapping reach its file. -/
theorem exists_landed (setup : Setup ι) {server : ApiServer ι chrono} {holder : ι}
    {username : String} {written : ℕ}
    (hmapping : (server.sessions holder).handler = .mapping username written)
    (hlt : written < (hostMapping setup holder username).length) :
    ∃ server', server.step setup holder
        (.landMapping (hostMapping setup holder username).length) = some server' ∧
      (server'.sessions holder).handler =
        .mapping username (hostMapping setup holder username).length ∧
      server'.dnsLock = server.dnsLock := by
  simp only [ApiServer.step, hmapping, if_pos hlt]
  exact ⟨_, rfl, handler_access server holder _, rfl⟩

/-- A mapping whose bytes are in its file is finished. -/
theorem exists_mapped (setup : Setup ι) {server : ApiServer ι chrono} {holder : ι}
    {username : String} {written : ℕ}
    (hmapping : (server.sessions holder).handler = .mapping username written)
    (hle : (hostMapping setup holder username).length ≤ written) :
    ∃ server', server.step setup holder (.mapped (.ok ())) = some server' ∧
      server'.dnsLock = none ∧
      (server'.sessions holder).handler = .sending (.userDnsMappingResponse (.ok ())) true := by
  have hnot : ¬ ((Except.ok () : Except String Unit).isOk = true ∧
      written < (hostMapping setup holder username).length) := fun hlt => by omega
  simp only [ApiServer.step, hmapping, if_neg hnot]
  exact ⟨_, rfl, rfl, handler_access server holder _⟩

/-- The task that writes a mapping can give its lock back to another mapping. -/
theorem exists_dnsLock_free (h : (commands setup args chrono).Reach (fun _ _ => True) s)
    {username : String}
    (his : s.Is client task up (.running (.createUserHostMapping username)) down) :
    ∃ s', ReflTransGen (Commands.Advances setup args client) s s' ∧ s'.server.dnsLock = none ∧
      s'.Is client task up (.running (.createUserHostMapping username)) down := by
  cases hlock : s.server.dnsLock with
  | none => exact ⟨s, .refl, hlock, his⟩
  | some holder =>
    obtain ⟨username', written, hmapping⟩ :=
      ((locked_of_reach (server_of_reach h)).dns holder).mp hlock
    have hother : client ≠ holder := by
      rintro rfl
      cases his.handler.symm.trans hmapping
    have hawaits : ∀ {s : Commands ι chrono},
        s.Is client task up (.running (.createUserHostMapping username)) down →
        s.server.dnsLock = some holder → s.Awaits client holder := by
      intro s his hlock
      unfold Commands.Awaits
      rw [his.handler]
      exact hlock
    -- when all bytes have landed the holder gives the lock back
    have hfinish : ∀ {s : Commands ι chrono} {written : ℕ},
        s.Is client task up (.running (.createUserHostMapping username)) down →
        s.server.dnsLock = some holder →
        (s.server.sessions holder).handler = .mapping username' written →
        (hostMapping setup holder username').length ≤ written →
        ∃ s', Commands.Advances setup args client s s' ∧ s'.server.dnsLock = none ∧
          s'.Is client task up (.running (.createUserHostMapping username)) down := by
      intro s written his hlock hmapping hle
      obtain ⟨server', hserver, hfree, -⟩ := exists_mapped setup hmapping hle
      obtain ⟨s', hadvances, rfl, his'⟩ :=
        his.serve_other hother (hawaits his hlock) (.mapped holder) hserver
      exact ⟨s', hadvances, hfree, his'⟩
    -- otherwise one step lets the missing bytes land, and then it does
    by_cases hlt : written < (hostMapping setup holder username').length
    · obtain ⟨server', hserver, hmapping', hsame⟩ := exists_landed setup hmapping hlt
      obtain ⟨s₁, hlanded, rfl, his₁⟩ :=
        his.serve_other hother (hawaits his hlock) (.landMapping holder _) hserver
      obtain ⟨s', hadvances, hfree, his'⟩ :=
        hfinish his₁ (hsame.trans hlock) hmapping' le_rfl
      exact ⟨s', (ReflTransGen.single hlanded).tail hadvances, hfree, his'⟩
    · obtain ⟨s', hadvances, hfree, his'⟩ := hfinish his hlock hmapping (by omega)
      exact ⟨s', .single hadvances, hfree, his'⟩

/-! ### To the answer -/

theorem Commands.Returns.head (h : s'.Returns setup args client)
    (hadvances : ReflTransGen (Commands.Advances setup args client) s s') :
    s.Returns setup args client := by
  obtain ⟨s'', result, hrest, hresult, hne⟩ := h
  exact ⟨s'', result, hadvances.trans hrest, hresult, hne⟩

/-- The answer arrives. -/
theorem Commands.Is.returns_of_answer (h : s.Is client .requested up handler [packet])
    (ha : args client = some a) : s.Returns setup args client := by
  obtain ⟨s', hadvances, his⟩ := h.receive setup ha rfl
  exact ⟨s', _, .single hadvances, his.tasks, respond_ne_io a.command packet⟩

theorem exists_sent (setup : Setup ι) {server : ApiServer ι chrono} {goesOn : Bool}
    (hsending : (server.sessions client).handler = .sending packet goesOn) :
    ∃ server', server.step setup client (.send true) = some server' ∧
      (server'.sessions client).handler = if goesOn then .idle else .stopped := by
  simp only [ApiServer.step, Session.deliver, hsending, Option.map_some]
  refine ⟨_, rfl, ?_⟩
  rw [ApiServer.sessions_setSession]
  rfl

/-- The task of the server sends the answer. -/
theorem Commands.Is.returns_of_sending {goesOn : Bool}
    (h : s.Is client .requested up (.sending packet goesOn) []) (ha : args client = some a) :
    s.Returns setup args client := by
  obtain ⟨server', hserver, hhandler⟩ := exists_sent setup h.handler
  have hsent : sent s.server client (.send true) = [packet] := by
    rw [sent, h.handler]
  obtain ⟨s', hadvances, his⟩ := h.serve (.sent client) hserver hhandler hsent
  exact (his.returns_of_answer ha).head (.single hadvances)

/-- The index has been written. -/
theorem Commands.Is.returns_of_writing (h : s.Is client .requested up .writing [])
    (ha : args client = some a) : s.Returns setup args client := by
  have hwritten : ∃ server', s.server.step setup client (.written (.ok ())) = some server' ∧
      (server'.sessions client).handler = .sending (.userRegisterResponse (.ok ())) true := by
    simp only [ApiServer.step, h.handler]
    exact ⟨_, rfl, handler_access s.server client _⟩
  obtain ⟨server', hserver, hhandler⟩ := hwritten
  obtain ⟨s', hadvances, his⟩ := h.serve (.written client) hserver hhandler rfl
  exact (his.returns_of_sending ha).head (.single hadvances)

/-- A mapping is finished. -/
theorem Commands.Is.returns_of_mapping {username : String} {written : ℕ}
    (h : s.Is client .requested up (.mapping username written) []) (ha : args client = some a) :
    s.Returns setup args client := by
  have hfinish : ∀ {s : Commands ι chrono} {written : ℕ},
      s.Is client .requested up (.mapping username written) [] →
      (hostMapping setup client username).length ≤ written → s.Returns setup args client := by
    intro s written his hle
    obtain ⟨server', hserver, -, hhandler⟩ := exists_mapped setup his.handler hle
    obtain ⟨s', hadvances, his'⟩ := his.serve (.mapped client) hserver hhandler rfl
    exact (his'.returns_of_sending ha).head (.single hadvances)
  by_cases hlt : written < (hostMapping setup client username).length
  · obtain ⟨server', hserver, hhandler, -⟩ := exists_landed setup h.handler hlt
    obtain ⟨s₁, hlanded, his₁⟩ := h.serve (.landMapping client _) hserver hhandler rfl
    exact (hfinish his₁ le_rfl).head (.single hlanded)
  · exact hfinish h (by omega)

/-- A request is worked on, when the lock that it needs is free. -/
theorem Commands.Is.returns_of_running {work : Request}
    (h : s.Is client .requested up (.running work) [])
    (hreach : (commands setup args chrono).Reach (fun _ _ => True) s) (ha : args client = some a)
    (now : chrono.DateTime) : s.Returns setup args client := by
  cases work with
  | addUser username password =>
    obtain ⟨s₁, hfree, huser, h₁⟩ := exists_userLock_free hreach h fun _ heq => by cases heq
    have hadd : ∃ server' handler', s₁.server.step setup client (.addUser "" now now) =
        some server' ∧ (server'.sessions client).handler = handler' ∧
        (handler' = .writing ∨ ∃ packet, handler' = .sending packet true) := by
      simp only [ApiServer.step, h₁.handler, huser]
      split
      · exact ⟨_, _, rfl, handler_access s₁.server client _, .inr ⟨_, rfl⟩⟩
      · exact ⟨_, _, rfl, handler_access s₁.server client _, .inl rfl⟩
    obtain ⟨server', handler', hserver, hhandler, hnext⟩ := hadd
    obtain ⟨s', hadvances, his⟩ := h₁.serve (.addUser client "" now now) hserver hhandler rfl
    refine Commands.Returns.head ?_ (hfree.tail hadvances)
    rcases hnext with rfl | ⟨packet, rfl⟩
    · exact his.returns_of_writing ha
    · exact his.returns_of_sending ha
  | createUserHostMapping username =>
    obtain ⟨s₁, hfree, hdns, h₁⟩ := exists_dnsLock_free hreach h
    have hcreate : ∃ server', s₁.server.step setup client (.createMapping (.ok ())) =
        some server' ∧ (server'.sessions client).handler = .mapping username 0 := by
      simp only [ApiServer.step, h₁.handler, hdns]
      exact ⟨_, rfl, handler_access s₁.server client _⟩
    obtain ⟨server', hserver, hhandler⟩ := hcreate
    obtain ⟨s', hadvances, his⟩ := h₁.serve (.createMapping client) hserver hhandler rfl
    exact (his.returns_of_mapping ha).head (hfree.tail hadvances)
  | passwdAll | shadowAll =>
    obtain ⟨s₁, hfree, huser, h₁⟩ := exists_userLock_free hreach h fun _ heq => by cases heq
    have hlist : ∃ server' packet, s₁.server.step setup client .list = some server' ∧
        (server'.sessions client).handler = .sending packet true := by
      simp only [ApiServer.step, h₁.handler, huser]
      exact ⟨_, _, rfl, handler_access s₁.server client _⟩
    obtain ⟨server', packet, hserver, hhandler⟩ := hlist
    obtain ⟨s', hadvances, his⟩ := h₁.serve (.list client) hserver hhandler rfl
    exact (his.returns_of_sending ha).head (hfree.tail hadvances)

/-- The task of the server finishes what it does for a command. -/
theorem Commands.Is.returns_of_handler (h : s.Is client .requested [] handler [])
    (hreach : (commands setup args chrono).Reach (fun _ _ => True) s) (ha : args client = some a)
    (now : chrono.DateTime)
    (hserving : Serving setup (fun _ _ => True) s.server client a handler)
    (hstopped : handler ≠ .stopped) : s.Returns setup args client := by
  cases hserving with
  | stopped => exact absurd rfl hstopped
  | running => exact h.returns_of_running hreach ha now
  | sending => exact h.returns_of_sending ha
  | writing => exact h.returns_of_writing ha
  | mapping => exact h.returns_of_mapping ha

/-- The server matches on the request. -/
theorem Commands.Is.returns_of_asking (h : s.Is client .requested [packet] .idle [])
    (hreach : (commands setup args chrono).Reach (fun _ _ => True) s) (ha : args client = some a)
    (now : chrono.DateTime) (hcheck : ∀ auth, checkAuth setup auth ≠ none) :
    s.Returns setup args client := by
  have hreceive : ∃ session, (s.server.sessions client).receive "Incompatible Protocol Version"
      (handleClient setup) packet = some session ∧ session.handler = handleClient setup packet := by
    simp only [Session.receive, h.handler]
    exact ⟨_, rfl, rfl⟩
  obtain ⟨session, hsession, hhandler⟩ := hreceive
  obtain ⟨s', hadvances, his⟩ := h.handle hsession
  have hreach' := reach_of_advances hreach (.single hadvances)
  rw [hhandler] at his
  have hstage := ((inv_of_reach hreach').holds client a ha).stage
  rw [his.tasks, his.up, his.handler, his.down] at hstage
  refine Commands.Returns.head ?_ (.single hadvances)
  generalize hhandler' : handleClient setup packet = handler' at his hstage
  cases hstage with
  | serving hserving =>
    exact his.returns_of_handler hreach' ha now hserving
      (hhandler' ▸ handleClient_ne_stopped hcheck packet)

/-- The command sends its request. -/
theorem Commands.Is.returns_of_connected (h : s.Is client .connected [] .idle [])
    (hreach : (commands setup args chrono).Reach (fun _ _ => True) s) (ha : args client = some a)
    (hauth : a.apiPassword ≠ none) (now : chrono.DateTime)
    (hcheck : ∀ auth, checkAuth setup auth ≠ none) : s.Returns setup args client := by
  obtain ⟨packet, hpacket⟩ := exists_request chrono hauth
  have hsend : Task.connected.send a = some (.requested, [packet]) := by
    rw [Task.send, hpacket]
  obtain ⟨s', hadvances, his⟩ := h.send setup ha hsend
  exact (his.returns_of_asking (reach_of_advances hreach (.single hadvances)) ha now hcheck).head
    (.single hadvances)

/-- The answer to the handshake arrives. -/
theorem Commands.Is.returns_of_welcome
    (h : s.Is client .handshake [] .idle [.controlHandshakeResponse (.ok ())])
    (hreach : (commands setup args chrono).Reach (fun _ _ => True) s) (ha : args client = some a)
    (hauth : a.apiPassword ≠ none) (now : chrono.DateTime)
    (hcheck : ∀ auth, checkAuth setup auth ≠ none) : s.Returns setup args client := by
  obtain ⟨s', hadvances, his⟩ := h.receive setup ha rfl
  exact (his.returns_of_connected (reach_of_advances hreach (.single hadvances)) ha hauth now
    hcheck).head (.single hadvances)

/-- It is sent. -/
theorem Commands.Is.returns_of_greeted
    (h : s.Is client .handshake [] (.sending (.controlHandshakeResponse (.ok ())) true) [])
    (hreach : (commands setup args chrono).Reach (fun _ _ => True) s) (ha : args client = some a)
    (hauth : a.apiPassword ≠ none) (now : chrono.DateTime)
    (hcheck : ∀ auth, checkAuth setup auth ≠ none) : s.Returns setup args client := by
  obtain ⟨server', hserver, hhandler⟩ := exists_sent setup h.handler
  have hsent : sent s.server client (.send true) = [.controlHandshakeResponse (.ok ())] := by
    rw [sent, h.handler]
  obtain ⟨s', hadvances, his⟩ := h.serve (.sent client) hserver hhandler hsent
  exact (his.returns_of_welcome (reach_of_advances hreach (.single hadvances)) ha hauth now
    hcheck).head (.single hadvances)

/-- The server matches on the handshake. -/
theorem Commands.Is.returns_of_greeting
    (h : s.Is client .handshake [.controlHandshake version] .handshake [])
    (hreach : (commands setup args chrono).Reach (fun _ _ => True) s) (ha : args client = some a)
    (hauth : a.apiPassword ≠ none) (now : chrono.DateTime)
    (hcheck : ∀ auth, checkAuth setup auth ≠ none) : s.Returns setup args client := by
  have hreceive : ∃ session, (s.server.sessions client).receive "Incompatible Protocol Version"
      (handleClient setup) (.controlHandshake version) = some session ∧
      session.handler = .sending (.controlHandshakeResponse (.ok ())) true := by
    simp only [Session.receive, h.handler]
    exact ⟨_, rfl, rfl⟩
  obtain ⟨session, hsession, hhandler⟩ := hreceive
  obtain ⟨s', hadvances, his⟩ := h.handle hsession
  rw [hhandler] at his
  exact (his.returns_of_greeted (reach_of_advances hreach (.single hadvances)) ha hauth now
    hcheck).head (.single hadvances)

/-- The command sends the handshake. -/
theorem Commands.Is.returns_of_connecting (h : s.Is client .connecting [] .handshake [])
    (hreach : (commands setup args chrono).Reach (fun _ _ => True) s) (ha : args client = some a)
    (hauth : a.apiPassword ≠ none) (now : chrono.DateTime)
    (hcheck : ∀ auth, checkAuth setup auth ≠ none) : s.Returns setup args client := by
  obtain ⟨s', hadvances, his⟩ := h.send setup ha rfl
  exact (his.returns_of_greeting (reach_of_advances hreach (.single hadvances)) ha hauth now
    hcheck).head (.single hadvances)

/-- **Commands come to an end.**  In every state that commands, other clients and the tasks of the
server can reach, a command that has not returned, and whose session is not cut off, can still be
answered: there are steps in which nothing fails, of the command, of its task and of those that have
the locks it waits for, after which it has returned with what it makes of the answer.  The
configuration has to have the parameters that the check of passwords unwraps. -/
theorem returns_of_reach (h : (commands setup args chrono).Reach (fun _ _ => True) s)
    (ha : args client = some a) (now : chrono.DateTime)
    (hcheck : ∀ auth, checkAuth setup auth ≠ none)
    (hrunning : ∀ result, s.tasks client ≠ .returned result)
    (hsession : (s.server.sessions client).handler ≠ .stopped) :
    s.Returns setup args client := by
  have hstage := ((inv_of_reach h).holds client a ha).stage
  have his : s.Is client (s.tasks client) (s.up client) (s.server.sessions client).handler
    (s.down client) := ⟨rfl, rfl, rfl, rfl⟩
  generalize s.tasks client = task at hstage his hrunning
  generalize s.up client = up at hstage his
  generalize (s.server.sessions client).handler = handler at hstage his hsession
  generalize s.down client = down at hstage his
  cases hstage with
  | connecting hhandler hauth =>
    obtain rfl := hhandler.resolve_right hsession
    exact his.returns_of_connecting h ha hauth now hcheck
  | greeting hhandler hauth =>
    obtain rfl := hhandler.resolve_right hsession
    exact his.returns_of_greeting h ha hauth now hcheck
  | greeted hauth => exact his.returns_of_greeted h ha hauth now hcheck
  | welcome hhandler hauth =>
    obtain rfl := hhandler.resolve_right hsession
    exact his.returns_of_welcome h ha hauth now hcheck
  | unwelcome => exact absurd rfl hsession
  | connected hhandler hauth =>
    obtain rfl := hhandler.resolve_right hsession
    exact his.returns_of_connected h ha hauth now hcheck
  | asking hhandler =>
    obtain rfl := hhandler.resolve_right hsession
    exact his.returns_of_asking h ha now hcheck
  | serving hserving => exact his.returns_of_handler h ha now hserving hsession
  | answered => exact his.returns_of_answer ha
  | returned => exact absurd rfl (hrunning _)

end

/-- The second one comes as far as the lock. -/
def waitingEvents : List (Commands.Event Bool epoch) :=
  [.send false, .handle false, .serve false (.send true), .receive false, .send false,
    .handle false]

/-- While the index is written, the list of users waits; it can still be answered. -/
theorem returns_of_reach_list : ∃ s : Commands Bool epoch,
    (commands namesakesSetup twoCommands epoch).Reach (fun _ _ => True) s ∧
    s.Awaits false true ∧ s.Returns namesakesSetup twoCommands false := by
  obtain ⟨start, hstart⟩ : ∃ start : Commands Bool epoch, start =
      ⟨⟨bobIndex, fun _ => none, none, none, [], [], fun _ => .accepted, []⟩,
        fun _ => .connecting, fun _ => [], fun _ => []⟩ := ⟨_, rfl⟩
  obtain ⟨s, hrun, hlock, htask, hhandler⟩ : ∃ s,
      (commands namesakesSetup twoCommands epoch).run start (writingEvents ++ waitingEvents) =
        some s ∧
      s.server.userLock = some true ∧ s.tasks false = .requested ∧
      (s.server.sessions false).handler = .running .passwdAll := by
    subst hstart
    exact ⟨_, rfl, rfl, rfl, rfl⟩
  have hreach := Machine.reach_of_run
    (.start (show (commands namesakesSetup twoCommands epoch).start
      start from ⟨bobIndex, fun _ => none, hstart⟩)) hrun
  have hawaits : s.Awaits false true := by
    unfold Commands.Awaits
    rw [hhandler]
    exact hlock
  refine ⟨s, hreach, hawaits, returns_of_reach hreach rfl epochStart (fun auth => ?_) ?_ ?_⟩
  · cases auth
    exact fun heq => by cases heq
  · rw [htask]
    exact fun result heq => by cases heq
  · rw [hhandler]
    exact fun heq => by cases heq

end Client
end Lapas
