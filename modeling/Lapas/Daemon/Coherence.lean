import Lapas.Library.Broadcast
import Lapas.Library.Transition
import Lapas.Daemon.AuthServer

/-!
# The cache of the daemon

The daemon registers for notifications, requests the users, and requests them again for
every notification that they have changed.  A forwarding task at the server takes the
notifications from a channel that keeps a single one, and ends when it has missed one.

The two directions of the connection are queues of packets here; that the daemon dispatches
what has been sent, when its timer does not cut a packet, is the matter of
`Lapas.Daemon.Framing`.

## Main definitions

* `Link` — the connection of the daemon, with the tasks at both of its ends.
* `Coherence`, `coherence` — the users, the channel, the connection and the cache.
* `Allowed` — the steps that leave out what makes the cache stale.

## Main results

* `Coherence.Inv.step` — the cache is up to date, or a list is on its way, or will be read.
* `cache_eq_of_quiescent` — **in runs of allowed steps, the cache of a daemon at rest is the
  list of the server.**
* `not_cacheCoherent` — two registrations in a row are enough to make it stale.
-/

namespace Lapas
namespace Daemon

open Proto Server

variable {chrono : Chrono} {ι : Type}

/-! ### The system -/

/-- The task that forwards notifications to the daemon. -/
inductive Forwarder (chrono : Chrono)
  | absent
  /-- It waits for a notification, or for the time of its next ping. -/
  | waiting (next : ℕ)
  | sending (next : ℕ) (packet : LapasProtocol chrono)
  /-- It has returned with an error. -/
  | dead

/-- Where `run_daemon` is: in front of one of its two requests after the handshake, or in the loop
over the packets of the server. -/
inductive RunDaemon
  /-- It sends `ControlListenEvents`. -/
  | listen
  /-- It sends `ShadowGetList`. -/
  | request
  | loop

/-- The connection of the daemon, behind the handshake. -/
structure Link (chrono : Chrono) where
  daemon : RunDaemon
  /-- The packets that have been sent and not been received. -/
  uplink : List (LapasProtocol chrono)
  downlink : List (LapasProtocol chrono)
  handler : Handler chrono
  forwarder : Forwarder chrono

/-- The server with its users and its notifications, and the daemon of one guest with its connection
and its cache. -/
structure Coherence (chrono : Chrono) where
  index : UserIndex chrono
  /-- `add_user` has pushed a user, and writes the index. -/
  writing : Bool
  /-- The notifications that have been sent. -/
  channel : List (LapasProtocol chrono)
  link : Option (Link chrono)
  userCache : Option (Vec (LapasUserShadow chrono))

/-- The steps of both sides.  Users are added and mappings made by any clients; the daemon connects,
reads, sends and loses its connection at any time. -/
inductive Coherence.Event (chrono : Chrono)
  /-- `add_user` for any client, up to the writing of the index. -/
  | addUser (call : Registration chrono)
  | written (result : Except String Unit)
  /-- `create_user_host_mapping` has succeeded for some client. -/
  | mapped
  | connect
  | disconnect
  /-- The daemon sends its next packet. -/
  | send
  /-- The daemon sends a ping. -/
  | ping
  /-- The daemon matches on the next packet. -/
  | dispatch
  /-- The timer drops a `decode` that has begun, and other packets are read from the rest. -/
  | cut (rest : List (LapasProtocol chrono))
  /-- The server matches on the next packet. -/
  | handle
  | register
  | list
  | respond
  | receive
  | forward
  | forwardPing

/-- `shadow_all` of the server: the users of its index, in order, as they are sent in a
`ShadowGetListResponse`. -/
def Coherence.shadowAll (s : Coherence chrono) : Vec (LapasUserShadow chrono) :=
  .ofList s.index.shadowAll

/-- The tasks of the connection make a step. -/
def Coherence.setLink (s : Coherence chrono) (link : Link chrono) : Coherence chrono :=
  { s with link := some link }

/-- The match of `run_daemon` on a packet. -/
def Coherence.dispatch (s : Coherence chrono) (l : Link chrono) :
    LapasProtocol chrono → Coherence chrono
  | .notifyUsersChanged => s.setLink { l with daemon := .request }
  | .shadowGetListResponse (.ok users) => { s.setLink l with userCache := some users }
  | .shadowGetListResponse (.error _) => { s with link := none }
  | _ => s.setLink l

section

variable (setup : Setup ι) (auth : ApiAuth)

/-- A step of the tasks of the connection. -/
def Coherence.linkStep (s : Coherence chrono) (l : Link chrono) :
    Coherence.Event chrono → Option (Coherence chrono)
  | .disconnect => some { s with link := none }
  | .send =>
    match l.daemon with
    | .listen =>
      some (s.setLink { l with daemon := .request, uplink := l.uplink ++ [.controlListenEvents] })
    | .request =>
      some (s.setLink { l with daemon := .loop, uplink := l.uplink ++ [.shadowGetList auth] })
    | .loop => none
  | .ping =>
    match l.daemon with
    | .loop => some (s.setLink { l with uplink := l.uplink ++ [.controlPing] })
    | _ => none
  | .dispatch =>
    match l.daemon, l.downlink with
    | .loop, packet :: rest => some (s.dispatch { l with downlink := rest } packet)
    | _, _ => none
  | .cut rest =>
    match l.daemon, l.downlink with
    | .loop, _ :: _ => some (s.setLink { l with downlink := rest })
    | _, _ => none
  | .handle =>
    match l.handler, l.uplink with
    | .idle, packet :: rest =>
      some (s.setLink { l with uplink := rest, handler := handleClient setup packet })
    | _, _ => none
  | .register =>
    match l.handler, l.forwarder with
    | .registering, .absent =>
      some (s.setLink { l with handler := .idle, forwarder := .waiting s.channel.length })
    | _, _ => none
  | .list =>
    match l.handler with
    | .running .shadowAll =>
      if s.writing then none
      else some (s.setLink { l with
        handler := .sending (.shadowGetListResponse (.ok s.shadowAll)) true })
    | _ => none
  | .respond =>
    match l.handler with
    | .sending packet goesOn =>
      some (s.setLink { l with
        downlink := l.downlink ++ [packet], handler := if goesOn then .idle else .stopped })
    | _ => none
  | .receive =>
    match l.forwarder with
    | .waiting next =>
      (Broadcast.receive 1 s.channel next).map fun (received, next) =>
        s.setLink { l with
          forwarder := match received with
            | .value packet => .sending next packet
            | .lagged _ => .dead }
    | _ => none
  | .forward =>
    match l.forwarder with
    | .sending next packet =>
      some (s.setLink { l with downlink := l.downlink ++ [packet], forwarder := .waiting next })
    | _ => none
  | .forwardPing =>
    match l.forwarder with
    | .waiting next => some (s.setLink { l with forwarder := .sending next .controlPing })
    | _ => none
  | _ => none

/-- One step.  The index is in memory before its writing ends, and the notification is sent
afterwards. -/
def Coherence.step (s : Coherence chrono) : Coherence.Event chrono → Option (Coherence chrono)
  | .addUser call =>
    if s.writing then none
    else
      match s.index.addUser setup.sha512Crypt call with
      | .error _ => some s
      | .ok index => some { s with index, writing := true }
  | .written result =>
    if s.writing then
      some { s with
        writing := false
        channel := if result.isOk then s.channel ++ [.notifyUsersChanged] else s.channel }
    else none
  | .mapped => some { s with channel := s.channel ++ [.notifyDnsMappingsChanged] }
  | .connect =>
    match s.link with
    | none => some (s.setLink ⟨.listen, [], [], .idle, .absent⟩)
    | some _ => none
  | e => s.link.bind fun l => s.linkStep setup auth l e

/-- A server with some users, and a daemon that has just been started. -/
def coherence (chrono : Chrono) : Machine (Coherence chrono) (Coherence.Event chrono) where
  start s := ∃ index, s = ⟨index, false, [], none, none⟩
  step := Coherence.step setup auth

end

/-! ### What is on its way -/

/-- The packet that the forwarding task is sending. -/
def Forwarder.carried : Forwarder chrono → List (LapasProtocol chrono)
  | .sending _ packet => [packet]
  | _ => []

/-- The position of the forwarding task in the channel. -/
def Forwarder.position : Forwarder chrono → Option ℕ
  | .waiting next => some next
  | .sending next _ => some next
  | _ => none

/-- The notifications that the forwarding task has not received. -/
def Forwarder.unreceived (channel : List (LapasProtocol chrono)) (forwarder : Forwarder chrono) :
    List (LapasProtocol chrono) :=
  (forwarder.position.map channel.drop).getD []

/-- The packet that the server is sending. -/
def outgoing : Handler chrono → List (LapasProtocol chrono)
  | .sending packet _ => [packet]
  | _ => []

/-- The cache when the daemon has matched on some packets. -/
def cacheAfter (userCache : Option (Vec (LapasUserShadow chrono))) :
    List (LapasProtocol chrono) → Option (Vec (LapasUserShadow chrono))
  | [] => userCache
  | .shadowGetListResponse (.ok users) :: packets => cacheAfter (some users) packets
  | _ :: packets => cacheAfter userCache packets

/-- The server is about to end the connection. -/
def Doomed (handler : Handler chrono) : Prop :=
  handler = .stopped ∨ ∃ packet, handler = .sending packet false

/-- The users will be read for the daemon once more. -/
def Refreshing (channel : List (LapasProtocol chrono)) (l : Link chrono) : Prop :=
  l.daemon ≠ .loop ∨ (∃ auth, .shadowGetList auth ∈ l.uplink) ∨
    l.handler = .running .shadowAll ∨
    .notifyUsersChanged ∈ l.downlink ++ (l.forwarder.carried ++ l.forwarder.unreceived channel)

/-- The last list that the daemon will have matched on is the server's. -/
def UpToDate (s : Coherence chrono) (l : Link chrono) : Prop :=
  cacheAfter s.userCache (l.downlink ++ outgoing l.handler) = some s.shadowAll

/-- Nothing is in flight, nothing is handled, and nothing is left in the channel. -/
structure Quiescent (s : Coherence chrono) (l : Link chrono) : Prop where
  writing : s.writing = false
  daemon : l.daemon = .loop
  uplink : l.uplink = []
  downlink : l.downlink = []
  handler : l.handler = .idle
  carried : l.forwarder.carried = []
  unreceived : l.forwarder.unreceived s.channel = []

/-- No notification is sent while the daemon's forwarding task has another one to receive;
the index is written without failure, unless the users will be read for the daemon once
more; and the timer cuts no packet. -/
def Allowed (s : Coherence chrono) : Coherence.Event chrono → Prop
  | .written (.ok _) | .mapped =>
    ∀ l, s.link = some l → l.forwarder.unreceived s.channel = []
  | .written (.error _) => ∀ l, s.link = some l → Doomed l.handler ∨ Refreshing s.channel l
  | .cut _ => False
  | _ => True

theorem cacheAfter_append (userCache : Option (Vec (LapasUserShadow chrono)))
    (packets packets' : List (LapasProtocol chrono)) :
    cacheAfter userCache (packets ++ packets') =
      cacheAfter (cacheAfter userCache packets) packets' := by
  fun_induction cacheAfter userCache packets with
  | case1 => rfl
  | case2 _ users packets ih =>
    rw [List.cons_append, cacheAfter]
    exact ih
  | case3 userCache packet packets hpacket ih =>
    rw [List.cons_append, cacheAfter.eq_3 _ _ _ hpacket]
    exact ih

/-- Notifications leave the cache alone. -/
theorem cacheAfter_notification {packet : LapasProtocol chrono} (h : Notification packet)
    (userCache : Option (Vec (LapasUserShadow chrono))) (packets : List (LapasProtocol chrono)) :
    cacheAfter userCache (packet :: packets) = cacheAfter userCache packets := by
  rcases h with rfl | rfl | rfl <;> rfl

theorem cacheAfter_notifications {packets : List (LapasProtocol chrono)}
    (h : ∀ packet ∈ packets, Notification packet)
    (userCache : Option (Vec (LapasUserShadow chrono))) :
    cacheAfter userCache packets = userCache := by
  induction packets with
  | nil => rfl
  | cons packet packets ih =>
    rw [cacheAfter_notification (h packet List.mem_cons_self)]
    exact ih fun packet' hpacket' => h packet' (List.mem_cons_of_mem _ hpacket')

/-! ### The invariant -/

/-- The daemon has asked for the users, or is about to. -/
def Asked (daemon : RunDaemon) (uplink : List (LapasProtocol chrono)) : Prop :=
  daemon = .request ∨ daemon = .loop ∧ ∃ auth, .shadowGetList auth ∈ uplink

/-- What holds of a connection: where the daemon is, what is on the way and what the forwarder has
to send fit together, so that a cache that is not up to date will be read again. -/
structure Link.Inv (s : Coherence chrono) (l : Link chrono) : Prop where
  opening : l.daemon = .listen →
    l.forwarder = .absent ∧ l.uplink = [] ∧ l.handler = .idle
  /-- The forwarding task is there before the users are read. -/
  unregistered : l.forwarder = .absent →
    (l.daemon = .listen ∧ l.uplink = [] ∧ l.handler = .idle) ∨
    (l.handler = .idle ∧ ∃ rest, l.uplink = .controlListenEvents :: rest ∧ Asked l.daemon rest) ∨
    (l.handler = .registering ∧ Asked l.daemon l.uplink)
  uplink : ∀ packet ∈ l.uplink, packet = .controlListenEvents ∨ packet = .controlPing ∨
    ∃ auth, packet = .shadowGetList auth
  alive : l.forwarder ≠ .dead
  keeps : ∀ next, l.forwarder.position = some next → Broadcast.Keeps 1 s.channel next
  carried : ∀ packet ∈ l.forwarder.carried, Notification packet
  fresh : Doomed l.handler ∨ s.writing = true ∨ Refreshing s.channel l ∨ UpToDate s l

/-- What holds in every state: the channel carries notifications only, and the connection is in
order when there is one. -/
structure Coherence.Inv (s : Coherence chrono) : Prop where
  channel : ∀ packet ∈ s.channel, Notification packet
  link : ∀ l, s.link = some l → l.Inv s

section

variable {s s' : Coherence chrono} {l : Link chrono}

theorem Refreshing.of_asked {channel : List (LapasProtocol chrono)}
    (h : Asked l.daemon l.uplink) : Refreshing channel l := by
  rcases h with h | ⟨-, h⟩
  · exact Or.inl (by rw [h]; exact fun heq => nomatch heq)
  · exact Or.inr (Or.inl h)

/-- Without a forwarding task, the users are still to be read. -/
theorem Link.Inv.refreshing (h : l.Inv s) (habsent : l.forwarder = .absent)
    (channel : List (LapasProtocol chrono)) : Refreshing channel l := by
  -- the request of the users is still to be sent, or waits behind the registration
  rcases h.unregistered habsent with ⟨hlisten, -, -⟩ | ⟨-, rest, huplink, hasked⟩ | ⟨-, hasked⟩
  · exact Or.inl (by rw [hlisten]; exact fun heq => nomatch heq)
  · refine Refreshing.of_asked (hasked.imp_right ?_)
    rintro ⟨hloop, auth, hmem⟩
    rw [huplink]
    exact ⟨hloop, auth, List.mem_cons_of_mem _ hmem⟩
  · exact Refreshing.of_asked hasked

theorem Coherence.Inv.setLink (h : s.Inv) {l' : Link chrono} (hl' : l'.Inv s) :
    (s.setLink l').Inv := by
  refine ⟨h.channel, fun l'' hl'' => ?_⟩
  cases hl''
  exact ⟨hl'.opening, hl'.unregistered, hl'.uplink, hl'.alive, hl'.keeps, hl'.carried, hl'.fresh⟩

/-- A session of the server that is not idle has left the opening. -/
theorem Link.Inv.not_opening (h : l.Inv s) (hidle : l.handler ≠ .idle) : l.daemon ≠ .listen :=
  fun hlisten => hidle (h.opening hlisten).2.2

/-- A session of the server that handles a request has a forwarding task. -/
theorem Link.Inv.registered (h : l.Inv s) (hidle : l.handler ≠ .idle)
    (hregistering : l.handler ≠ .registering) : l.forwarder ≠ .absent := by
  intro habsent
  rcases h.unregistered habsent with ⟨-, -, heq⟩ | ⟨heq, -⟩ | ⟨heq, -⟩
  · exact hidle heq
  · exact hidle heq
  · exact hregistering heq

/-! ### One step -/

variable {setup : Setup ι} {auth : ApiAuth}

/-- The daemon sends its next packet. -/
theorem Link.Inv.send (h : l.Inv s) (auth : ApiAuth) {daemon : RunDaemon}
    {packet : LapasProtocol chrono}
    (hdaemon : (l.daemon = .listen ∧ daemon = .request ∧ packet = .controlListenEvents) ∨
      (l.daemon = .request ∧ daemon = .loop ∧ packet = .shadowGetList auth)) :
    Link.Inv s { l with daemon, uplink := l.uplink ++ [packet] } := by
  have hasked : Asked daemon (l.uplink ++ [packet]) := by
    rcases hdaemon with ⟨-, rfl, -⟩ | ⟨-, rfl, rfl⟩
    · exact Or.inl rfl
    · exact Or.inr ⟨rfl, auth, List.mem_append_right _ (List.mem_singleton_self _)⟩
  refine ⟨?_, ?_, ?_, h.alive, h.keeps, h.carried, Or.inr (Or.inr (Or.inl (.of_asked hasked)))⟩
  · intro hlisten
    rcases hdaemon with ⟨-, rfl, -⟩ | ⟨-, rfl, -⟩ <;> cases hlisten
  · intro habsent
    refine Or.inr ?_
    -- the packet is the registration, or goes behind it
    rcases h.unregistered habsent with ⟨hlisten, huplink, hidle⟩ | ⟨hidle, rest, huplink, -⟩ |
        ⟨hregistering, -⟩
    · rcases hdaemon with ⟨-, rfl, rfl⟩ | ⟨hrequest, -, -⟩
      · refine Or.inl ⟨hidle, [], ?_, Or.inl rfl⟩
        show l.uplink ++ _ = _
        rw [huplink, List.nil_append]
      · cases hlisten.symm.trans hrequest
    · refine Or.inl ⟨hidle, rest ++ [packet], ?_, ?_⟩
      · show l.uplink ++ _ = _
        rw [huplink, List.cons_append]
      · rcases hdaemon with ⟨-, rfl, -⟩ | ⟨-, rfl, rfl⟩
        · exact Or.inl rfl
        · exact Or.inr ⟨rfl, auth, List.mem_append_right _ (List.mem_singleton_self _)⟩
    · exact Or.inr ⟨hregistering, hasked⟩
  · intro packet' hpacket'
    rcases List.mem_append.mp hpacket' with hold | hnew
    · exact h.uplink packet' hold
    · rw [List.mem_singleton.mp hnew]
      rcases hdaemon with ⟨-, -, rfl⟩ | ⟨-, -, rfl⟩
      · exact Or.inl rfl
      · exact Or.inr (Or.inr ⟨auth, rfl⟩)

/-- The daemon sends a ping. -/
theorem Link.Inv.ping (h : l.Inv s) (hloop : l.daemon = .loop) :
    Link.Inv s { l with uplink := l.uplink ++ [.controlPing] } := by
  have hasked : ∀ uplink : List (LapasProtocol chrono), Asked l.daemon uplink →
      Asked l.daemon (uplink ++ [.controlPing]) := by
    intro uplink
    refine Or.imp_right ?_
    rintro ⟨hloop, auth, hmem⟩
    exact ⟨hloop, auth, List.mem_append_left _ hmem⟩
  refine ⟨fun hlisten => ?_, fun habsent => Or.inr ?_, ?_, h.alive, h.keeps, h.carried, ?_⟩
  · cases hloop.symm.trans hlisten
  · rcases h.unregistered habsent with ⟨hlisten, -, -⟩ | ⟨hidle, rest, huplink, hrest⟩ |
        ⟨hregistering, huplink⟩
    · cases hloop.symm.trans hlisten
    · refine Or.inl ⟨hidle, rest ++ [.controlPing], ?_, hasked rest hrest⟩
      show l.uplink ++ _ = _
      rw [huplink, List.cons_append]
    · exact Or.inr ⟨hregistering, hasked l.uplink huplink⟩
  · intro packet hpacket
    rcases List.mem_append.mp hpacket with hold | hnew
    · exact h.uplink packet hold
    · exact Or.inr (Or.inl (List.mem_singleton.mp hnew))
  -- a ping asks for nothing, and what has been asked for is still asked for
  · refine h.fresh.imp_right (Or.imp_right (Or.imp_left ?_))
    rintro (hdaemon | ⟨auth, hmem⟩ | hrest)
    · exact Or.inl hdaemon
    · exact Or.inr (Or.inl ⟨auth, List.mem_append_left _ hmem⟩)
    · exact Or.inr (Or.inr hrest)

/-- The daemon has matched on a packet that is neither a notification that the users have
changed nor a list. -/
theorem Link.Inv.skip (h : l.Inv s) {packet : LapasProtocol chrono}
    {rest : List (LapasProtocol chrono)} (hdownlink : l.downlink = packet :: rest)
    (husers : packet ≠ .notifyUsersChanged)
    (hcache : ∀ packets, cacheAfter s.userCache (packet :: packets) =
      cacheAfter s.userCache packets) : Link.Inv s { l with downlink := rest } := by
  refine ⟨h.opening, h.unregistered, h.uplink, h.alive, h.keeps, h.carried, ?_⟩
  rcases h.fresh with hdoomed | hwriting | hrefreshing | huptodate
  · exact Or.inl hdoomed
  · exact Or.inr (Or.inl hwriting)
  · refine Or.inr (Or.inr (Or.inl ?_))
    rcases hrefreshing with hdaemon | huplink | hrunning | hmem
    · exact Or.inl hdaemon
    · exact Or.inr (Or.inl huplink)
    · exact Or.inr (Or.inr (Or.inl hrunning))
    · rw [hdownlink, List.cons_append] at hmem
      refine Or.inr (Or.inr (Or.inr ?_))
      -- the notification that is on its way is not the packet that has been matched on
      exact (List.mem_cons.mp hmem).resolve_left fun heq => husers heq.symm
  · refine Or.inr (Or.inr (Or.inr ?_))
    unfold UpToDate at huptodate
    rw [hdownlink, List.cons_append, hcache] at huptodate
    exact huptodate

/-- `run_daemon` matches on a packet. -/
theorem Coherence.Inv.dispatch (h : s.Inv) (hl : s.link = some l) (hloop : l.daemon = .loop)
    {packet : LapasProtocol chrono} {rest : List (LapasProtocol chrono)}
    (hdownlink : l.downlink = packet :: rest) :
    (s.dispatch { l with downlink := rest } packet).Inv := by
  have hinv := h.link l hl
  have hskip : packet ≠ .notifyUsersChanged →
      (∀ packets, cacheAfter s.userCache (packet :: packets) = cacheAfter s.userCache packets) →
      (s.setLink { l with downlink := rest }).Inv :=
    fun husers hcache => h.setLink (hinv.skip hdownlink husers hcache)
  cases packet with
  | notifyUsersChanged =>
    -- the users are requested
    have hrequest : RunDaemon.request ≠ .loop := fun heq => nomatch heq
    refine h.setLink ⟨(fun hlisten => nomatch hlisten), fun habsent => Or.inr ?_, hinv.uplink,
      hinv.alive, hinv.keeps, hinv.carried, Or.inr (Or.inr (Or.inl (Or.inl hrequest)))⟩
    rcases hinv.unregistered habsent with ⟨hlisten, -, -⟩ | ⟨hidle, rest', huplink, -⟩ |
        ⟨hregistering, -⟩
    · cases hloop.symm.trans hlisten
    · exact Or.inl ⟨hidle, rest', huplink, Or.inl rfl⟩
    · exact Or.inr ⟨hregistering, Or.inl rfl⟩
  | shadowGetListResponse result =>
    cases result with
    | error e =>
      -- `run_daemon` returns
      exact ⟨h.channel, fun l' hl' => nomatch hl'⟩
    | ok users =>
      refine ⟨h.channel, fun l' hl' => ?_⟩
      cases hl'
      refine ⟨hinv.opening, hinv.unregistered, hinv.uplink, hinv.alive, hinv.keeps,
        hinv.carried, ?_⟩
      rcases hinv.fresh with hdoomed | hwriting | hrefreshing | huptodate
      · exact Or.inl hdoomed
      · exact Or.inr (Or.inl hwriting)
      · refine Or.inr (Or.inr (Or.inl ?_))
        rcases hrefreshing with hdaemon | huplink | hrunning | hmem
        · exact Or.inl hdaemon
        · exact Or.inr (Or.inl huplink)
        · exact Or.inr (Or.inr (Or.inl hrunning))
        · rw [hdownlink, List.cons_append] at hmem
          refine Or.inr (Or.inr (Or.inr ?_))
          exact (List.mem_cons.mp hmem).resolve_left fun heq => nomatch heq
      -- the list has become the cache, which is what `cacheAfter` foresees
      · refine Or.inr (Or.inr (Or.inr ?_))
        unfold UpToDate at huptodate
        rw [hdownlink, List.cons_append, cacheAfter] at huptodate
        exact huptodate
  | _ => exact hskip (fun heq => nomatch heq) fun _ => rfl

/-- The server matches on a packet. -/
theorem Link.Inv.handle (h : l.Inv s) (hidle : l.handler = .idle)
    {packet : LapasProtocol chrono} {rest : List (LapasProtocol chrono)}
    (huplink : l.uplink = packet :: rest) :
    Link.Inv s { l with uplink := rest, handler := handleClient setup packet } := by
  have hlisten : l.daemon ≠ .listen := by
    intro hlisten
    have hempty := (h.opening hlisten).2.1
    rw [huplink] at hempty
    cases hempty
  have hrest : ∀ packet ∈ rest, packet = .controlListenEvents ∨ packet = .controlPing ∨
      ∃ auth, packet = .shadowGetList auth :=
    fun packet' hpacket' =>
      h.uplink packet' (by rw [huplink]; exact List.mem_cons_of_mem _ hpacket')
  -- without a forwarding task, the packet is the registration
  have habsent : l.forwarder = .absent → packet = .controlListenEvents ∧ Asked l.daemon rest := by
    intro habsent
    rcases h.unregistered habsent with ⟨heq, -, -⟩ | ⟨-, rest', heq, hasked⟩ | ⟨heq, -⟩
    · exact absurd heq hlisten
    · cases huplink.symm.trans heq
      exact ⟨rfl, hasked⟩
    · cases hidle.symm.trans heq
  -- only the request of the users changes what is on its way to the daemon
  refine ⟨fun heq => absurd heq hlisten, fun hforwarder => ?_, hrest, h.alive, h.keeps,
    h.carried, ?_⟩
  · obtain ⟨rfl, hasked⟩ := habsent hforwarder
    exact Or.inr (Or.inr ⟨rfl, hasked⟩)
  · have hother : (∀ auth, packet ≠ .shadowGetList auth) →
        outgoing (handleClient setup packet) = [] → Doomed (handleClient setup packet) ∨
        s.writing = true ∨
        Refreshing s.channel { l with uplink := rest, handler := handleClient setup packet } ∨
        UpToDate s { l with uplink := rest, handler := handleClient setup packet } := by
      intro hne hout
      rcases h.fresh with hdoomed | hwriting | hrefreshing | huptodate
      · rw [hidle] at hdoomed
        rcases hdoomed with heq | ⟨_, heq⟩ <;> cases heq
      · exact Or.inr (Or.inl hwriting)
      · refine Or.inr (Or.inr (Or.inl ?_))
        rcases hrefreshing with hdaemon | ⟨auth, hmem⟩ | hrunning | hmem
        · exact Or.inl hdaemon
        · rw [huplink] at hmem
          exact Or.inr (Or.inl ⟨auth, (List.mem_cons.mp hmem).resolve_left fun heq =>
            hne auth heq.symm⟩)
        · cases hidle.symm.trans hrunning
        · exact Or.inr (Or.inr (Or.inr hmem))
      · refine Or.inr (Or.inr (Or.inr ?_))
        unfold UpToDate at huptodate ⊢
        rw [hidle] at huptodate
        show cacheAfter s.userCache (l.downlink ++ outgoing (handleClient setup packet)) = _
        rw [hout]
        exact huptodate
    rcases h.uplink packet (by rw [huplink]; exact List.mem_cons_self) with rfl | rfl | ⟨auth, rfl⟩
    · exact hother (fun _ heq => nomatch heq) rfl
    · exact hother (fun _ heq => nomatch heq) rfl
    · -- the users are read, or the connection ends
      obtain ⟨handler, hhandler⟩ : ∃ handler,
          handleClient setup (.shadowGetList auth : LapasProtocol chrono) = handler := ⟨_, rfl⟩
      rw [hhandler]
      rw [handleClient] at hhandler
      rcases handleRequest_eq hhandler with heq | heq | ⟨heq, -⟩
      · exact Or.inl (Or.inl heq)
      · exact Or.inl (Or.inr ⟨_, heq⟩)
      · exact Or.inr (Or.inr (Or.inl (Or.inr (Or.inr (Or.inl heq)))))

/-- The server registers the daemon for notifications. -/
theorem Link.Inv.register (h : l.Inv s) (hregistering : l.handler = .registering)
    (habsent : l.forwarder = .absent) :
    Link.Inv s { l with handler := .idle, forwarder := .waiting s.channel.length } := by
  have hidle : l.handler ≠ .idle := fun heq => nomatch hregistering.symm.trans heq
  refine ⟨fun hlisten => absurd hlisten (h.not_opening hidle), (fun heq => nomatch heq), h.uplink,
    (fun heq => nomatch heq), ?_, fun _ hpacket => absurd hpacket List.not_mem_nil, ?_⟩
  · intro next hnext
    cases hnext
    exact Broadcast.keeps_length
  · rcases h.unregistered habsent with ⟨-, -, heq⟩ | ⟨heq, -⟩ | ⟨-, hasked⟩
    · exact absurd heq hidle
    · exact absurd heq hidle
    · exact Or.inr (Or.inr (Or.inl (.of_asked hasked)))

/-- The users are read. -/
theorem Link.Inv.list (h : l.Inv s) (hrunning : l.handler = .running .shadowAll) :
    Link.Inv s { l with
      handler := .sending (.shadowGetListResponse (.ok s.shadowAll)) true } := by
  have hidle : l.handler ≠ .idle := fun heq => nomatch hrunning.symm.trans heq
  have hregistering : l.handler ≠ .registering := fun heq => nomatch hrunning.symm.trans heq
  refine ⟨fun hlisten => absurd hlisten (h.not_opening hidle),
    fun habsent => absurd habsent (h.registered hidle hregistering), h.uplink, h.alive, h.keeps,
    h.carried, Or.inr (Or.inr (Or.inr ?_))⟩
  -- whatever the daemon does before, this list is its cache behind it
  show cacheAfter s.userCache (l.downlink ++ [.shadowGetListResponse (.ok s.shadowAll)]) = _
  rw [cacheAfter_append]
  rfl

/-- A packet of the server is sent. -/
theorem Link.Inv.respond (h : l.Inv s) {packet : LapasProtocol chrono} {goesOn : Bool}
    (hsending : l.handler = .sending packet goesOn) :
    Link.Inv s { l with
      downlink := l.downlink ++ [packet], handler := if goesOn then .idle else .stopped } := by
  have hidle : l.handler ≠ .idle := fun heq => nomatch hsending.symm.trans heq
  have hregistering : l.handler ≠ .registering := fun heq => nomatch hsending.symm.trans heq
  refine ⟨fun hlisten => absurd hlisten (h.not_opening hidle),
    fun habsent => absurd habsent (h.registered hidle hregistering), h.uplink, h.alive, h.keeps,
    h.carried, ?_⟩
  rcases h.fresh with hdoomed | hwriting | hrefreshing | huptodate
  · refine Or.inl (Or.inl ?_)
    rcases hdoomed with heq | ⟨packet', heq⟩
    · cases hsending.symm.trans heq
    · cases hsending.symm.trans heq
      rfl
  · exact Or.inr (Or.inl hwriting)
  · refine Or.inr (Or.inr (Or.inl ?_))
    rcases hrefreshing with hdaemon | huplink | hrunning | hmem
    · exact Or.inl hdaemon
    · exact Or.inr (Or.inl huplink)
    · cases hsending.symm.trans hrunning
    · refine Or.inr (Or.inr (Or.inr ?_))
      rcases List.mem_append.mp hmem with hdownlink | hforwarder
      · exact List.mem_append_left _ (List.mem_append_left _ hdownlink)
      · exact List.mem_append_right _ hforwarder
  · refine Or.inr (Or.inr (Or.inr ?_))
    -- the packet has only moved from the handler to the downlink
    have hout : outgoing (if goesOn then .idle else .stopped : Handler chrono) = [] := by
      cases goesOn <;> rfl
    unfold UpToDate at huptodate ⊢
    rw [hsending] at huptodate
    show cacheAfter s.userCache (l.downlink ++ [packet] ++ outgoing _) = _
    rw [hout, List.append_nil]
    exact huptodate

/-- The forwarding task makes a step, and the daemon will match on what it would have. -/
theorem Link.Inv.forwarder (h : l.Inv s) (hpresent : l.forwarder ≠ .absent)
    {forwarder : Forwarder chrono} {sent : List (LapasProtocol chrono)}
    (habsent : forwarder ≠ .absent) (halive : forwarder ≠ .dead)
    (hkeeps : ∀ next, forwarder.position = some next → Broadcast.Keeps 1 s.channel next)
    (hcarried : ∀ packet ∈ forwarder.carried, Notification packet)
    (hsent : ∀ packet ∈ sent, Notification packet)
    (husers : .notifyUsersChanged ∈ l.forwarder.carried ++ l.forwarder.unreceived s.channel →
      .notifyUsersChanged ∈ sent ++ (forwarder.carried ++ forwarder.unreceived s.channel)) :
    Link.Inv s { l with downlink := l.downlink ++ sent, forwarder } := by
  refine ⟨fun hlisten => absurd (h.opening hlisten).1 hpresent, fun heq => absurd heq habsent,
    h.uplink, halive, hkeeps, hcarried, ?_⟩
  rcases h.fresh with hdoomed | hwriting | hrefreshing | huptodate
  · exact Or.inl hdoomed
  · exact Or.inr (Or.inl hwriting)
  · refine Or.inr (Or.inr (Or.inl ?_))
    rcases hrefreshing with hdaemon | huplink | hrunning | hmem
    · exact Or.inl hdaemon
    · exact Or.inr (Or.inl huplink)
    · exact Or.inr (Or.inr (Or.inl hrunning))
    · refine Or.inr (Or.inr (Or.inr ?_))
      show _ ∈ l.downlink ++ sent ++ _
      rw [List.append_assoc]
      rcases List.mem_append.mp hmem with hdownlink | hforwarder
      · exact List.mem_append_left _ hdownlink
      · exact List.mem_append_right _ (husers hforwarder)
  · refine Or.inr (Or.inr (Or.inr ?_))
    unfold UpToDate at huptodate ⊢
    show cacheAfter s.userCache (l.downlink ++ sent ++ outgoing l.handler) = _
    -- notifications do not change the cache
    rw [cacheAfter_append, cacheAfter_append, cacheAfter_notifications hsent, ← cacheAfter_append]
    exact huptodate

/-- The forwarding task receives a notification, or makes a ping, and sends it next. -/
theorem Link.Inv.carry (h : l.Inv s) {next next' : ℕ} (hwaiting : l.forwarder = .waiting next)
    {packet : LapasProtocol chrono} (hpacket : Notification packet)
    (hkeeps : Broadcast.Keeps 1 s.channel next')
    (husers : .notifyUsersChanged ∈ s.channel.drop next →
      .notifyUsersChanged ∈ packet :: s.channel.drop next') :
    Link.Inv s { l with forwarder := .sending next' packet } := by
  have hforwarder : Link.Inv s { l with
      downlink := l.downlink ++ [], forwarder := .sending next' packet } := by
    refine h.forwarder ?_ (fun heq => nomatch heq) (fun heq => nomatch heq) ?_ ?_ ?_ ?_
    · rw [hwaiting]
      exact fun heq => nomatch heq
    · intro next'' hnext''
      cases hnext''
      exact hkeeps
    · intro packet' hpacket'
      rw [List.mem_singleton.mp hpacket']
      exact hpacket
    · exact fun _ hmem => absurd hmem List.not_mem_nil
    · intro hmem
      rw [hwaiting] at hmem
      exact husers hmem
  rwa [List.append_nil] at hforwarder

/-- The forwarding task has sent its packet. -/
theorem Link.Inv.forward (h : l.Inv s) {next : ℕ} {packet : LapasProtocol chrono}
    (hsending : l.forwarder = .sending next packet) :
    Link.Inv s { l with downlink := l.downlink ++ [packet], forwarder := .waiting next } := by
  have hcarried := h.carried
  rw [hsending] at hcarried
  refine h.forwarder ?_ (fun heq => nomatch heq) (fun heq => nomatch heq) ?_ ?_ hcarried ?_
  · rw [hsending]
    exact fun heq => nomatch heq
  · intro next' hnext'
    exact h.keeps next' (by rw [hsending]; exact hnext')
  · exact fun _ hmem => absurd hmem List.not_mem_nil
  · intro hmem
    rw [hsending] at hmem
    exact hmem

/-- A step of the tasks of the connection. -/
theorem Coherence.Inv.linkStep (h : s.Inv) (hl : s.link = some l) {e : Coherence.Event chrono}
    (hallowed : Allowed s e) (hstep : s.linkStep setup auth l e = some s') : s'.Inv := by
  have hinv := h.link l hl
  cases e with
  | disconnect =>
    cases hstep
    exact ⟨h.channel, fun l' hl' => nomatch hl'⟩
  | send =>
    unfold Coherence.linkStep at hstep
    dsimp only at hstep
    split at hstep
    · next hlisten =>
      cases hstep
      exact h.setLink (hinv.send auth (Or.inl ⟨hlisten, rfl, rfl⟩))
    · next hrequest =>
      cases hstep
      exact h.setLink (hinv.send auth (Or.inr ⟨hrequest, rfl, rfl⟩))
    · cases hstep
  | ping =>
    unfold Coherence.linkStep at hstep
    dsimp only at hstep
    split at hstep
    · next hloop =>
      cases hstep
      exact h.setLink (hinv.ping hloop)
    · cases hstep
  | dispatch =>
    unfold Coherence.linkStep at hstep
    dsimp only at hstep
    split at hstep
    · next packet rest hloop hdownlink =>
      cases hstep
      exact h.dispatch hl hloop hdownlink
    · cases hstep
  | cut rest => exact hallowed.elim
  | handle =>
    unfold Coherence.linkStep at hstep
    dsimp only at hstep
    split at hstep
    · next packet rest hidle huplink =>
      cases hstep
      exact h.setLink (hinv.handle hidle huplink)
    · cases hstep
  | register =>
    unfold Coherence.linkStep at hstep
    dsimp only at hstep
    split at hstep
    · next hregistering habsent =>
      cases hstep
      exact h.setLink (hinv.register hregistering habsent)
    · cases hstep
  | list =>
    unfold Coherence.linkStep at hstep
    dsimp only at hstep
    split at hstep
    · next hrunning =>
      split at hstep
      · cases hstep
      · cases hstep
        exact h.setLink (hinv.list hrunning)
    · cases hstep
  | respond =>
    unfold Coherence.linkStep at hstep
    dsimp only at hstep
    split at hstep
    · next packet goesOn hsending =>
      cases hstep
      exact h.setLink (hinv.respond hsending)
    · cases hstep
  | receive =>
    unfold Coherence.linkStep at hstep
    dsimp only at hstep
    split at hstep
    · next next hwaiting =>
      obtain ⟨⟨received, next'⟩, hreceive, rfl⟩ := Option.map_eq_some_iff.mp hstep
      have hkeeps := hinv.keeps next (by rw [hwaiting]; rfl)
      obtain ⟨packet, rfl, rfl, hdrop, hkeeps'⟩ := hkeeps.receive hreceive
      have hpacket : packet ∈ s.channel.drop next := by
        rw [hdrop]
        exact List.mem_cons_self
      -- nothing has been missed, so the notification is the next one
      exact h.setLink (hinv.carry hwaiting (h.channel packet (List.mem_of_mem_drop hpacket))
        hkeeps' fun husers => hdrop ▸ husers)
    · cases hstep
  | forward =>
    unfold Coherence.linkStep at hstep
    dsimp only at hstep
    split at hstep
    · next next packet hsending =>
      cases hstep
      exact h.setLink (hinv.forward hsending)
    · cases hstep
  | forwardPing =>
    unfold Coherence.linkStep at hstep
    dsimp only at hstep
    split at hstep
    · next next hwaiting =>
      cases hstep
      have hkeeps := hinv.keeps next (by rw [hwaiting]; rfl)
      exact h.setLink (hinv.carry hwaiting (Or.inl rfl) hkeeps (List.mem_cons_of_mem _))
    · cases hstep
  | addUser call => cases hstep
  | written result => cases hstep
  | mapped => cases hstep
  | connect => cases hstep

/-- A notification is sent while the daemon's forwarding task has received the others. -/
theorem Coherence.Inv.notify (h : s.Inv) {packet : LapasProtocol chrono}
    (hpacket : Notification packet)
    (hheeded : ∀ l, s.link = some l → l.forwarder.unreceived s.channel = [])
    {writing : Bool} (hwriting : s.writing = true → writing = false →
      packet = .notifyUsersChanged) :
    Coherence.Inv { s with channel := s.channel ++ [packet], writing } := by
  refine ⟨fun packet' hpacket' => ?_, fun l hl => ?_⟩
  · rcases List.mem_append.mp hpacket' with hold | hnew
    · exact h.channel packet' hold
    · rw [List.mem_singleton.mp hnew]
      exact hpacket
  · have hinv := h.link l hl
    have hunreceived : ∀ next, l.forwarder.position = some next →
        l.forwarder.unreceived (s.channel ++ [packet]) =
          l.forwarder.unreceived s.channel ++ [packet] := by
      intro next hnext
      rw [Forwarder.unreceived, Forwarder.unreceived, hnext]
      exact (hinv.keeps next hnext).drop_send packet
    refine ⟨hinv.opening, hinv.unregistered, hinv.uplink, hinv.alive, ?_, hinv.carried, ?_⟩
    -- a task that has received everything stands at the end of the channel, so that one more
    -- notification does not overtake it
    · intro next hnext
      have hdrop := hheeded l hl
      rw [Forwarder.unreceived, hnext] at hdrop
      have hle : s.channel.length ≤ next := List.drop_eq_nil_iff.mp hdrop
      exact (hinv.keeps next hnext).send (Nat.lt_succ_of_le hle) packet
    · cases hposition : l.forwarder.position with
      | none =>
        -- there is no forwarding task yet, since it has not ended
        have habsent : l.forwarder = .absent := by
          have halive := hinv.alive
          generalize l.forwarder = forwarder at hposition halive
          cases forwarder with
          | absent => rfl
          | dead => exact absurd rfl halive
          | waiting next => cases hposition
          | sending next packet => cases hposition
        exact Or.inr (Or.inr (Or.inl (hinv.refreshing habsent _)))
      | some next =>
        have hmem : packet ∈ l.forwarder.unreceived (s.channel ++ [packet]) := by
          rw [hunreceived next hposition]
          exact List.mem_append_right _ (List.mem_singleton_self _)
        rcases hinv.fresh with hdoomed | hwriting' | hrefreshing | huptodate
        · exact Or.inl hdoomed
        -- the write that ends here is announced by this very notification
        · cases writing with
          | true => exact Or.inr (Or.inl rfl)
          | false =>
            refine Or.inr (Or.inr (Or.inl (Or.inr (Or.inr (Or.inr ?_)))))
            rw [hwriting hwriting' rfl] at hmem ⊢
            exact List.mem_append_right _ (List.mem_append_right _ hmem)
        · refine Or.inr (Or.inr (Or.inl ?_))
          refine hrefreshing.imp_right (Or.imp_right (Or.imp_right fun husers => ?_))
          show _ ∈ l.downlink ++ (l.forwarder.carried ++
            l.forwarder.unreceived (s.channel ++ [packet]))
          rw [hunreceived next hposition, ← List.append_assoc, ← List.append_assoc]
          exact List.mem_append_left _ (by rwa [List.append_assoc])
        · exact Or.inr (Or.inr (Or.inr huptodate))

/-- **One step** of a run that is allowed. -/
theorem Coherence.Inv.step (h : s.Inv) {e : Coherence.Event chrono} (hallowed : Allowed s e)
    (hstep : s.step setup auth e = some s') : s'.Inv := by
  have hlink : (s.link.bind fun l => s.linkStep setup auth l e) = some s' → s'.Inv := by
    intro hbind
    obtain ⟨l, hl, hlstep⟩ := Option.bind_eq_some_iff.mp hbind
    exact h.linkStep hl hallowed hlstep
  cases e with
  | addUser call =>
    unfold Coherence.step at hstep
    dsimp only at hstep
    split at hstep
    · cases hstep
    · split at hstep
      · cases hstep
        exact h
      · cases hstep
        refine ⟨h.channel, fun l hl => ?_⟩
        have hinv := h.link l hl
        exact ⟨hinv.opening, hinv.unregistered, hinv.uplink, hinv.alive, hinv.keeps,
          hinv.carried, Or.inr (Or.inl rfl)⟩
  | written result =>
    unfold Coherence.step at hstep
    dsimp only at hstep
    split at hstep
    · cases hstep
      cases result with
      | ok => exact h.notify (Or.inr (Or.inl rfl)) hallowed fun _ _ => rfl
      -- nothing announces a user whose write has failed: the step is allowed only when the users
      -- are read again anyway
      | error e =>
        refine ⟨h.channel, fun l hl => ?_⟩
        have hinv := h.link l hl
        exact ⟨hinv.opening, hinv.unregistered, hinv.uplink, hinv.alive, hinv.keeps,
          hinv.carried, (hallowed l hl).imp_right fun hrefreshing => Or.inr (Or.inl hrefreshing)⟩
    · cases hstep
  | mapped =>
    cases hstep
    exact h.notify (Or.inr (Or.inr rfl)) hallowed fun htrue hfalse =>
      absurd (htrue.symm.trans hfalse) (fun heq => nomatch heq)
  | connect =>
    unfold Coherence.step at hstep
    dsimp only at hstep
    split at hstep
    · cases hstep
      refine h.setLink ⟨fun _ => ⟨rfl, rfl, rfl⟩, fun _ => Or.inl ⟨rfl, rfl, rfl⟩,
        ?_, ?_, ?_, ?_, ?_⟩
      · exact fun _ hpacket => absurd hpacket List.not_mem_nil
      · exact fun heq => nomatch heq
      · exact fun _ hnext => nomatch hnext
      · exact fun _ hpacket => absurd hpacket List.not_mem_nil
      · exact Or.inr (Or.inr (Or.inl (Or.inl fun heq => nomatch heq)))
    · cases hstep
  | _ => exact hlink hstep

theorem inv_of_reach_coherence (h : (coherence setup auth chrono).Reach Allowed s) : s.Inv := by
  refine h.invariant (fun s hs => ?_) fun s e s' hs hallowed hstep => hs.step hallowed hstep
  obtain ⟨index, rfl⟩ := hs
  exact ⟨fun _ hpacket => absurd hpacket List.not_mem_nil, fun l hl => nomatch hl⟩

/-- In every state that is reached, the cache of a daemon at rest is the list of the server. -/
def CacheCoherent (setup : Setup ι) (auth : ApiAuth) (chrono : Chrono) : Prop :=
  ∀ (s : Coherence chrono) (l : Link chrono),
    (coherence setup auth chrono).Reach (fun _ _ => True) s → s.link = some l →
    Quiescent s l → s.userCache = some s.shadowAll

/-- **Coherence.**  In every run of allowed steps, when the daemon is connected and nothing is
on its way, its cache is the list of the server. -/
theorem cache_eq_of_quiescent (h : (coherence setup auth chrono).Reach Allowed s)
    (hl : s.link = some l) (hquiescent : Quiescent s l) :
    s.userCache = some s.shadowAll := by
  have hinv := (inv_of_reach_coherence h).link l hl
  -- at rest, only the last of the four cases is left
  rcases hinv.fresh with hdoomed | hwriting | hrefreshing | huptodate
  · rw [hquiescent.handler] at hdoomed
    rcases hdoomed with heq | ⟨_, heq⟩ <;> cases heq
  · cases hquiescent.writing.symm.trans hwriting
  · rcases hrefreshing with hdaemon | ⟨_, hmem⟩ | hrunning | hmem
    · exact absurd hquiescent.daemon hdaemon
    · rw [hquiescent.uplink] at hmem
      exact absurd hmem List.not_mem_nil
    · cases hquiescent.handler.symm.trans hrunning
    · rw [hquiescent.downlink, hquiescent.carried, hquiescent.unreceived] at hmem
      exact absurd hmem List.not_mem_nil
  · unfold UpToDate at huptodate
    rw [hquiescent.downlink, hquiescent.handler] at huptodate
    exact huptodate

end

/-! ### Runs -/

theorem handleClient_secret :
    handleClient secretSetup (.shadowGetList (.password "secret") : LapasProtocol epoch) =
      .running .shadowAll := by
  simp only [handleClient, handleRequest, checkAuth_secret]

/-- The daemon connects and requests the users. -/
theorem reach_connected (index : UserIndex epoch) :
    (coherence secretSetup (.password "secret") epoch).Reach Allowed
      ⟨index, false, [], some ⟨.loop, [], [], .idle, .waiting 0⟩,
        some (.ofList index.shadowAll)⟩ := by
  have hconnected : (coherence secretSetup (.password "secret") epoch).Reach Allowed
      ⟨index, false, [], some ⟨.listen, [], [], .idle, .absent⟩, none⟩ :=
    .step (.start ⟨index, rfl⟩) (e := .connect) trivial rfl
  have hlisten : (coherence secretSetup (.password "secret") epoch).Reach Allowed
      ⟨index, false, [], some ⟨.request, [.controlListenEvents], [], .idle, .absent⟩, none⟩ :=
    .step hconnected (e := .send) trivial rfl
  have hrequested : (coherence secretSetup (.password "secret") epoch).Reach Allowed
      ⟨index, false, [], some ⟨.loop, [.controlListenEvents, .shadowGetList (.password "secret")],
        [], .idle, .absent⟩, none⟩ := .step hlisten (e := .send) trivial rfl
  have hregistering : (coherence secretSetup (.password "secret") epoch).Reach Allowed
      ⟨index, false, [], some ⟨.loop, [.shadowGetList (.password "secret")],
        [], .registering, .absent⟩, none⟩ := .step hrequested (e := .handle) trivial rfl
  have hregistered : (coherence secretSetup (.password "secret") epoch).Reach Allowed
      ⟨index, false, [], some ⟨.loop, [.shadowGetList (.password "secret")],
        [], .idle, .waiting 0⟩, none⟩ := .step hregistering (e := .register) trivial rfl
  have hrunning : (coherence secretSetup (.password "secret") epoch).Reach Allowed
      ⟨index, false, [], some ⟨.loop, [], [], .running .shadowAll, .waiting 0⟩, none⟩ := by
    refine .step hregistered (e := .handle) trivial ?_
    rw [← handleClient_secret]
    rfl
  have hlisted : (coherence secretSetup (.password "secret") epoch).Reach Allowed
      ⟨index, false, [], some ⟨.loop, [], [],
        .sending (.shadowGetListResponse (.ok (.ofList index.shadowAll))) true, .waiting 0⟩,
        none⟩ := .step hrunning (e := .list) trivial rfl
  have hresponded : (coherence secretSetup (.password "secret") epoch).Reach Allowed
      ⟨index, false, [], some ⟨.loop, [],
        [.shadowGetListResponse (.ok (.ofList index.shadowAll))], .idle, .waiting 0⟩, none⟩ :=
    .step hlisted (e := .respond) trivial rfl
  exact .step hresponded (e := .dispatch) trivial rfl

/-- Another user than `bob`, for the runs in which the index changes while the daemon is already
listening. -/
def alice : Registration epoch := { bob with username := "alice" }

/-- The daemon has the list with `bob` when `alice` is registered; it is notified, and requests the
list again. -/
theorem cache_eq_of_quiescent_bob : ∃ (s : Coherence epoch) (index : UserIndex epoch),
    (coherence secretSetup (.password "secret") epoch).Reach Allowed s ∧
    bobIndex.addUser bobCrypt alice = .ok index ∧ s.index = index ∧
    s.userCache = some s.shadowAll := by
  obtain ⟨index, halice⟩ : ∃ index, bobIndex.addUser bobCrypt alice = .ok index := ⟨_, rfl⟩
  let cache : Option (Vec (LapasUserShadow epoch)) := some (.ofList bobIndex.shadowAll)
  have hpushed : (coherence secretSetup (.password "secret") epoch).Reach Allowed
      ⟨index, true, [], some ⟨.loop, [], [], .idle, .waiting 0⟩, cache⟩ := by
    refine .step (reach_connected bobIndex) (e := .addUser alice) trivial ?_
    have halice' : bobIndex.addUser secretSetup.sha512Crypt alice = .ok index := halice
    simp only [coherence, Coherence.step, Bool.false_eq_true, ↓reduceIte, halice']
    rfl
  have hnotified : (coherence secretSetup (.password "secret") epoch).Reach Allowed
      ⟨index, false, [.notifyUsersChanged], some ⟨.loop, [], [], .idle, .waiting 0⟩, cache⟩ := by
    refine .step hpushed (e := .written (.ok ())) ?_ rfl
    rintro l hl
    cases hl
    rfl
  -- the forwarding task sends the notification
  have hreceived : (coherence secretSetup (.password "secret") epoch).Reach Allowed
      ⟨index, false, [.notifyUsersChanged],
        some ⟨.loop, [], [], .idle, .sending 1 .notifyUsersChanged⟩, cache⟩ :=
    .step hnotified (e := .receive) trivial rfl
  have hforwarded : (coherence secretSetup (.password "secret") epoch).Reach Allowed
      ⟨index, false, [.notifyUsersChanged],
        some ⟨.loop, [], [.notifyUsersChanged], .idle, .waiting 1⟩, cache⟩ :=
    .step hreceived (e := .forward) trivial rfl
  -- the daemon requests the list
  have hdispatched : (coherence secretSetup (.password "secret") epoch).Reach Allowed
      ⟨index, false, [.notifyUsersChanged], some ⟨.request, [], [], .idle, .waiting 1⟩, cache⟩ :=
    .step hforwarded (e := .dispatch) trivial rfl
  have hrequested : (coherence secretSetup (.password "secret") epoch).Reach Allowed
      ⟨index, false, [.notifyUsersChanged],
        some ⟨.loop, [.shadowGetList (.password "secret")], [], .idle, .waiting 1⟩, cache⟩ :=
    .step hdispatched (e := .send) trivial rfl
  have hrunning : (coherence secretSetup (.password "secret") epoch).Reach Allowed
      ⟨index, false, [.notifyUsersChanged],
        some ⟨.loop, [], [], .running .shadowAll, .waiting 1⟩, cache⟩ := by
    refine .step hrequested (e := .handle) trivial ?_
    rw [← handleClient_secret]
    rfl
  have hlisted : (coherence secretSetup (.password "secret") epoch).Reach Allowed
      ⟨index, false, [.notifyUsersChanged], some ⟨.loop, [], [],
        .sending (.shadowGetListResponse (.ok (.ofList index.shadowAll))) true, .waiting 1⟩,
        cache⟩ := .step hrunning (e := .list) trivial rfl
  have hresponded : (coherence secretSetup (.password "secret") epoch).Reach Allowed
      ⟨index, false, [.notifyUsersChanged], some ⟨.loop, [],
        [.shadowGetListResponse (.ok (.ofList index.shadowAll))], .idle, .waiting 1⟩, cache⟩ :=
    .step hlisted (e := .respond) trivial rfl
  have hrefreshed : (coherence secretSetup (.password "secret") epoch).Reach Allowed
      ⟨index, false, [.notifyUsersChanged], some ⟨.loop, [], [], .idle, .waiting 1⟩,
        some (.ofList index.shadowAll)⟩ := .step hresponded (e := .dispatch) trivial rfl
  exact ⟨_, index, hrefreshed, halice, rfl,
    cache_eq_of_quiescent hrefreshed rfl ⟨rfl, rfl, rfl, rfl, rfl, rfl, rfl⟩⟩

/-- The users `bob` and `alice` are registered before the forwarding task runs: it ends, and
the cache of the daemon stays empty. -/
theorem not_cacheCoherent : ¬ CacheCoherent secretSetup (.password "secret") epoch := by
  intro h
  have hstart := (reach_connected .default).mono (fun _ _ _ => trivial : ∀ s e, Allowed s e → True)
  have hbob : (UserIndex.default : UserIndex epoch).addUser bobCrypt bob = .ok bobIndex := rfl
  obtain ⟨index, halice⟩ : ∃ index, bobIndex.addUser bobCrypt alice = .ok index := ⟨_, rfl⟩
  let l : Link epoch := ⟨.loop, [], [], .idle, .waiting 0⟩
  let cache : Option (Vec (LapasUserShadow epoch)) :=
    some (.ofList (UserIndex.default : UserIndex epoch).shadowAll)
  have hpushed : (coherence secretSetup (.password "secret") epoch).Reach (fun _ _ => True)
      ⟨bobIndex, true, [], some l, cache⟩ := .step hstart (e := .addUser bob) trivial rfl
  have hnotified : (coherence secretSetup (.password "secret") epoch).Reach (fun _ _ => True)
      ⟨bobIndex, false, [.notifyUsersChanged], some l, cache⟩ :=
    .step hpushed (e := .written (.ok ())) trivial rfl
  -- the forwarding task has not run yet when the second notification is sent
  have hpushed' : (coherence secretSetup (.password "secret") epoch).Reach (fun _ _ => True)
      ⟨index, true, [.notifyUsersChanged], some l, cache⟩ := by
    refine .step hnotified (e := .addUser alice) trivial ?_
    have halice' : bobIndex.addUser secretSetup.sha512Crypt alice = .ok index := halice
    simp only [coherence, Coherence.step, Bool.false_eq_true, ↓reduceIte, halice']
  have hnotified' : (coherence secretSetup (.password "secret") epoch).Reach (fun _ _ => True)
      ⟨index, false, [.notifyUsersChanged, .notifyUsersChanged], some l, cache⟩ :=
    .step hpushed' (e := .written (.ok ())) trivial rfl
  -- `recv` returns `Lagged`, which ends the task
  have hdead : (coherence secretSetup (.password "secret") epoch).Reach (fun _ _ => True)
      ⟨index, false, [.notifyUsersChanged, .notifyUsersChanged],
        some { l with forwarder := .dead }, cache⟩ :=
    .step hnotified' (e := .receive) trivial rfl
  have hcache := h _ { l with forwarder := .dead } hdead rfl ⟨rfl, rfl, rfl, rfl, rfl, rfl, rfl⟩
  obtain ⟨-, -, hindex⟩ := UserIndex.addUser_eq_ok halice
  have helems := congrArg (fun users => users.elems.length) (Option.some.inj hcache)
  rw [hindex] at helems
  cases helems

end Daemon
end Lapas
