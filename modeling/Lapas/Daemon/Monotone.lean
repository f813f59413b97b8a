import Lapas.Daemon.Coherence
import Mathlib.Data.List.Infix

/-!
# The cache at any time

Between two updates the cache of the daemon may be behind the server, for as long as a notification
has been missed.  It is never ahead, it never goes back, and it holds no user that the server does
not have: the lists on their way to the daemon are in the order in which they have been read.

## Main definitions

* `Coherence.cached`, `Link.lists` — the cache, and the lists on their way to it.
* `Coherence.Ordered` — each of them is the beginning of the next one, and of the server's list.
* `Uncut` — the timer cuts no packet.

## Main results

* `Coherence.Ordered.step` — the steps of all tasks keep the lists in order.
* `cached_prefix_of_step` — the cache only grows.
-/

namespace Lapas
namespace Daemon

open Proto Server

variable {chrono : Chrono} {ι : Type}

/-- What `UserCache::get` returns: the users of the cache, and no users in front of the first answer
of the server. -/
def Coherence.cached (s : Coherence chrono) : List (LapasUserShadow chrono) :=
  (s.userCache.getD (.ofList [])).elems

/-- The lists among some packets: the users of every successful `ShadowGetListResponse`, in the
order of the packets. -/
def listsIn (packets : List (LapasProtocol chrono)) : List (List (LapasUserShadow chrono)) :=
  packets.filterMap fun
    | .shadowGetListResponse (.ok users) => some users.elems
    | _ => none

/-- The lists that are on their way to the daemon. -/
def Link.lists (l : Link chrono) : List (List (LapasUserShadow chrono)) :=
  listsIn (l.downlink ++ outgoing l.handler)

/-- Each list is the beginning of those that have been read later. -/
def InOrder (cached : List (LapasUserShadow chrono)) (lists : List (List (LapasUserShadow chrono)))
    (current : List (LapasUserShadow chrono)) : Prop :=
  (cached :: lists ++ [current]).Pairwise (· <+: ·)

/-- The lists in the cache, on the way and in the index grow in this order, and nothing but
notifications comes in between. -/
structure Coherence.Ordered (s : Coherence chrono) : Prop where
  lists : InOrder s.cached (s.link.elim [] Link.lists) s.shadowAll.elems
  channel : ∀ packet ∈ s.channel, Notification packet
  carried : ∀ l, s.link = some l → ∀ packet ∈ l.forwarder.carried, Notification packet

/-- The timer of the daemon drops no `decode` that has begun. -/
def Uncut (e : Coherence.Event chrono) : Prop := ∀ rest, e ≠ .cut rest

/-! ### Lists in order -/

section

variable {cached current : List (LapasUserShadow chrono)}
  {lists lists' : List (List (LapasUserShadow chrono))}

@[simp] theorem listsIn_append (packets packets' : List (LapasProtocol chrono)) :
    listsIn (packets ++ packets') = listsIn packets ++ listsIn packets' := List.filterMap_append

theorem listsIn_notifications {packets : List (LapasProtocol chrono)}
    (h : ∀ packet ∈ packets, Notification packet) : listsIn packets = [] := by
  rw [listsIn, List.filterMap_eq_nil_iff]
  intro packet hpacket
  rcases h packet hpacket with rfl | rfl | rfl <;> rfl

/-- The cache is the beginning of the server's list. -/
theorem InOrder.cached_prefix (h : InOrder cached lists current) : cached <+: current :=
  List.rel_of_pairwise_cons h (List.mem_append_right _ (List.mem_singleton_self current))

/-- Some of the lists are gone. -/
theorem InOrder.sublist (h : InOrder cached lists current) (hsub : lists'.Sublist lists) :
    InOrder cached lists' current :=
  List.Pairwise.sublist ((hsub.append_right _).cons_cons cached) h

/-- The next list becomes the cache. -/
theorem InOrder.next {users : List (LapasUserShadow chrono)}
    (h : InOrder cached (users :: lists) current) :
    InOrder users lists current ∧ cached <+: users :=
  ⟨List.Pairwise.of_cons h, List.rel_of_pairwise_cons h List.mem_cons_self⟩

/-- The server has a longer list. -/
theorem InOrder.grow {current' : List (LapasUserShadow chrono)}
    (h : InOrder cached lists current) (hgrown : current <+: current') :
    InOrder cached lists current' := by
  obtain ⟨hlists, -, hcurrent⟩ := List.pairwise_append.mp h
  refine List.pairwise_append.mpr ⟨hlists, List.pairwise_singleton _ _, ?_⟩
  intro list hlist last hlast
  rw [List.mem_singleton.mp hlast]
  exact (hcurrent list hlist current (List.mem_singleton_self _)).trans hgrown

/-- The server's list is read. -/
theorem InOrder.read (h : InOrder cached lists current) :
    InOrder cached (lists ++ [current]) current := by
  obtain ⟨-, -, hcurrent⟩ := List.pairwise_append.mp h
  refine List.pairwise_append.mpr ⟨h, List.pairwise_singleton _ _, ?_⟩
  intro list hlist last hlast
  rw [List.mem_singleton.mp hlast]
  rw [← List.cons_append] at hlist
  rcases List.mem_append.mp hlist with hlist | hlist
  · exact hcurrent list hlist current (List.mem_singleton_self _)
  · rw [List.mem_singleton.mp hlist]

end

/-! ### One step -/

section

variable {setup : Setup ι} {auth : ApiAuth} {s s' : Coherence chrono} {l l' : Link chrono}

theorem Coherence.Ordered.setLink (h : s.Ordered) (hl : s.link = some l)
    (hlists : l'.lists.Sublist l.lists)
    (hcarried : ∀ packet ∈ l'.forwarder.carried, Notification packet) :
    (s.setLink l').Ordered := by
  have hin := h.lists
  rw [hl] at hin
  refine ⟨hin.sublist hlists, h.channel, fun l'' hl'' => ?_⟩
  cases hl''
  exact hcarried

/-- `run_daemon` matches on a packet. -/
theorem Coherence.Ordered.dispatch (h : s.Ordered) (hl : s.link = some l)
    {packet : LapasProtocol chrono} {rest : List (LapasProtocol chrono)}
    (hdownlink : l.downlink = packet :: rest) :
    (s.dispatch { l with downlink := rest } packet).Ordered ∧
      s.cached <+: (s.dispatch { l with downlink := rest } packet).cached := by
  have hlists : l.lists = listsIn [packet] ++ Link.lists { l with downlink := rest } := by
    rw [Link.lists, Link.lists, hdownlink, ← listsIn_append]
    rfl
  have hskip : ∀ daemon : RunDaemon,
      (s.setLink { l with daemon, downlink := rest }).Ordered := by
    intro daemon
    refine h.setLink hl ?_ (h.carried l hl)
    rw [hlists]
    exact List.sublist_append_right _ _
  cases packet with
  | notifyUsersChanged => exact ⟨hskip .request, List.prefix_rfl⟩
  | shadowGetListResponse result =>
    cases result with
    | error e =>
      refine ⟨⟨?_, h.channel, fun l' hl' => by cases hl'⟩, List.prefix_rfl⟩
      exact h.lists.sublist (List.nil_sublist _)
    | ok users =>
      have hin := h.lists
      rw [hl] at hin
      simp only [Option.elim_some, hlists] at hin
      obtain ⟨hin, hgrown⟩ := hin.next
      refine ⟨⟨hin, h.channel, fun l' hl' => ?_⟩, hgrown⟩
      cases hl'
      exact h.carried l hl
  | _ => exact ⟨hskip l.daemon, List.prefix_rfl⟩

/-- What the server sends for a packet, before it does anything, is not a list. -/
theorem listsIn_handleClient (packet : LapasProtocol chrono) :
    listsIn (outgoing (handleClient setup packet)) = [] := by
  rcases handleClient_cases packet (rfl : handleClient setup packet = _) with
    h | h | h | h | ⟨response, h, hshadow⟩ | ⟨_, h, -⟩
  · rw [h]
    rfl
  · rw [h]
    rfl
  · rw [h]
    rfl
  · rw [h]
    rfl
  · rw [h, listsIn, List.filterMap_eq_nil_iff]
    intro packet' hpacket'
    rw [List.mem_singleton.mp hpacket']
    split
    · exact absurd rfl (hshadow _)
    · rfl
  · rw [h]
    rfl

/-- The tasks of the connection register nobody. -/
theorem index_linkStep {e : Coherence.Event chrono}
    (hstep : s.linkStep setup auth l e = some s') : s'.index = s.index := by
  have hdispatch : ∀ (l : Link chrono) (packet : LapasProtocol chrono),
      (s.dispatch l packet).index = s.index := by
    intro l packet
    unfold Coherence.dispatch
    split <;> rfl
  unfold Coherence.linkStep at hstep
  repeat' split at hstep
  all_goals first
    | cases hstep
    | obtain ⟨_, -, rfl⟩ := Option.map_eq_some_iff.mp hstep
  all_goals first
    | rfl
    | exact hdispatch _ _

/-- A step of the tasks of the connection. -/
theorem Coherence.Ordered.linkStep (h : s.Ordered) (hl : s.link = some l)
    {e : Coherence.Event chrono} (huncut : Uncut e)
    (hstep : s.linkStep setup auth l e = some s') : s'.Ordered ∧ s.cached <+: s'.cached := by
  have hcarried := h.carried l hl
  cases e with
  | disconnect =>
    cases hstep
    refine ⟨⟨?_, h.channel, fun l' hl' => by cases hl'⟩, List.prefix_rfl⟩
    exact h.lists.sublist (List.nil_sublist _)
  | send =>
    simp only [Coherence.linkStep] at hstep
    split at hstep <;> cases hstep <;>
      exact ⟨h.setLink hl (List.Sublist.refl _) hcarried, List.prefix_rfl⟩
  | ping =>
    simp only [Coherence.linkStep] at hstep
    split at hstep <;> cases hstep
    exact ⟨h.setLink hl (List.Sublist.refl _) hcarried, List.prefix_rfl⟩
  | dispatch =>
    simp only [Coherence.linkStep] at hstep
    split at hstep <;> cases hstep
    next hdownlink => exact h.dispatch hl hdownlink
  | cut rest => exact absurd rfl (huncut rest)
  | handle =>
    simp only [Coherence.linkStep] at hstep
    split at hstep <;> cases hstep
    next packet rest hidle huplink =>
    refine ⟨h.setLink hl ?_ hcarried, List.prefix_rfl⟩
    simp only [Link.lists, listsIn_append, listsIn_handleClient, List.append_nil]
    exact List.sublist_append_left _ _
  | register =>
    simp only [Coherence.linkStep] at hstep
    split at hstep <;> cases hstep
    next hregistering _ =>
    refine ⟨h.setLink hl ?_ fun _ hpacket => absurd hpacket List.not_mem_nil, List.prefix_rfl⟩
    rw [Link.lists, Link.lists, hregistering]
    exact List.Sublist.refl _
  | list =>
    simp only [Coherence.linkStep] at hstep
    split at hstep
    · next hrunning =>
      split at hstep <;> cases hstep
      have hin := h.lists.read
      simp only [hl, Option.elim_some, Link.lists, hrunning, outgoing, List.append_nil] at hin
      refine ⟨⟨?_, h.channel, fun l' hl' => ?_⟩, List.prefix_rfl⟩
      · simp only [Coherence.setLink, Option.elim_some, Link.lists, outgoing, listsIn_append]
        exact hin
      · cases hl'
        exact hcarried
    · cases hstep
  | respond =>
    simp only [Coherence.linkStep] at hstep
    split at hstep <;> cases hstep
    next packet goesOn hsending =>
    refine ⟨h.setLink hl ?_ hcarried, List.prefix_rfl⟩
    -- the packet has only moved from the handler to the downlink
    have hout : outgoing (if goesOn then .idle else .stopped : Handler chrono) = [] := by
      cases goesOn <;> rfl
    rw [Link.lists, Link.lists, hout, hsending, List.append_nil]
    exact List.Sublist.refl _
  | receive =>
    simp only [Coherence.linkStep] at hstep
    split at hstep
    · next next hwaiting =>
      obtain ⟨⟨received, next'⟩, hreceive, rfl⟩ := Option.map_eq_some_iff.mp hstep
      refine ⟨h.setLink hl (List.Sublist.refl _) fun packet hpacket => ?_, List.prefix_rfl⟩
      cases received with
      | lagged => exact absurd hpacket List.not_mem_nil
      | value a =>
        rw [List.mem_singleton.mp hpacket]
        exact h.channel a (Broadcast.mem_of_receive hreceive)
    · cases hstep
  | forward =>
    simp only [Coherence.linkStep] at hstep
    split at hstep <;> cases hstep
    next next packet hsending =>
    rw [hsending] at hcarried
    refine ⟨h.setLink hl ?_ fun _ hpacket => absurd hpacket List.not_mem_nil, List.prefix_rfl⟩
    have hpacket : listsIn [packet] = [] := listsIn_notifications hcarried
    simp only [Link.lists, listsIn_append, hpacket, List.append_nil]
    exact List.Sublist.refl _
  | forwardPing =>
    simp only [Coherence.linkStep] at hstep
    split at hstep <;> cases hstep
    refine ⟨h.setLink hl (List.Sublist.refl _) fun packet hpacket => ?_, List.prefix_rfl⟩
    rw [List.mem_singleton.mp hpacket]
    exact .inl rfl
  | _ => cases hstep

/-- Users are added at the end. -/
theorem shadowAll_isPrefix {index index' : UserIndex chrono} (h : index.users <+: index'.users) :
    (Vec.ofList index.shadowAll).elems <+: (Vec.ofList index'.shadowAll).elems :=
  (h.map _).take _

/-- **One step.**  As long as the timer cuts no packet, the lists stay in order, and the cache and
the list of the server grow. -/
theorem Coherence.Ordered.step (h : s.Ordered) {e : Coherence.Event chrono} (huncut : Uncut e)
    (hstep : s.step setup auth e = some s') :
    s'.Ordered ∧ s.cached <+: s'.cached ∧ s.index.users <+: s'.index.users := by
  cases e with
  | addUser call =>
    simp only [Coherence.step] at hstep
    split at hstep
    · cases hstep
    · split at hstep <;> cases hstep
      · exact ⟨h, List.prefix_rfl, List.prefix_rfl⟩
      · -- an accepted user comes last, so every list that is under way is a prefix of the new one
        next index hindex =>
        obtain ⟨-, -, rfl⟩ := UserIndex.addUser_eq_ok hindex
        have hgrown :=
          List.prefix_append s.index.users [call.entry setup.sha512Crypt s.index.nextId]
        exact ⟨⟨h.lists.grow (shadowAll_isPrefix hgrown), h.channel, h.carried⟩, List.prefix_rfl,
          hgrown⟩
  | written result =>
    simp only [Coherence.step] at hstep
    split at hstep <;> cases hstep
    -- a notification carries no list
    refine ⟨⟨h.lists, fun packet hpacket => ?_, h.carried⟩, List.prefix_rfl, List.prefix_rfl⟩
    dsimp only at hpacket
    split at hpacket
    · rcases List.mem_append.mp hpacket with hold | hnew
      · exact h.channel packet hold
      · rw [List.mem_singleton.mp hnew]
        exact .inr (.inl rfl)
    · exact h.channel packet hpacket
  | mapped =>
    cases hstep
    refine ⟨⟨h.lists, fun packet hpacket => ?_, h.carried⟩, List.prefix_rfl, List.prefix_rfl⟩
    rcases List.mem_append.mp hpacket with hold | hnew
    · exact h.channel packet hold
    · rw [List.mem_singleton.mp hnew]
      exact .inr (.inr rfl)
  | connect =>
    simp only [Coherence.step] at hstep
    split at hstep <;> cases hstep
    next hl =>
    have hin := h.lists
    rw [hl] at hin
    refine ⟨⟨hin, h.channel, fun l hl' => ?_⟩, List.prefix_rfl, List.prefix_rfl⟩
    cases hl'
    exact fun _ hpacket => absurd hpacket List.not_mem_nil
  | _ =>
    -- the steps of the connection do not touch the index
    obtain ⟨l, hl, hlstep⟩ := Option.bind_eq_some_iff.mp hstep
    obtain ⟨hordered, hgrown⟩ := h.linkStep hl huncut hlstep
    exact ⟨hordered, hgrown, by rw [index_linkStep hlstep]⟩

end

end Daemon
end Lapas
