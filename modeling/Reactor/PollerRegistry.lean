import Reactor.Lib.Transition
import Reactor.Poller

/-!
# The channels of one loop and their poller

The system runs any sequence of enable, disable and remove calls on any family of
channels with pairwise distinct descriptors, while the loop moves through its
iterations. `remove` is called as the poller asserts it is: on a channel without
events that is in the map. The loop's own assertion, that a channel is not removed
while it waits to be dispatched, is the one thing left that a call can violate.

* `RegistryInv` - the map, the channels' indices and the interest set agree.
* `registry_agrees` - it holds in every reachable state, and no `epoll_ctl` call fails.
* `disabled_channel_silent` - a channel with an empty mask is not in the interest set, unless
  it was disabled while it was disabled.
-/

namespace Reactor

open Reactor.Lib

/-- The operations of `Channel.h` that change the event mask. -/
inductive ChannelOp where
  | enableReading
  | disableReading
  | enableWriting
  | disableWriting
  | disableAll
deriving DecidableEq, Repr

section System

variable {C : Type} [DecidableEq C]

def ChannelOp.run (op : ChannelOp) (ch : Channel) (self : C) (p : EPollPoller C) :
    Exec (Channel × EPollPoller C) :=
  match op with
  | .enableReading => ch.enableReading self p
  | .disableReading => ch.disableReading self p
  | .enableWriting => ch.enableWriting self p
  | .disableWriting => ch.disableWriting self p
  | .disableAll => ch.disableAll self p

/-- The channels of a loop, its poller and where its dispatch stands. -/
structure Registry (C : Type) where
  chans : C → Channel
  poller : EPollPoller C
  dispatching : Dispatching C

inductive RegistryLabel (C : Type) where
  | call (c : C) (op : ChannelOp)
  | remove (c : C)
  /-- The loop polls, starts or ends handling a channel's events. -/
  | dispatch (d : Dispatching C)

/-- What `Channel::remove` and `EPollPoller::removeChannel` assert of the channel's
events and of the map. -/
def Registry.Removable (s : Registry C) (c : C) : Prop :=
  (s.chans c).isNoneEvent = true ∧ s.poller.channels (s.chans c).fd = some c

instance (s : Registry C) (c : C) : Decidable (s.Removable c) := by
  unfold Registry.Removable; infer_instance

/-- The state after a call on channel `c` that gave back its new record. -/
def Registry.put (s : Registry C) (c : C) (out : Channel × EPollPoller C) : Registry C :=
  { s with chans := Function.update s.chans c out.1, poller := out.2 }

def Registry.step (label : RegistryLabel C) (s : Registry C) : Option (Exec (Registry C)) :=
  match label with
  | .call c op => some ((op.run (s.chans c) c s.poller).map (s.put c))
  | .remove c =>
      if s.Removable c then
        some (((s.chans c).remove c s.dispatching s.poller).map (s.put c))
      else none
  | .dispatch d => some (.ok { s with dispatching := d })

/-- All channels of the loop, newly constructed, with the descriptors `fd`. -/
def registrySystem (fd : C → Int) : System (Registry C) (RegistryLabel C) Fault where
  init s := (∀ c, s.chans c = Channel.create (fd c)) ∧ s.poller = .create
  step := Registry.step

end System

/-! ### The invariant -/

section Invariant

variable {C : Type} [DecidableEq C] {fd : C → Int} {s s' : Registry C}

/-- Every channel's three views agree, and the poller holds nothing under a descriptor
that is not its channel's own. -/
structure RegistryInv (fd : C → Int) (s : Registry C) : Prop where
  fds : ∀ c, (s.chans c).fd = fd c
  registered : ∀ c, Registered s.poller c (s.chans c)
  channels_own : ∀ x c, s.poller.channels x = some c → fd c = x
  interest_own : ∀ x e, s.poller.interest x = some e → fd e.ptr = x
  none_failed : s.poller.failed = []

omit [DecidableEq C] in
/-- What a registered channel leaves under its descriptor points to it. -/
theorem Registered.own {p : EPollPoller C} {c : C} {ch : Channel} (h : Registered p c ch) :
    (∀ c', p.channels ch.fd = some c' → c' = c) ∧
      ∀ e, p.interest ch.fd = some e → e.ptr = c := by
  unfold Registered at h
  have hsome : ∀ c', p.channels ch.fd = some c → p.channels ch.fd = some c' → c' = c :=
    fun c' hc hc' => Option.some.inj (hc'.symm.trans hc)
  cases hidx : ch.index with
  | kNew =>
      simp only [hidx] at h
      simp [h.1, h.2]
  | kAdded =>
      simp only [hidx] at h
      refine ⟨fun c' => hsome c' h.1, fun e he => ?_⟩
      exact congrArg EpollEvent.ptr (Option.some.inj (he.symm.trans h.2))
  | kDeleted =>
      simp only [hidx] at h
      exact ⟨fun c' => hsome c' h.1, by simp [h.2]⟩

/-- A call on `c` that leaves its views in agreement, and everything under other
descriptors alone, keeps the invariant. -/
theorem RegistryInv.put (h : RegistryInv fd s) (hinj : Function.Injective fd) {c : C}
    {ch : Channel} {p : EPollPoller C} (hreg : Registered p c ch)
    (hfd : ch.fd = (s.chans c).fd) (hsame : SameElsewhere (s.chans c).fd s.poller p) :
    RegistryInv fd (s.put c (ch, p)) := by
  have hc : ch.fd = fd c := hfd.trans (h.fds c)
  obtain ⟨hmapOwn, hintOwn⟩ := hreg.own
  rw [h.fds c] at hsame
  refine ⟨?_, ?_, ?_, ?_, ?_⟩
  · intro c'
    by_cases hcc : c' = c
    · subst hcc
      simpa [Registry.put] using hc
    · simpa [Registry.put, hcc] using h.fds c'
  · intro c'
    by_cases hcc : c' = c
    · subst hcc
      simpa [Registry.put] using hreg
    · have hne : (s.chans c').fd ≠ fd c := by
        rw [h.fds c']
        exact fun heq => hcc (hinj heq)
      simp only [Registry.put, Function.update_of_ne hcc]
      exact (h.registered c').elsewhere hsame hne
  · intro x c' hx
    by_cases hxc : x = fd c
    · subst hxc
      rw [hmapOwn c' (by rw [hc]; exact hx)]
    · exact h.channels_own x c' (by rw [← hsame.channels x hxc]; exact hx)
  · intro x e hx
    by_cases hxc : x = fd c
    · subst hxc
      rw [hintOwn e (by rw [hc]; exact hx)]
    · exact h.interest_own x e (by rw [← hsame.interest x hxc]; exact hx)
  · exact hsame.failed.trans h.none_failed

theorem init_registryInv (h : (registrySystem fd).init s) : RegistryInv fd s := by
  obtain ⟨hchans, hpoller⟩ := h
  refine ⟨?_, ?_, ?_, ?_, ?_⟩ <;> simp [hchans, hpoller, Channel.create, EPollPoller.create,
    Registered]

/-- The mask an operation leaves. -/
def ChannelOp.mask (op : ChannelOp) (events : Events) : Events :=
  match op with
  | .enableReading => events ||| kReadEvent
  | .disableReading => events &&& ~~~kReadEvent
  | .enableWriting => events ||| kWriteEvent
  | .disableWriting => events &&& ~~~kWriteEvent
  | .disableAll => kNoneEvent

theorem ChannelOp.run_eq_setEvents (op : ChannelOp) (ch : Channel) (self : C) (p : EPollPoller C) :
    op.run ch self p = ch.setEvents (op.mask ch.events) self p := by
  cases op <;> rfl

/-- Every step returns, into a state where the invariant holds again, unless the loop
refuses to remove a channel that waits to be dispatched. -/
theorem step_registryInv (hinj : Function.Injective fd) (h : RegistryInv fd s)
    {label : RegistryLabel C} {r : Exec (Registry C)} (hstep : s.step label = some r) :
    (∃ s', r = .ok s' ∧ RegistryInv fd s') ∨ r = .error (.assertion .removeChannel_inactive) := by
  cases label with
  | call c op =>
      simp only [Registry.step, Option.some.injEq, op.run_eq_setEvents] at hstep
      obtain ⟨p', hset, hreg, hsame⟩ := setEvents_ok (h.registered c) (op.mask (s.chans c).events)
      rw [hset] at hstep
      exact Or.inl ⟨_, hstep.symm, h.put hinj hreg rfl hsame⟩
  | remove c =>
      simp only [Registry.step] at hstep
      split at hstep
      · rename_i hrem
        by_cases hactive : s.dispatching.eventHandling = true →
            s.dispatching.currentActiveChannel = some c ∨ c ∉ s.dispatching.activeChannels
        · obtain ⟨p', hset, hreg, hsame⟩ := remove_ok (h.registered c) hrem.1 hrem.2 hactive
          rw [hset, Option.some.injEq] at hstep
          exact Or.inl ⟨_, hstep.symm, h.put hinj hreg rfl hsame⟩
        · rw [remove_inactive hrem.1 hactive, Option.some.injEq] at hstep
          exact Or.inr hstep.symm
      · cases hstep
  | dispatch d =>
      simp only [Registry.step, Option.some.injEq] at hstep
      exact Or.inl ⟨_, hstep.symm,
        ⟨h.fds, h.registered, h.channels_own, h.interest_own, h.none_failed⟩⟩

theorem reachable_registryInv (hinj : Function.Injective fd)
    (h : (registrySystem fd).Reachable s) : RegistryInv fd s := by
  refine h.invariant (fun _ => init_registryInv) fun s i s' _ _ hinv hnext => ?_
  rcases step_registryInv hinj hinv hnext with ⟨t, heq, ht⟩ | heq
  · cases heq
    exact ht
  · cases heq

omit [DecidableEq C] in
/-- The map holds exactly the added and the deleted channels, the interest set
exactly the added ones, each with its own pointer and mask. -/
theorem RegistryInv.agree (h : RegistryInv fd s) :
    (∀ x c, s.poller.channels x = some c ↔
        (s.chans c).fd = x ∧ ((s.chans c).index = .kAdded ∨ (s.chans c).index = .kDeleted)) ∧
      ∀ x e, s.poller.interest x = some e ↔
        (s.chans e.ptr).fd = x ∧ (s.chans e.ptr).index = .kAdded ∧
          e.events = (s.chans e.ptr).events := by
  constructor
  · intro x c
    have hreg := h.registered c
    unfold Registered at hreg
    constructor
    · intro hx
      have hfd : (s.chans c).fd = x := (h.fds c).trans (h.channels_own x c hx)
      subst hfd
      cases hidx : (s.chans c).index <;> simp_all
    · rintro ⟨rfl, hidx | hidx⟩ <;> simp only [hidx] at hreg <;> exact hreg.1
  · intro x e
    have hreg := h.registered e.ptr
    unfold Registered at hreg
    constructor
    · intro hx
      have hfd : (s.chans e.ptr).fd = x := (h.fds e.ptr).trans (h.interest_own x e hx)
      subst hfd
      cases hidx : (s.chans e.ptr).index <;> simp only [hidx, hx] at hreg
      · simp at hreg
      · exact ⟨rfl, rfl, congrArg EpollEvent.events (Option.some.inj hreg.2)⟩
      · simp at hreg
    · rintro ⟨rfl, hidx, hev⟩
      simp only [hidx] at hreg
      rw [hreg.2, ← hev]

end Invariant

/-- **Poller registry.** In every state reached by enable, disable and remove calls on
channels with distinct descriptors, the map, the indices and the interest set agree;
no `epoll_ctl` call has failed, and no further call can: all that a call can still run
into is the loop's refusal to remove a channel that waits to be dispatched. -/
theorem registry_agrees {C : Type} [DecidableEq C] {fd : C → Int}
    (hinj : Function.Injective fd) {s : Registry C} (h : (registrySystem fd).Reachable s) :
    (∀ x c, s.poller.channels x = some c ↔
        (s.chans c).fd = x ∧ ((s.chans c).index = .kAdded ∨ (s.chans c).index = .kDeleted)) ∧
      (∀ x e, s.poller.interest x = some e ↔
        (s.chans e.ptr).fd = x ∧ (s.chans e.ptr).index = .kAdded ∧
          e.events = (s.chans e.ptr).events) ∧
      s.poller.failed = [] ∧
      ∀ label f, (registrySystem fd).Fails label s f →
        f = .assertion .removeChannel_inactive := by
  have hinv := reachable_registryInv hinj h
  refine ⟨hinv.agree.1, hinv.agree.2, hinv.none_failed, fun label f hfail => ?_⟩
  rcases step_registryInv hinj hinv hfail with ⟨t, heq, -⟩ | heq
  · cases heq
  · cases heq
    rfl

/-- Two channels on descriptors 3 and 4 that are added, deleted, added again and
removed in turn. -/
theorem registry_agrees_two :
    ∃ s : Registry Bool, (registrySystem fun c => cond c 3 4).Reachable s ∧
      s.poller.channels 3 = none ∧ (s.poller.interest 4).isSome = true ∧
      s.poller.failed = [] := by
  have hinj : Function.Injective fun c : Bool => (cond c 3 4 : Int) := by
    unfold Function.Injective
    decide
  obtain ⟨s, hreach, hp⟩ := System.exists_reachable_of_replay
    (registrySystem fun c : Bool => (cond c 3 4 : Int))
    [.call true .enableReading, .call false .enableWriting, .call true .disableAll,
      .call true .enableWriting, .call true .disableWriting, .remove true]
    ⟨fun c => Channel.create (cond c 3 4), .create, ⟨false, [], none⟩⟩
    (fun s => (s.poller.channels 3).isNone && (s.poller.interest 4).isSome)
    ⟨fun _ => rfl, rfl⟩ (by decide)
  obtain ⟨-, -, hfailed, -⟩ := registry_agrees hinj hreach
  simp only [Bool.and_eq_true, Option.isNone_iff_eq_none] at hp
  exact ⟨s, hreach, hp.1, hp.2, hfailed⟩

/-! ### Disabled channels

`updateChannel` looks at the mask only for an added channel. A new or deleted one it adds to
the interest set with whatever mask the channel has, and a descriptor in the set is reported
for `POLLERR` and `POLLHUP` under every mask. -/

section Disabled

variable {C : Type} [DecidableEq C] {fd : C → Int} {s s' : Registry C}

/-- Nothing that `epoll_wait` can hand out points to the channel. -/
def Registry.Silent (s : Registry C) (c : C) : Prop :=
  s.poller.interest (s.chans c).fd = none ∧ ∀ x e, s.poller.interest x = some e → e.ptr ≠ c

/-- A call that leaves the mask empty finds it non-empty: no channel is disabled before it is
enabled, or twice. -/
def DisablesEnabled (s : Registry C) : RegistryLabel C → Prop
  | .call c op =>
      op.mask (s.chans c).events = kNoneEvent → (s.chans c).events ≠ kNoneEvent
  | _ => True

/-- The added channels are those that ask for events. -/
def AddedAsks (s : Registry C) : Prop :=
  ∀ c, (s.chans c).index = .kAdded ↔ (s.chans c).events ≠ kNoneEvent

omit [DecidableEq C] in
/-- A channel is silent exactly as long as it is not added. -/
theorem RegistryInv.silent_iff (h : RegistryInv fd s) (c : C) :
    s.Silent c ↔ (s.chans c).index ≠ .kAdded := by
  have hreg := h.registered c
  unfold Registered at hreg
  constructor
  · rintro ⟨hnone, -⟩ hadded
    simp only [hadded, hnone, reduceCtorEq, and_false] at hreg
  · intro hidx
    refine ⟨?_, ?_⟩
    · cases hindex : (s.chans c).index with
      | kNew =>
          simp only [hindex] at hreg
          exact hreg.2
      | kDeleted =>
          simp only [hindex] at hreg
          exact hreg.2
      | kAdded => exact absurd hindex hidx
    · rintro x e hx rfl
      exact hidx ((h.agree.2 x e).mp hx).2.1

/-- Every call returns, into a state where the invariant holds again. -/
theorem RegistryInv.call (hinj : Function.Injective fd) (h : RegistryInv fd s) (c : C)
    (op : ChannelOp) :
    ∃ s', (registrySystem fd).Next (.call c op) s s' ∧ RegistryInv fd s' := by
  obtain ⟨p', hset, hreg, hsame⟩ := setEvents_ok (h.registered c) (op.mask (s.chans c).events)
  refine ⟨_, ?_, h.put hinj hreg rfl hsame⟩
  simp only [System.Next, registrySystem, Registry.step, op.run_eq_setEvents, hset, Except.map]

/-- What a call that returns has made of the channels. -/
theorem Registry.call_chans (h : RegistryInv fd s) {c : C} {op : ChannelOp}
    (hnext : (registrySystem fd).Next (.call c op) s s') :
    s'.chans = Function.update s.chans c
      { s.chans c with events := op.mask (s.chans c).events, addedToLoop := true,
                       index := (s.chans c).index.afterUpdate (op.mask (s.chans c).events) } := by
  obtain ⟨p', hset, -⟩ := setEvents_ok (h.registered c) (op.mask (s.chans c).events)
  have hstep : s.step (.call c op) = some (.ok s') := hnext
  simp only [Registry.step, op.run_eq_setEvents, hset] at hstep
  cases hstep
  rfl

theorem Registry.remove_chans {c : C}
    (hnext : (registrySystem fd).Next (.remove c) s s') :
    (s.chans c).events = kNoneEvent ∧
      s'.chans = Function.update s.chans c
        { s.chans c with addedToLoop := false, index := .kNew } := by
  have hstep : s.step (.remove c) = some (.ok s') := hnext
  simp only [Registry.step] at hstep
  split at hstep
  · rw [Option.some.injEq] at hstep
    cases hrem : (s.chans c).remove c s.dispatching s.poller with
    | error f =>
        rw [hrem] at hstep
        cases hstep
    | ok cp =>
        rw [hrem] at hstep
        cases hstep
        obtain ⟨hevents, -, hcp⟩ := remove_channel hrem
        refine ⟨hevents, ?_⟩
        rw [← hcp]
        rfl
  · cases hstep

/-- A step that meets the condition keeps the added channels those that ask for events. -/
theorem AddedAsks.step {label : RegistryLabel C} (hinv : RegistryInv fd s) (h : AddedAsks s)
    (hok : DisablesEnabled s label) (hnext : (registrySystem fd).Next label s s') :
    AddedAsks s' := by
  intro c'
  cases label with
  | call c op =>
      rw [Registry.call_chans hinv hnext]
      by_cases hc : c' = c
      · subst hc
        simp only [Function.update_self]
        by_cases hnone : op.mask (s.chans c').events = kNoneEvent
        · have hadded := (h c').mpr (hok hnone)
          simp [hadded, hnone, Index.afterUpdate]
        · cases hidx : (s.chans c').index <;> simp [hnone, Index.afterUpdate]
      · rw [Function.update_of_ne hc]
        exact h c'
  | remove c =>
      obtain ⟨hevents, hchans⟩ := Registry.remove_chans hnext
      rw [hchans]
      by_cases hc : c' = c
      · subst hc
        simp [hevents]
      · rw [Function.update_of_ne hc]
        exact h c'
  | dispatch d =>
      cases hnext
      exact h c'

theorem reachable_addedAsks (hinj : Function.Injective fd)
    (h : (registrySystem fd).ReachableBy DisablesEnabled s) : AddedAsks s := by
  refine h.invariant ?_ ?_
  · rintro s ⟨hchans, -⟩ c
    simp [hchans, Channel.create, kNoneEvent]
  · intro s label s' hreach hok hadds hnext
    exact hadds.step (reachable_registryInv hinj hreach.reachable) hok hnext

/-- In any run, a call that leaves the mask empty silences the channel exactly when it finds
it added. -/
theorem Registry.call_silent_iff (hinj : Function.Injective fd) (h : RegistryInv fd s) {c : C}
    {op : ChannelOp} (hnext : (registrySystem fd).Next (.call c op) s s')
    (hnone : op.mask (s.chans c).events = kNoneEvent) :
    s'.Silent c ↔ (s.chans c).index = .kAdded := by
  have hinv' : RegistryInv fd s' := by
    obtain ⟨t, hnext', ht⟩ := h.call hinj c op
    cases hnext.symm.trans hnext'
    exact ht
  rw [hinv'.silent_iff, Registry.call_chans h hnext, Function.update_self]
  cases hidx : (s.chans c).index <;> simp [Index.afterUpdate, hnone]

/-- **Disabled channels are silent** in every run in which no channel is disabled before it is
enabled, or twice: whenever the mask of a channel is empty, its descriptor is not in the
interest set and nothing in the set points to it. A call that leaves the mask empty and breaks
the condition puts the descriptor into the set. -/
theorem disabled_channel_silent (hinj : Function.Injective fd)
    (h : (registrySystem fd).ReachableBy DisablesEnabled s) :
    (∀ c, (s.chans c).events = kNoneEvent → s.Silent c) ∧
      ∀ c op s', (registrySystem fd).Next (.call c op) s s' →
        op.mask (s.chans c).events = kNoneEvent →
        (s'.Silent c ↔ (s.chans c).events ≠ kNoneEvent) := by
  have hinv := reachable_registryInv hinj h.reachable
  have hadds := reachable_addedAsks hinj h
  constructor
  · intro c hnone
    rw [hinv.silent_iff]
    intro hadded
    exact (hadds c).mp hadded hnone
  · intro c op s' hnext hnone
    rw [Registry.call_silent_iff hinj hinv hnext hnone]
    exact hadds c

end Disabled

/-- A channel that is disabled twice: the second `disableAll` puts the descriptor back into
the interest set, with an empty mask. -/
theorem disabled_twice_is_added :
    ∃ s s' : Registry Unit, (registrySystem fun _ => 5).Reachable s ∧
      (s.chans ()).events = kNoneEvent ∧ s.poller.interest 5 = none ∧
      (registrySystem fun _ => 5).Next (.call () .disableAll) s s' ∧
      (s'.chans ()).events = kNoneEvent ∧ s'.poller.interest 5 = some ⟨kNoneEvent, ()⟩ ∧
      ¬ s'.Silent () := by
  obtain ⟨s, hs, hp⟩ := System.exists_reachable_of_replay (registrySystem fun _ : Unit => (5 : Int))
    [.call () .enableReading, .call () .disableAll]
    ⟨fun _ => Channel.create 5, .create, ⟨false, [], none⟩⟩
    (fun s => decide (s.chans () = ⟨5, 0, .kDeleted, true, false⟩)) ⟨fun _ => rfl, rfl⟩ (by decide)
  have hch : s.chans () = ⟨5, 0, .kDeleted, true, false⟩ := of_decide_eq_true hp
  have hinj : Function.Injective fun _ : Unit => (5 : Int) := fun _ _ _ => rfl
  have hinv := reachable_registryInv hinj hs
  obtain ⟨s', hnext, hinv'⟩ := hinv.call hinj () .disableAll
  have hch' : s'.chans () = ⟨5, kNoneEvent, .kAdded, true, false⟩ := by
    rw [Registry.call_chans hinv hnext, Function.update_self, hch]
    rfl
  have hreg := hinv.registered ()
  have hreg' := hinv'.registered ()
  rw [hch] at hreg
  rw [hch'] at hreg'
  refine ⟨s, s', hs, by rw [hch]; rfl, hreg.2, hnext, by rw [hch'], hreg'.2, ?_⟩
  intro hsilent
  exact hsilent.2 5 _ hreg'.2 rfl

/-- A channel is enabled for both kinds of events and disabled in two calls. -/
theorem disabled_channel_silent_writing :
    ∃ s : Registry Unit, (registrySystem fun _ => 5).ReachableBy DisablesEnabled s ∧
      (s.chans ()).events = kNoneEvent ∧ s.Silent () := by
  have hok : ∀ label ∈ [RegistryLabel.call () .enableReading, .call () .enableWriting,
      .call () .disableReading, .call () .disableWriting], ∀ s : Registry Unit,
      (registrySystem fun _ : Unit => (5 : Int)).ReachableBy DisablesEnabled s →
      (match label with
        | .call _ op => decide (op.mask (s.chans ()).events = kNoneEvent →
            (s.chans ()).events ≠ kNoneEvent)
        | _ => true) = true → DisablesEnabled s label := by
    intro label _ s _ htest
    cases label with
    | call c op =>
        intro hnone
        exact of_decide_eq_true htest hnone
    | _ => exact trivial
  obtain ⟨s, hs, hp⟩ := System.exists_reachableBy_of_replay
    (registrySystem fun _ : Unit => (5 : Int)) _ _
    ⟨fun _ => Channel.create 5, .create, ⟨false, [], none⟩⟩
    (fun s => decide ((s.chans ()).events = kNoneEvent)) ⟨fun _ => rfl, rfl⟩ hok (by decide)
  have hnone := of_decide_eq_true hp
  have hinj : Function.Injective fun _ : Unit => (5 : Int) := fun _ _ _ => rfl
  exact ⟨s, hs, hnone, (disabled_channel_silent hinj hs).1 () hnone⟩

end Reactor
