import Reactor.HostTeardown
import Reactor.PollerRegistry

/-!
# The owners of channels

`Acceptor`, `TcpConnection` and `TimerQueue` each have a channel as a member, and `~Channel`
asserts that it is registered nowhere. A connection's channel is removed by
`connectDestroyed`, a timer queue's by its destructor; `~Acceptor` does neither.

* `Channel.Unregistered` - what `~Channel` asserts, and that no entry of a poller refers to
  the channel.
* `TimerHost`, `timerHostSystem` - timer queues that come and go on one channel of a loop.
* `reachable_listenInv` - the acceptor's channel is registered by `listen`, for good.
* `channel_destroyed_unregistered` - a channel is destroyed unregistered unless its owner is
  an acceptor that listens.
* `listening_acceptor_destroyed` - `~TcpServer` after `start()` leaves its acceptor's channel
  in the poller.
-/

namespace Reactor

open Reactor.Lib

/-- The channel is not in the loop, and no entry of the poller refers to it. -/
def Channel.Unregistered {C : Type} [DecidableEq C] (ch : Channel) (self : C)
    (p : EPollPoller C) : Prop :=
  ch.addedToLoop = false ∧ p.hasChannel self ch = false ∧ (∀ fd, p.channels fd ≠ some self) ∧
    ∀ fd e, p.interest fd = some e → e.ptr ≠ self

/-! ### Timer queues -/

section Timer

variable {C : Type} [DecidableEq C]

/-- The channel a label of the registry is about. -/
def RegistryLabel.channel : RegistryLabel C → Option C
  | .call c _ => some c
  | .remove c => some c
  | .dispatch _ => none

/-- `Channel::_eventHandling`: the loop is in the channel's `handleEvent`. -/
def Registry.handling (s : Registry C) (c : C) : Bool :=
  s.dispatching.eventHandling && decide (s.dispatching.currentActiveChannel = some c)

/-- What `TimerQueue::TimerQueue` does with its channel. -/
def Registry.constructTimerQueue (s : Registry C) (t : C) (timerfd : Int) :
    Exec (Registry C) := do
  let cp ← (Channel.create timerfd).enableReading t s.poller
  .ok (s.put t cp)

/-- The body of `TimerQueue::~TimerQueue`. -/
def Registry.destroyTimerQueue (s : Registry C) (t : C) : Exec (Registry C) := do
  let cp ← (s.chans t).disableAll t s.poller
  let cp ← cp.1.remove t s.dispatching cp.2
  .ok (s.put t (cp.1, cp.2.forget cp.1.fd))

/-- A loop with any channels, and whether there is a timer queue on one of them. -/
structure TimerHost (C : Type) where
  registry : Registry C
  constructed : Bool

/-- The steps of the other channels and of the loop, and the timer queue's constructor and
destructor. -/
inductive TimerHostLabel (C : Type) where
  | other (label : RegistryLabel C)
  | construct
  | destroy

def TimerHost.step (fd : C → Int) (t : C) (label : TimerHostLabel C) (s : TimerHost C) :
    Option (Exec (TimerHost C)) :=
  match label with
  | .other label =>
      if label.channel = some t then none
      else (s.registry.step label).map fun out => out.map fun r => { s with registry := r }
  | .construct =>
      if s.constructed then none
      else some ((s.registry.constructTimerQueue t (fd t)).map fun r => ⟨r, true⟩)
  | .destroy =>
      if s.constructed then
        some do
          let r ← s.registry.destroyTimerQueue t
          (r.chans t).destructor t (r.handling t) true r.poller
          .ok ⟨r, false⟩
      else none

/-- A loop whose timer queues use channel `t`. -/
def timerHostSystem (fd : C → Int) (t : C) : System (TimerHost C) (TimerHostLabel C) Fault where
  init s := (registrySystem fd).init s.registry ∧ s.constructed = false
  step := TimerHost.step fd t

/-- The channels agree with the poller, and the timer queue's is added while it exists. -/
structure TimerHostInv (fd : C → Int) (t : C) (s : TimerHost C) : Prop where
  registry : RegistryInv fd s.registry
  index : (s.registry.chans t).index = if s.constructed then .kAdded else .kNew

variable {fd : C → Int} {t : C} {s s' : TimerHost C}

/-- A step of the others leaves the channel alone. -/
theorem Registry.step_other {r r' : Registry C} {label : RegistryLabel C}
    (hother : label.channel ≠ some t) (h : r.step label = some (.ok r')) :
    r'.chans t = r.chans t := by
  have hput : ∀ c out, c ≠ t → (r.put c out).chans t = r.chans t := by
    intro c out hc
    exact Function.update_of_ne (Ne.symm hc) _ _
  have hmap : ∀ c (x : Exec (Channel × EPollPoller C)), c ≠ t →
      x.map (r.put c) = .ok r' → r'.chans t = r.chans t := by
    intro c x hc hx
    cases x with
    | error f => cases hx
    | ok out =>
        cases hx
        exact hput c out hc
  cases label with
  | call c op =>
      simp only [Registry.step, Option.some.injEq] at h
      exact hmap c _ (by simpa [RegistryLabel.channel] using hother) h
  | remove c =>
      simp only [Registry.step] at h
      split at h
      · simp only [Option.some.injEq] at h
        exact hmap c _ (by simpa [RegistryLabel.channel] using hother) h
      · cases h
  | dispatch d =>
      simp only [Registry.step, Option.some.injEq, Except.ok.injEq] at h
      rw [← h]

/-- What a channel that is in no map leaves in the poller: nothing. -/
theorem RegistryInv.unregistered {r : Registry C} (h : RegistryInv fd r)
    (hnew : (r.chans t).index = .kNew) (hadded : (r.chans t).addedToLoop = false) :
    (r.chans t).Unregistered t r.poller := by
  have hreg := h.registered t
  simp only [Registered, hnew] at hreg
  have hchannels : ∀ x, r.poller.channels x ≠ some t := by
    intro x hx
    have hfd : (r.chans t).fd = x := (h.fds t).trans (h.channels_own x t hx)
    rw [hfd, hx] at hreg
    cases hreg.1
  refine ⟨hadded, ?_, hchannels, ?_⟩
  · simpa [EPollPoller.hasChannel] using hchannels (r.chans t).fd
  · intro x e he hptr
    have hfd : (r.chans t).fd = x := (h.fds t).trans (hptr ▸ h.interest_own x e he)
    rw [hfd, he] at hreg
    cases hreg.2

/-- The constructor registers the channel. -/
theorem TimerHostInv.construct (h : TimerHostInv fd t s) (hinj : Function.Injective fd)
    (hnone : s.constructed = false) :
    ∃ r, s.registry.constructTimerQueue t (fd t) = .ok r ∧ TimerHostInv fd t ⟨r, true⟩ := by
  have hnew : (s.registry.chans t).index = .kNew := by simpa [hnone] using h.index
  have hfd := h.registry.fds t
  have hreg : Registered s.registry.poller t (Channel.create (fd t)) := by
    have hold := h.registry.registered t
    simp only [Registered, hnew, hfd] at hold
    exact hold
  obtain ⟨p', hset, hreg', hsame⟩ :=
    setEvents_ok hreg ((Channel.create (fd t)).events ||| kReadEvent)
  have hinv := h.registry.put hinj hreg' hfd.symm (hfd ▸ hsame)
  refine ⟨_, ?_, hinv, ?_⟩
  · simp only [Registry.constructTimerQueue, Channel.enableReading, hset, ok_bind]
    rfl
  · simp [Channel.create, Index.afterUpdate]

/-- The destructor removes the channel, unless the loop refuses to. -/
theorem TimerHostInv.destroy (h : TimerHostInv fd t s) (hinj : Function.Injective fd)
    (hthere : s.constructed = true)
    (hactive : s.registry.dispatching.eventHandling = true →
      s.registry.dispatching.currentActiveChannel = some t ∨
        t ∉ s.registry.dispatching.activeChannels) :
    ∃ r, s.registry.destroyTimerQueue t = .ok r ∧ TimerHostInv fd t ⟨r, false⟩ ∧
      (r.chans t).Unregistered t r.poller := by
  have hadded : (s.registry.chans t).index = .kAdded := by simpa [hthere] using h.index
  obtain ⟨p₁, hset, hreg₁, hsame₁⟩ := setEvents_ok (h.registry.registered t) kNoneEvent
  simp only [hadded, Index.afterUpdate, if_true] at hset hreg₁
  have hfound : p₁.channels (s.registry.chans t).fd = some t := hreg₁.1
  obtain ⟨p₂, hrem, hreg₂, hsame₂⟩ := remove_ok hreg₁ rfl hfound hactive
  have hforget : p₂.forget (s.registry.chans t).fd = p₂ := EPollPoller.forget_of_none hreg₂.2
  have hinv₂ := h.registry.put hinj hreg₂ rfl (hsame₁.trans hsame₂)
  refine ⟨_, ?_, ⟨hinv₂, ?_⟩, hinv₂.unregistered ?_ ?_⟩
  · simp only [Registry.destroyTimerQueue, Channel.disableAll, hset, ok_bind, hrem, hforget]
    rfl
  · simp
  · simp [Registry.put]
  · simp [Registry.put]

/-- The loop refuses to remove a channel that waits to be dispatched. -/
theorem TimerHostInv.inactive {r : Registry C} (h : TimerHostInv fd t s)
    (hdestroy : s.registry.destroyTimerQueue t = .ok r) :
    s.registry.dispatching.eventHandling = true →
      s.registry.dispatching.currentActiveChannel = some t ∨
        t ∉ s.registry.dispatching.activeChannels := by
  by_contra hactive
  obtain ⟨p₁, hset, -⟩ := setEvents_ok (h.registry.registered t) kNoneEvent
  simp only [Registry.destroyTimerQueue, Channel.disableAll, hset, ok_bind] at hdestroy
  rw [remove_inactive rfl hactive] at hdestroy
  cases hdestroy

/-- `~TimerQueue` returns unless the loop refuses, and leaves nothing of the channel. -/
theorem TimerHostInv.destructor (h : TimerHostInv fd t s) (hinj : Function.Injective fd)
    (hthere : s.constructed = true) :
    ((∃ r, s.registry.destroyTimerQueue t = .ok r) ↔
      (s.registry.dispatching.eventHandling = true →
        s.registry.dispatching.currentActiveChannel = some t ∨
          t ∉ s.registry.dispatching.activeChannels)) ∧
    ∀ r, s.registry.destroyTimerQueue t = .ok r → (r.chans t).Unregistered t r.poller := by
  constructor
  · constructor
    · rintro ⟨r, hcall⟩
      exact h.inactive hcall
    · intro hactive
      obtain ⟨r, hcall, -⟩ := h.destroy hinj hthere hactive
      exact ⟨r, hcall⟩
  · intro r hcall
    obtain ⟨r', hcall', -, hun⟩ := h.destroy hinj hthere (h.inactive hcall)
    cases hcall.symm.trans hcall'
    exact hun

theorem reachable_timerHostInv {ok : TimerHost C → TimerHostLabel C → Prop}
    (hinj : Function.Injective fd) (h : (timerHostSystem fd t).ReachableBy ok s) :
    TimerHostInv fd t s := by
  apply h.invariant
  · intro s hinit
    refine ⟨init_registryInv hinit.1, ?_⟩
    simp [hinit.1.1 t, hinit.2, Channel.create]
  · intro s label s' _ _ hinv hnext
    change s.step fd t label = some (.ok s') at hnext
    cases label with
    | other label =>
        simp only [TimerHost.step] at hnext
        split at hnext
        · cases hnext
        · rename_i hother
          simp only [Option.map_eq_some_iff] at hnext
          obtain ⟨out, hout, hmap⟩ := hnext
          rcases step_registryInv hinj hinv.registry hout with ⟨r, rfl, hreg⟩ | rfl
          · cases hmap
            refine ⟨hreg, ?_⟩
            rw [Registry.step_other hother hout]
            exact hinv.index
          · cases hmap
    | construct =>
        simp only [TimerHost.step] at hnext
        split at hnext
        · cases hnext
        · rename_i hnone
          obtain ⟨r, hcall, hinv'⟩ := hinv.construct hinj (by simpa using hnone)
          rw [hcall] at hnext
          cases hnext
          exact hinv'
    | destroy =>
        simp only [TimerHost.step] at hnext
        split at hnext
        · rename_i hthere
          simp only [Option.some.injEq, bind_eq_ok, Except.ok.injEq] at hnext
          obtain ⟨r, hcall, -, -, rfl⟩ := hnext
          obtain ⟨r', hcall', hinv', -⟩ := hinv.destroy hinj hthere (hinv.inactive hcall)
          cases hcall.symm.trans hcall'
          exact hinv'
        · cases hnext

end Timer

/-! ### The acceptor -/

section Acceptor

variable {n : Nat} {cfg : ServerConfig} {s s' : Host n}

/-- The acceptor's channel is registered when it listens, and only then. -/
structure ListenInv (w : ServerWorld n) : Prop where
  quiet : w.listenning = false →
    w.acceptChannel.index = .kNew ∧ w.acceptChannel.addedToLoop = false
  listening : w.listenning = true → w.acceptChannel.addedToLoop = true

/-- Only `listen` touches the acceptor's channel. -/
theorem Steps.acceptor {p p' : ServerProcess n} {label : ServerLabel n}
    (h : Steps (serverApp n cfg) p label p') :
    (p'.world.acceptChannel = p.world.acceptChannel ∧
      p'.world.listenning = p.world.listenning) ∨
      (p'.world.listenning = true ∧ p'.world.acceptChannel.addedToLoop = true) := by
  cases h with
  | @call l o a rest e htodo hcall =>
      cases serverCall hcall with
      | listen hl hset =>
          right
          refine ⟨rfl, ?_⟩
          simp only [Process.afterCall, setEvents_channel hset]
      | @conn c k => exact Or.inl (by cases k <;> exact ⟨rfl, rfl⟩)
      | _ => exact Or.inl ⟨rfl, rfl⟩
  | thread t hthread =>
      have hkeeps := (threadSpec hthread).keeps
      exact Or.inl ⟨hkeeps.2.1, hkeeps.2.2.1⟩
  | _ => exact Or.inl ⟨rfl, rfl⟩

theorem reachable_listenInv {ok : Host n → HostLabel n → Prop}
    (h : (hostSystem n cfg).ReachableBy ok s) : ListenInv s.proc.world := by
  apply h.invariant (P := fun s => ListenInv s.proc.world)
  · intro s hinit
    obtain ⟨fd, hw⟩ := hinit.1.1.1
    rw [hw]
    exact ⟨fun _ => ⟨rfl, rfl⟩, nofun⟩
  · intro s label s' _ _ hinv hnext
    cases hostSteps_of_next hnext with
    | run hsteps hguard =>
        rcases hsteps.acceptor with ⟨hchannel, hlisten⟩ | ⟨hlisten, hadded⟩
        · constructor
          · intro hquiet
            simp only [hchannel]
            exact hinv.quiet (hlisten.symm.trans hquiet)
          · intro hlistening
            simp only [hchannel]
            exact hinv.listening (hlisten.symm.trans hlistening)
        · constructor
          · intro hquiet
            cases hlisten.symm.trans hquiet
          · intro _
            exact hadded
    | destroyServer => exact ⟨hinv.quiet, hinv.listening⟩
    | destroyConnection => exact ⟨hinv.quiet, hinv.listening⟩

end Acceptor

/-! ### The destructor of a channel -/

section Owners

variable {n : Nat} {cfg : ServerConfig} {s : Host n}

/-- The owner of the channel can be destroyed: a connection that nobody holds, or the acceptor
with its server. -/
def Host.Dying (s : Host n) : ChannelPtr → Prop
  | none => s.serverGone = false
  | some c => c < s.proc.world.accepted ∧ s.gone c = false ∧ ¬ s.Referenced c

/-- `Channel::_eventHandling`; no server is destroyed from within the `handleEvent` of its
acceptor. -/
def Host.handling (s : Host n) : ChannelPtr → Bool
  | none => false
  | some c => s.eventHandling c

/-- `Channel::~Channel` on the loop's thread. -/
def Host.destroyChannel (s : Host n) (ptr : ChannelPtr) : Exec Unit :=
  (s.proc.world.channel ptr).destructor ptr (s.handling ptr) true
    (s.proc.world.pollers (s.proc.world.ownerLoop ptr))

/-- The destructor returns where the channel is unregistered. -/
theorem destructor_of_unregistered {C : Type} [DecidableEq C] {ch : Channel} {self : C}
    {p : EPollPoller C} (h : ch.Unregistered self p) (isInLoopThread : Bool) :
    ch.destructor self false isInLoopThread p = .ok () := by
  simp [Channel.destructor, check_of, h.1, h.2.1]

/-- The channel of an owner that is destroyed was never added or has been removed, unless the
owner is an acceptor that listens. -/
theorem HostInv.dying (h : HostInv cfg s) (hlisten : ListenInv s.proc.world) {ptr : ChannelPtr}
    (hdying : s.Dying ptr) (hquiet : ptr = none → s.proc.world.listenning = false) :
    (s.proc.world.channel ptr).index = .kNew ∧
      (s.proc.world.channel ptr).addedToLoop = false := by
  cases ptr with
  | none => exact hlisten.quiet (hquiet rfl)
  | some c =>
      obtain ⟨hc, hgone, href⟩ := hdying
      have hindexed := h.indexed c hc
      exact ⟨(hindexed.gone (h.destroyed hc href)).2, (h.unregistered hc hgone href).2.2.1⟩

theorem HostInv.dying_unregistered (h : HostInv cfg s) (hlisten : ListenInv s.proc.world)
    {ptr : ChannelPtr} (hdying : s.Dying ptr)
    (hquiet : ptr = none → s.proc.world.listenning = false) (l : LoopId n) :
    (s.proc.world.channel ptr).Unregistered ptr (s.proc.world.pollers l) := by
  obtain ⟨hnew, hadded⟩ := h.dying hlisten hdying hquiet
  have habsent := h.descriptors.fds.absent hnew l
  refine ⟨hadded, ?_, fun x => (habsent x).1, fun x => (habsent x).2⟩
  simpa [EPollPoller.hasChannel] using (habsent _).1

/-- `~Channel` returns in an owner that is destroyed, unless it is an acceptor that listens. -/
theorem HostInv.destroyChannel_ok (h : HostInv cfg s) (hlisten : ListenInv s.proc.world)
    {ptr : ChannelPtr} (hdying : s.Dying ptr)
    (hquiet : ptr = none → s.proc.world.listenning = false) : s.destroyChannel ptr = .ok () := by
  have hhandling : s.handling ptr = false := by
    cases ptr with
    | none => rfl
    | some c => exact (h.channel_destructor hdying.1 hdying.2.1 hdying.2.2).1
  rw [Host.destroyChannel, hhandling]
  exact destructor_of_unregistered (h.dying_unregistered hlisten hdying hquiet _) true

/-- An acceptor that listens is in the loop for good. -/
theorem ListenInv.quiet_of_not_added {w : ServerWorld n} (h : ListenInv w) {ptr : ChannelPtr}
    (hadded : (w.channel ptr).addedToLoop = false) : ptr = none → w.listenning = false := by
  rintro rfl
  by_contra hlistening
  have hin := h.listening (by simpa using hlistening)
  cases hadded.symm.trans hin

/-- **A channel is destroyed unregistered, unless its owner is an acceptor that listens.** In
every run of a server with its destructors, for the acceptor of a server that is there and
for every connection that nobody holds: `~Channel` finds the channel outside the loop and no
entry of a poller refers to it, and its assertions hold, exactly if it is not the channel of
an acceptor that listens. No entry ever refers to a connection that was destroyed. And in
every run of a loop on which timer queues come and go, among any other channels with
descriptors of their own: `~TimerQueue` gets to `~Channel` unless the loop refuses to remove a
channel that waits to be dispatched, and `~Channel` then finds the channel outside the loop
and the poller. -/
theorem channel_destroyed_unregistered (cfg : ServerConfig) {s : Host n}
    (h : (hostSystem n cfg).ReachableBy Host.Lawful s) {C : Type} [DecidableEq C] {fd : C → Int}
    (hinj : Function.Injective fd) {t : C} {r : TimerHost C}
    (hr : (timerHostSystem fd t).Reachable r) :
    (∀ ptr, s.Dying ptr →
      ((∀ l, (s.proc.world.channel ptr).Unregistered ptr (s.proc.world.pollers l)) ↔
        (ptr = none → s.proc.world.listenning = false)) ∧
      (s.destroyChannel ptr = .ok () ↔ (ptr = none → s.proc.world.listenning = false))) ∧
    (∀ l x c, (s.proc.world.pollers l).channels x = some (some c) → s.gone c = false) ∧
    (∀ l x e c, (s.proc.world.pollers l).interest x = some e → e.ptr = some c →
      s.gone c = false) ∧
    (r.constructed = true →
      ((∃ r', r.registry.destroyTimerQueue t = .ok r') ↔
        (r.registry.dispatching.eventHandling = true →
          r.registry.dispatching.currentActiveChannel = some t ∨
            t ∉ r.registry.dispatching.activeChannels)) ∧
      ∀ r', r.registry.destroyTimerQueue t = .ok r' →
        (r'.chans t).Unregistered t r'.poller ∧
          (r'.handling t = false →
            (r'.chans t).destructor t (r'.handling t) true r'.poller = .ok ())) := by
  have hinv := reachable_hostInv h fun _ _ hok => hok
  have hlisten := reachable_listenInv h
  have hchannels : ∀ l x c, (s.proc.world.pollers l).channels x = some (some c) →
      s.gone c = false := by
    intro l x c hfound
    exact (hinv.descriptors.fds.channels l x (some c) hfound).1.2
  refine ⟨?_, hchannels, ?_, ?_⟩
  · intro ptr hdying
    constructor
    · constructor
      · intro hun
        exact hlisten.quiet_of_not_added (hun 0).1
      · intro hquiet
        exact hinv.dying_unregistered hlisten hdying hquiet
    · constructor
      · intro hok
        simp only [Host.destroyChannel, Channel.destructor, bind_eq_ok, check_eq_ok] at hok
        obtain ⟨⟨⟩, -, ⟨⟩, hadded, -⟩ := hok
        exact hlisten.quiet_of_not_added hadded
      · intro hquiet
        exact hinv.destroyChannel_ok hlisten hdying hquiet
  · rintro l x e c he hptr
    have hfound := hinv.descriptors.fds.interest l x e he
    rw [hptr] at hfound
    exact hchannels l x c hfound
  · intro hthere
    obtain ⟨hreturns, hunregistered⟩ := (reachable_timerHostInv hinj hr).destructor hinj hthere
    refine ⟨hreturns, ?_⟩
    intro r' hcall
    refine ⟨hunregistered r' hcall, ?_⟩
    intro hhandling
    rw [hhandling]
    exact destructor_of_unregistered (hunregistered r' hcall) true

/-- A connection that was closed, and a timer queue beside another channel. -/
theorem channel_destroyed_unregistered_closed :
    ∃ (s : Host 0) (r : TimerHost Bool), (hostSystem 0 mainConfig).ReachableBy Host.Lawful s ∧
      (timerHostSystem (fun c => cond c 3 4) true).Reachable r ∧ s.Dying (some 0) ∧
      s.destroyChannel (some 0) = .ok () ∧ r.constructed = true ∧
      ∃ r', r.registry.destroyTimerQueue true = .ok r' ∧
        (r'.chans true).Unregistered true r'.poller := by
  have hinj : Function.Injective fun c : Bool => (cond c 3 4 : Int) := by
    unfold Function.Injective
    decide
  obtain ⟨s, hs, hp⟩ := System.exists_reachableBy_of_replay (hostSystem 0 mainConfig)
    Host.allows (.run (.call 0 .quiet) :: .run (.start 0) :: (acceptRun ++ removeRun).map .run)
    (hostStart 0)
    (fun s => decide (0 < s.proc.world.accepted) && !s.gone 0 &&
      s.allows (.destroyConnection 0 true))
    (hostStart_init 0) (fun _ _ _ => Host.allows_lawful) (by decide +kernel)
  obtain ⟨r, hr, hq⟩ := System.exists_reachable_of_replay
    (timerHostSystem (fun c : Bool => (cond c 3 4 : Int)) true)
    [.construct, .other (.call false .enableReading)]
    ⟨⟨fun c => Channel.create (cond c 3 4), .create, ⟨false, [], none⟩⟩, false⟩
    (fun r => r.constructed && !r.registry.dispatching.eventHandling)
    ⟨⟨fun _ => rfl, rfl⟩, rfl⟩ (by decide)
  simp only [Bool.and_eq_true, decide_eq_true_eq, Bool.not_eq_true'] at hp hq
  obtain ⟨⟨hc, hgone⟩, hallows⟩ := hp
  have hrun : (hostSystem 0 mainConfig).ReachableBy Host.Lawful s := hs.mono fun _ _ hok => hok.1
  have hdying : s.Dying (some 0) := ⟨hc, hgone, (Host.allows_lawful hs hallows).1⟩
  obtain ⟨howner, -, -, htimer⟩ := channel_destroyed_unregistered mainConfig hrun hinj hr
  obtain ⟨hreturns, hun⟩ := htimer hq.1
  obtain ⟨r', hcall⟩ := hreturns.mpr (by simp [hq.2])
  exact ⟨s, r, hrun, hr, hdying, (howner (some 0) hdying).2.mpr nofun, hq.1, r', hcall,
    (hun r' hcall).1⟩

/-- The main thread calls `start()` and `loop()`, which returns; the server is destroyed. -/
def listeningRun : List (HostLabel 0) :=
  [.run (.call 0 .quiet), .run (.start 0), .run (.quit 0), .run (.test 0)]

/-- A server that was started is destroyed: its acceptor's channel is in the loop, the
poller's map and the interest set hold it, and the assertion of `~Channel` fails. -/
theorem listening_acceptor_destroyed :
    ∃ s, (hostSystem 0 mainConfig).ReachableBy Host.Lawful s ∧ s.Dying none ∧ s.atRest = true ∧
      s.proc.world.acceptChannel.addedToLoop = true ∧
      (s.proc.world.pollers 0).hasChannel none s.proc.world.acceptChannel = true ∧
      (∃ e, (s.proc.world.pollers 0).interest s.proc.world.acceptChannel.fd = some e ∧
        e.ptr = none) ∧
      s.destroyChannel none = .error (.assertion .channel_addedToLoop) := by
  obtain ⟨s, hs, hp⟩ := System.exists_reachableBy_of_replay (hostSystem 0 mainConfig)
    Host.allowsTeardown listeningRun (hostStart 0)
    (fun s => !s.serverGone && s.atRest && s.proc.world.acceptChannel.addedToLoop &&
      (s.proc.world.pollers 0).hasChannel none s.proc.world.acceptChannel &&
      ((s.proc.world.pollers 0).interest s.proc.world.acceptChannel.fd).any
        fun e => e.ptr.isNone)
    (hostStart_init 0) (fun _ _ _ _ => Host.allowsTeardown_lawful) (by decide +kernel)
  simp only [Bool.and_eq_true, Bool.not_eq_true', Option.any_eq_true,
    Option.isNone_iff_eq_none] at hp
  obtain ⟨⟨⟨⟨hserver, hrest⟩, hadded⟩, hfound⟩, hinterest⟩ := hp
  refine ⟨s, hs, hserver, hrest, hadded, hfound, hinterest, ?_⟩
  simp [Host.destroyChannel, Host.handling, Channel.destructor, ServerWorld.channel, hadded,
    check_of]

end Owners

end Reactor
