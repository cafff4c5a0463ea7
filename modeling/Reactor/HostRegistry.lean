import Reactor.HostLife
import Reactor.PollerRegistry

/-!
# Descriptors of a server

* `FdInv` - the channels that exist have open descriptors of their own, each is registered
  with its own loop's poller, and no poller holds anything else.
* `Descriptors`, `Progress.descriptors` - the same with the descriptor that `accept` has just
  returned; every step of the server keeps it.
-/

namespace Reactor

open Reactor.Lib

variable {n : Nat} {cfg : ServerConfig}

/-- The channels that exist: the acceptor's, and those of the accepted connections that have
not been destroyed. -/
def ServerWorld.Live (w : ServerWorld n) (gone : Nat → Bool) : ChannelPtr → Prop
  | none => True
  | some c => c < w.accepted ∧ gone c = false

/-- Every channel that exists has an open descriptor of its own and agrees with its loop's
poller, and the pollers hold nothing else. -/
structure FdInv (w : ServerWorld n) (gone : Nat → Bool) (opened : Int → Bool) : Prop where
  opened : ∀ ptr, w.Live gone ptr → opened (w.channel ptr).fd = true
  distinct : ∀ ptr ptr', w.Live gone ptr → w.Live gone ptr' →
    (w.channel ptr).fd = (w.channel ptr').fd → ptr = ptr'
  registered : ∀ ptr, w.Live gone ptr →
    Registered (w.pollers (w.ownerLoop ptr)) ptr (w.channel ptr)
  channels : ∀ l x ptr, (w.pollers l).channels x = some ptr →
    w.Live gone ptr ∧ w.ownerLoop ptr = l ∧ (w.channel ptr).fd = x
  interest : ∀ l x e, (w.pollers l).interest x = some e → (w.pollers l).channels x = some e.ptr

section Fds

variable {w w' : ServerWorld n} {gone : Nat → Bool} {opened opened' : Int → Bool}
  {ptr : ChannelPtr}

theorem live_congr (h : w'.accepted = w.accepted) (ptr : ChannelPtr) :
    w'.Live gone ptr ↔ w.Live gone ptr := by
  cases ptr with
  | none => rfl
  | some c => simp [ServerWorld.Live, h]

/-- A step that changes no channel and no poller. -/
theorem FdInv.frame (h : FdInv w gone opened) (hacc : w'.accepted = w.accepted)
    (hchannel : ∀ ptr, w'.channel ptr = w.channel ptr)
    (howner : ∀ ptr, w'.ownerLoop ptr = w.ownerLoop ptr) (hpollers : w'.pollers = w.pollers)
    (hopened : ∀ fd, opened fd = true → opened' fd = true) : FdInv w' gone opened' := by
  refine ⟨?_, ?_, ?_, ?_, ?_⟩
  · intro ptr hlive
    rw [hchannel]
    exact hopened _ (h.opened ptr ((live_congr hacc ptr).mp hlive))
  · intro ptr ptr' hlive hlive'
    rw [hchannel, hchannel]
    exact h.distinct ptr ptr' ((live_congr hacc ptr).mp hlive) ((live_congr hacc ptr').mp hlive')
  · intro ptr hlive
    rw [hchannel, howner, hpollers]
    exact h.registered ptr ((live_congr hacc ptr).mp hlive)
  · intro l x ptr hx
    rw [hpollers] at hx
    rw [live_congr hacc, howner, hchannel]
    exact h.channels l x ptr hx
  · rw [hpollers]
    exact h.interest

/-- What is in the interest set under a channel's descriptor is in the map. -/
theorem Registered.interest_found {C : Type} {p : EPollPoller C} {self : C} {ch : Channel}
    {e : EpollEvent C} (h : Registered p self ch) (he : p.interest ch.fd = some e) :
    p.channels ch.fd = some e.ptr := by
  have hown := h.own.2 e he
  unfold Registered at h
  cases hidx : ch.index with
  | kNew =>
      simp only [hidx] at h
      cases h.2.symm.trans he
  | kDeleted =>
      simp only [hidx] at h
      cases h.2.symm.trans he
  | kAdded =>
      simp only [hidx] at h
      rw [h.1, hown]

/-- An operation on one channel. -/
theorem FdInv.put (h : FdInv w gone opened) (ptr : ChannelPtr) (hlive : w.Live gone ptr)
    (hacc : w'.accepted = w.accepted) (howner : ∀ q, w'.ownerLoop q = w.ownerLoop q)
    (hother : ∀ q, q ≠ ptr → w'.channel q = w.channel q)
    (hfd : (w'.channel ptr).fd = (w.channel ptr).fd)
    (hpollers : ∀ l, l ≠ w.ownerLoop ptr → w'.pollers l = w.pollers l)
    (hreg : Registered (w'.pollers (w.ownerLoop ptr)) ptr (w'.channel ptr))
    (hsame : SameElsewhere (w.channel ptr).fd (w.pollers (w.ownerLoop ptr))
      (w'.pollers (w.ownerLoop ptr))) : FdInv w' gone opened := by
  have hfds : ∀ q, (w'.channel q).fd = (w.channel q).fd := by
    intro q
    by_cases hq : q = ptr
    · rw [hq, hfd]
    · rw [hother q hq]
  refine ⟨?_, ?_, ?_, ?_, ?_⟩
  · intro q hq
    rw [hfds]
    exact h.opened q ((live_congr hacc q).mp hq)
  · intro q q' hq hq'
    rw [hfds, hfds]
    exact h.distinct q q' ((live_congr hacc q).mp hq) ((live_congr hacc q').mp hq')
  · intro q hq
    rw [live_congr hacc] at hq
    rw [howner]
    by_cases hqp : q = ptr
    · rw [hqp]
      exact hreg
    · have hold := h.registered q hq
      rw [hother q hqp]
      by_cases hl : w.ownerLoop q = w.ownerLoop ptr
      · rw [hl] at hold ⊢
        exact hold.elsewhere hsame fun heq => hqp (h.distinct q ptr hq hlive heq)
      · rw [hpollers _ hl]
        exact hold
  · intro l x q hx
    rw [live_congr hacc, howner, hfds]
    by_cases hl : l = w.ownerLoop ptr
    · subst hl
      by_cases hxp : x = (w.channel ptr).fd
      · subst hxp
        rw [← hfd] at hx
        obtain rfl := hreg.own.1 q hx
        exact ⟨hlive, rfl, rfl⟩
      · rw [hsame.channels x hxp] at hx
        exact h.channels _ x q hx
    · rw [hpollers l hl] at hx
      exact h.channels l x q hx
  · intro l x e hx
    by_cases hl : l = w.ownerLoop ptr
    · subst hl
      by_cases hxp : x = (w.channel ptr).fd
      · subst hxp
        rw [← hfd] at hx ⊢
        exact hreg.interest_found hx
      · rw [hsame.interest x hxp] at hx
        rw [hsame.channels x hxp]
        exact h.interest _ x e hx
    · rw [hpollers l hl] at hx ⊢
      exact h.interest l x e hx

/-- Nothing is registered under a descriptor that no channel has. -/
theorem FdInv.unregistered (h : FdInv w gone opened) {fd : Int}
    (hfd : ∀ ptr, w.Live gone ptr → (w.channel ptr).fd ≠ fd) (l : LoopId n) :
    (w.pollers l).channels fd = none ∧ (w.pollers l).interest fd = none := by
  have hchannels : (w.pollers l).channels fd = none := by
    by_contra hne
    obtain ⟨ptr, hptr⟩ := Option.ne_none_iff_exists'.mp hne
    obtain ⟨hlive, -, heq⟩ := h.channels l fd ptr hptr
    exact hfd ptr hlive heq
  refine ⟨hchannels, ?_⟩
  by_contra hne
  obtain ⟨e, he⟩ := Option.ne_none_iff_exists'.mp hne
  cases hchannels.symm.trans (h.interest l fd e he)

/-- A new connection on a descriptor that no other channel has. -/
theorem FdInv.newConnection (h : FdInv w gone opened) {sockfd : Int} (l : LoopId n)
    (hopened : opened sockfd = true)
    (hfd : ∀ ptr, w.Live gone ptr → (w.channel ptr).fd ≠ sockfd) :
    FdInv (w.newConnection cfg l sockfd).world gone opened := by
  have hchannel : ∀ ptr, w.Live gone ptr →
      (w.newConnection cfg l sockfd).world.channel ptr = w.channel ptr ∧
        (w.newConnection cfg l sockfd).world.ownerLoop ptr = w.ownerLoop ptr := by
    intro ptr hlive
    cases ptr with
    | none => exact ⟨rfl, rfl⟩
    | some c =>
        have hne : c ≠ w.accepted := Nat.ne_of_lt hlive.1
        simp [ServerWorld.newConnection, ServerWorld.channel, ServerWorld.ownerLoop,
          Function.update_of_ne hne]
  have hnew : (w.newConnection cfg l sockfd).world.channel (some w.accepted) = .create sockfd := by
    simp [ServerWorld.newConnection, ServerWorld.channel, TcpConnection.create]
  have hlive : ∀ ptr, (w.newConnection cfg l sockfd).world.Live gone ptr →
      w.Live gone ptr ∨ ptr = some w.accepted := by
    intro ptr hptr
    cases ptr with
    | none => exact Or.inl trivial
    | some c =>
        obtain ⟨hc, hgone⟩ := hptr
        rcases Nat.lt_succ_iff_lt_or_eq.mp hc with hc | rfl
        · exact Or.inl ⟨hc, hgone⟩
        · exact Or.inr rfl
  refine ⟨?_, ?_, ?_, ?_, h.interest⟩
  · intro ptr hptr
    rcases hlive ptr hptr with hold | rfl
    · rw [(hchannel ptr hold).1]
      exact h.opened ptr hold
    · rw [hnew]
      exact hopened
  · intro ptr ptr' hptr hptr' heq
    rcases hlive ptr hptr with hold | rfl
    · rw [(hchannel ptr hold).1] at heq
      rcases hlive ptr' hptr' with hold' | rfl
      · rw [(hchannel ptr' hold').1] at heq
        exact h.distinct ptr ptr' hold hold' heq
      · rw [hnew] at heq
        exact absurd heq (hfd ptr hold)
    · rw [hnew] at heq
      rcases hlive ptr' hptr' with hold' | rfl
      · rw [(hchannel ptr' hold').1] at heq
        exact absurd heq.symm (hfd ptr' hold')
      · rfl
  · intro ptr hptr
    rcases hlive ptr hptr with hold | rfl
    · rw [(hchannel ptr hold).1, (hchannel ptr hold).2]
      exact h.registered ptr hold
    · rw [hnew]
      exact h.unregistered hfd _
  · intro l' x ptr hx
    obtain ⟨hold, howner, heq⟩ := h.channels l' x ptr hx
    refine ⟨?_, ?_, ?_⟩
    · cases ptr with
      | none => trivial
      | some c => exact ⟨Nat.lt_succ_of_lt hold.1, hold.2⟩
    · rw [(hchannel ptr hold).2]
      exact howner
    · rw [(hchannel ptr hold).1]
      exact heq

/-- Under the descriptor of a channel that is in no map nothing is registered. -/
theorem FdInv.unregistered_new (h : FdInv w gone opened) (hlive : w.Live gone ptr)
    (hnew : (w.channel ptr).index = .kNew) (l : LoopId n) :
    (w.pollers l).channels (w.channel ptr).fd = none ∧
      (w.pollers l).interest (w.channel ptr).fd = none := by
  have hchannels : (w.pollers l).channels (w.channel ptr).fd = none := by
    by_contra hne
    obtain ⟨q, hq⟩ := Option.ne_none_iff_exists'.mp hne
    obtain ⟨hqlive, rfl, heq⟩ := h.channels l _ q hq
    obtain rfl := h.distinct q ptr hqlive hlive heq
    have hreg := h.registered q hlive
    unfold Registered at hreg
    simp only [hnew] at hreg
    exact hne hreg.1
  refine ⟨hchannels, ?_⟩
  by_contra hne
  obtain ⟨e, he⟩ := Option.ne_none_iff_exists'.mp hne
  cases hchannels.symm.trans (h.interest l _ e he)

/-- A new channel is in no map and no interest set. -/
theorem FdInv.absent (h : FdInv w gone opened) (hnew : (w.channel ptr).index = .kNew)
    (l : LoopId n) (fd : Int) :
    (w.pollers l).channels fd ≠ some ptr ∧
      ∀ e, (w.pollers l).interest fd = some e → e.ptr ≠ ptr := by
  have hchannels : (w.pollers l).channels fd ≠ some ptr := by
    intro hfound
    obtain ⟨hlive, -, hfd⟩ := h.channels l fd ptr hfound
    have hnone := (h.unregistered_new hlive hnew l).1
    rw [hfd, hfound] at hnone
    cases hnone
  refine ⟨hchannels, ?_⟩
  rintro e he rfl
  exact hchannels (h.interest l fd e he)

/-- Closing a descriptor that is registered nowhere changes no poller. -/
theorem forget_pollers {fd : Int} (h : ∀ l, (w.pollers l).interest fd = none) :
    (fun l => (w.pollers l).forget fd) = w.pollers := by
  funext l
  exact EPollPoller.forget_of_none (h l)

/-- A connection whose channel is in no map goes, and its descriptor with it. -/
theorem FdInv.destroy (h : FdInv w gone opened) {c : Nat} (hlive : w.Live gone (some c))
    (hnew : (w.channel (some c)).index = .kNew) :
    FdInv w (Function.update gone c true)
      (Function.update opened (w.channel (some c)).fd false) := by
  have hkeep : ∀ q, w.Live (Function.update gone c true) q → w.Live gone q ∧ q ≠ some c := by
    intro q hq
    cases q with
    | none => exact ⟨trivial, by simp⟩
    | some d =>
        obtain ⟨hd, hgone⟩ := hq
        by_cases hdc : d = c
        · subst hdc
          simp at hgone
        · rw [Function.update_of_ne hdc] at hgone
          exact ⟨⟨hd, hgone⟩, by simpa using hdc⟩
  refine ⟨?_, ?_, ?_, ?_, h.interest⟩
  · intro q hq
    obtain ⟨hold, hne⟩ := hkeep q hq
    have hfd : (w.channel q).fd ≠ (w.channel (some c)).fd :=
      fun heq => hne (h.distinct q (some c) hold hlive heq)
    rw [Function.update_of_ne hfd]
    exact h.opened q hold
  · intro q q' hq hq'
    exact h.distinct q q' (hkeep q hq).1 (hkeep q' hq').1
  · intro q hq
    exact h.registered q (hkeep q hq).1
  · intro l x q hx
    obtain ⟨hold, howner, heq⟩ := h.channels l x q hx
    refine ⟨?_, howner, heq⟩
    cases q with
    | none => trivial
    | some d =>
        refine ⟨hold.1, ?_⟩
        have hdc : d ≠ c := by
          rintro rfl
          subst heq
          cases (h.unregistered_new hlive hnew l).1.symm.trans hx
        rw [Function.update_of_ne hdc]
        exact hold.2

end Fds

/-! ### Steps -/

/-- `FdInv`, and the descriptor that `accept` has just returned: it is open, no channel has
it, and the call that takes it is the next of the base loop. -/
structure Descriptors (w : ServerWorld n) (work : LoopId n → List ServerAct) (gone : Nat → Bool)
    (opened : Int → Bool) : Prop where
  fds : FdInv w gone opened
  pending : ∀ l fd, .newConnection fd ∈ work l →
    l = 0 ∧ opened fd = true ∧ ∀ ptr, w.Live gone ptr → (w.channel ptr).fd ≠ fd
  next : ∀ l fd, .newConnection fd ∉ (work l).tail

section Steps

variable {w w' : ServerWorld n} {work work' : LoopId n → List ServerAct} {gone : Nat → Bool}
  {opened opened' : Int → Bool} {l : LoopId n} {o : ServerOracle} {a : ServerAct}
  {e : ServerEffect n} {tail : List ServerAct} {label : ServerLabel n}

theorem newConnection_not_mem_body {fd : Int} (fs : List ServerFunctor) :
    .newConnection fd ∉ fs.flatMap ServerFunctor.body := by
  intro hmem
  obtain ⟨f, -, hf⟩ := List.mem_flatMap.mp hmem
  cases f <;> simp [ServerFunctor.body] at hf

/-- The acceptor alone calls `newConnection`, with what `accept` returned. -/
theorem call_newConnection {fd : Int} (h : w.call cfg l o a = .ok e)
    (hmem : .newConnection fd ∈ e.calls) :
    l = 0 ∧ a = .acceptorRead ∧ o.accept = some fd ∧ e.calls = [.newConnection fd] ∧
      e.world = w := by
  by_cases ha : a = .acceptorRead
  · subst ha
    simp only [ServerWorld.call, bind_eq_ok, require_eq_ok, Except.ok.injEq] at h
    obtain ⟨-, hl, rfl⟩ := h
    cases haccept : o.accept with
    | none => simp [haccept] at hmem
    | some sockfd =>
        simp only [haccept, List.mem_singleton, ServerAct.newConnection.injEq] at hmem
        subst hmem
        exact ⟨hl, rfl, rfl, rfl, rfl⟩
  · exfalso
    cases serverCall h with
    | handleActiveChannels active =>
        rcases List.mem_append.mp hmem with hmem | hmem
        · obtain ⟨⟨ptr, revents⟩, -, heq⟩ := List.mem_map.mp hmem
          cases ptr <;> cases heq
        · simp at hmem
    | acceptorEvent _ hcalls => rcases hcalls with rfl | rfl <;> simp at hmem
    | acceptorRead => exact ha rfl
    | newConnection =>
        simp only [ServerWorld.newConnection, runInLoop] at hmem
        split at hmem <;> simp [ServerFunctor.body, ConnFunctor.body] at hmem
    | @conn c k v out =>
        rcases List.mem_append.mp hmem with hmem | hmem
        · simp at hmem
        · unfold ServerWorld.removeConnection runInLoop at hmem
          split at hmem
          · split at hmem <;> simp [ServerFunctor.body] at hmem
          · cases hmem
    | _ => simp at hmem

/-- What a call of a connection that does not touch it leaves. -/
theorem untouched_call {c : Nat} {k : ConnCall} {v : ConnView ChannelPtr} {out : Out}
    (hk : k.touches = false) (hcall : ((w.noteCurrent l c k).view c).call k o.toOracle = .ok (v, out)) :
    v = (w.noteCurrent l c k).view c := by
  cases k with
  | userCode =>
      cases hcall
      rfl
  | user u =>
      cases u with
      | queueInLoop =>
          cases hcall
          rfl
      | _ => cases hk
  | _ => cases hk

/-- Erasing a connection from the map changes no channel. -/
theorem erased_channel (m : List Char → Option Nat) (c : Nat) (obs : List Obs) (q : ChannelPtr) :
    (ServerWorld.observe { w with connections := m } c obs).channel q = w.channel q ∧
      (ServerWorld.observe { w with connections := m } c obs).ownerLoop q = w.ownerLoop q := by
  cases q with
  | none => exact ⟨rfl, rfl⟩
  | some d =>
      by_cases hdc : d = c
      · subst hdc
        simp [ServerWorld.channel, ServerWorld.ownerLoop, ServerWorld.observe]
      · simp [ServerWorld.channel, ServerWorld.ownerLoop, ServerWorld.observe,
          Function.update_of_ne hdc]

section View

variable {c : Nat} {k : ConnCall} {v : ConnView ChannelPtr} {obs : List Obs}

theorem setView_channel_self :
    ((w.noteCurrent l c k).setView c v obs).channel (some c) = v.conn.channel := by
  simp [ServerWorld.channel, ServerWorld.setView]

theorem setView_channel_ne {q : ChannelPtr} (hq : q ≠ some c) :
    ((w.noteCurrent l c k).setView c v obs).channel q = w.channel q := by
  cases q with
  | none => cases k <;> rfl
  | some d =>
      have hdc : d ≠ c := by simpa using hq
      simp [ServerWorld.channel, ServerWorld.setView, Function.update_of_ne hdc]

theorem setView_ownerLoop (q : ChannelPtr) :
    ((w.noteCurrent l c k).setView c v obs).ownerLoop q = w.ownerLoop q := by
  cases q with
  | none => rfl
  | some d =>
      by_cases hdc : d = c
      · subst hdc
        simp [ServerWorld.ownerLoop, ServerWorld.setView]
      · simp [ServerWorld.ownerLoop, ServerWorld.setView, Function.update_of_ne hdc]

theorem view_conn : ((w.noteCurrent l c k).view c).conn = (w.conns c).conn := by
  simp [ServerWorld.view]

theorem view_poller : ((w.noteCurrent l c k).view c).poller = w.pollers (w.conns c).loop := by
  simp [ServerWorld.view]

end View

/-- A call of a connection keeps the descriptors of all channels, and the pollers in
agreement with them. -/
theorem FdInv.conn {c : Nat} {k : ConnCall} {v : ConnView ChannelPtr} {out : Out}
    (h : FdInv w gone opened) (hsound : ServerSound w work)
    (hwork : work l = .conn c k :: tail) (hlive : k.touches = true → gone c = false)
    (hcall : ((w.noteCurrent l c k).view c).call k o.toOracle = .ok (v, out)) :
    FdInv ((w.noteCurrent l c k).setView c v out.obs) gone opened ∧
      ∀ q, (((w.noteCurrent l c k).setView c v out.obs).channel q).fd = (w.channel q).fd := by
  have hacc : ((w.noteCurrent l c k).setView c v out.obs).accepted = w.accepted := by
    simp [ServerWorld.setView]
  cases hk : k.touches with
  | false =>
      have hv := untouched_call hk hcall
      have hchannel : ∀ q, ((w.noteCurrent l c k).setView c v out.obs).channel q =
          w.channel q := by
        intro q
        by_cases hq : q = some c
        · rw [hq, setView_channel_self, hv, view_conn]
          rfl
        · exact setView_channel_ne hq
      have hpollers : ((w.noteCurrent l c k).setView c v out.obs).pollers = w.pollers := by
        simp only [ServerWorld.setView, noteCurrent_conns, noteCurrent_pollers]
        rw [hv, view_poller]
        exact Function.update_eq_self _ _
      constructor
      · exact h.frame hacc hchannel setView_ownerLoop hpollers fun _ hopen => hopen
      · intro q
        rw [hchannel]
  | true =>
      obtain ⟨hc, -, hspec⟩ := hsound.callSpec hwork hcall
      have hex : w.Live gone (some c) := ⟨hc, hlive hk⟩
      have hmove := hspec.channelMove (view_conn ▸ (hsound.of_lt hc).inv)
      obtain ⟨hfd, hreg, hsame⟩ := hmove.elsewhere (by
        rw [view_poller, view_conn]
        exact h.registered (some c) hex)
      rw [view_conn] at hfd hsame
      rw [view_poller] at hsame
      have hnew : ((w.noteCurrent l c k).setView c v out.obs).pollers (w.ownerLoop (some c)) =
          v.poller := by
        simp [ServerWorld.setView, ServerWorld.ownerLoop]
      have hself : (((w.noteCurrent l c k).setView c v out.obs).channel (some c)).fd =
          (w.channel (some c)).fd := by
        rw [setView_channel_self]
        exact hfd
      constructor
      · refine h.put (some c) hex hacc setView_ownerLoop (fun q => setView_channel_ne) hself
          ?_ ?_ ?_
        · intro l' hl'
          have hne : l' ≠ (w.conns c).loop := hl'
          simp [ServerWorld.setView, Function.update_of_ne hne]
        · rw [hnew, setView_channel_self]
          exact hreg
        · rw [hnew]
          exact hsame
      · intro q
        by_cases hq : q = some c
        · rw [hq]
          exact hself
        · rw [setView_channel_ne hq]

/-- So does every other call but `newConnection`. -/
theorem ServerCall.fds (h : ServerCall cfg w l o a e) (hsound : ServerSound w work)
    (hwork : work l = a :: tail) (hfd : FdInv w gone opened)
    (hlive : ∀ c k, a = .conn c k → k.touches = true → gone c = false)
    (hnot : ∀ sockfd, a ≠ .newConnection sockfd) :
    FdInv e.world gone opened ∧ e.world.accepted = w.accepted ∧
      ∀ q, (e.world.channel q).fd = (w.channel q).fd := by
  cases h with
  | @listen cp hl hset =>
      have hreg : Registered (w.pollers 0) none w.acceptChannel := hfd.registered none trivial
      obtain ⟨p', heq, hreg', hsame⟩ := setEvents_ok hreg (w.acceptChannel.events ||| kReadEvent)
      have hcp := Except.ok.inj (heq.symm.trans hset)
      subst hcp
      refine ⟨hfd.put none trivial rfl ?_ ?_ rfl ?_ ?_ ?_, rfl, ?_⟩
      · intro q
        cases q <;> rfl
      · intro q hq
        cases q with
        | none => exact absurd rfl hq
        | some c => rfl
      · intro l' hl'
        exact Function.update_of_ne hl' _ _
      · simpa [ServerWorld.ownerLoop, ServerWorld.channel] using hreg'
      · simpa [ServerWorld.ownerLoop, ServerWorld.channel] using hsame
      · intro q
        cases q <;> rfl
  | newConnection sockfd => exact absurd rfl (hnot sockfd)
  | @conn c k v out hl hcall =>
      obtain ⟨hfd', hsame⟩ := hfd.conn hsound hwork (hlive c k rfl) hcall
      exact ⟨hfd', by simp [ServerWorld.setView], hsame⟩
  | @removeConnectionInLoop c hl _ =>
      refine ⟨hfd.frame rfl ?_ ?_ rfl fun _ hopen => hopen, rfl, ?_⟩
      · intro q
        exact (erased_channel _ c _ q).1
      · intro q
        exact (erased_channel _ c _ q).2
      · intro q
        rw [(erased_channel _ c _ q).1]
  | _ =>
      refine ⟨hfd.frame rfl ?_ ?_ rfl fun _ hopen => hopen, rfl, ?_⟩
      · intro q
        cases q <;> rfl
      · intro q
        cases q <;> rfl
      · intro q
        cases q <;> rfl

/-- A step that changes neither the channels nor their descriptors, and adds no
`newConnection`. -/
theorem Descriptors.frame (h : Descriptors w work gone opened) (hfd : FdInv w' gone opened')
    (hacc : w'.accepted = w.accepted) (hfds : ∀ q, (w'.channel q).fd = (w.channel q).fd)
    (hopened : ∀ fd, opened fd = true → opened' fd = true)
    (hmem : ∀ l fd, .newConnection fd ∈ work' l → .newConnection fd ∈ work l)
    (hnext : ∀ l fd, .newConnection fd ∉ (work' l).tail) : Descriptors w' work' gone opened' := by
  refine ⟨hfd, ?_, hnext⟩
  intro l fd hfd'
  obtain ⟨hl, hopen, hne⟩ := h.pending l fd (hmem l fd hfd')
  refine ⟨hl, hopened fd hopen, fun q hq => ?_⟩
  rw [hfds]
  exact hne q ((live_congr hacc q).mp hq)

/-- Functors queued behind the calls to come add no `newConnection`. -/
theorem Descriptors.queued (h : Descriptors w work gone opened) {l : LoopId n}
    {fs : List ServerFunctor} (hwork : work' l = work l ++ fs.flatMap ServerFunctor.body) :
    (∀ fd, .newConnection fd ∈ work' l → .newConnection fd ∈ work l) ∧
      ∀ fd, .newConnection fd ∉ (work' l).tail := by
  constructor
  · intro fd hfd
    rw [hwork, List.mem_append] at hfd
    exact hfd.resolve_right (newConnection_not_mem_body _)
  · intro fd hfd
    rw [hwork] at hfd
    rcases mem_tail_append hfd with hfd | hfd
    · exact h.next l fd hfd
    · exact newConnection_not_mem_body _ hfd

theorem ThreadSpec.channel {t : ServerThread}
    {out : ServerWorld n × List (LoopId n × ServerFunctor)} (h : ThreadSpec w t out)
    (q : ChannelPtr) :
    out.1.channel q = w.channel q ∧ out.1.ownerLoop q = w.ownerLoop q := by
  cases q with
  | none => exact ⟨h.keeps.2.1, rfl⟩
  | some c => exact ⟨congrArg TcpConnection.channel (h.keeps.2.2.2 c), (h.frame.2.2.2.2 c).2.1⟩

/-- The destructor of a connection whose channel is in no map. -/
theorem Descriptors.destroy {c : Nat} (h : Descriptors w work gone opened)
    (hlive : w.Live gone (some c)) (hnew : (w.channel (some c)).index = .kNew) :
    Descriptors w work (Function.update gone c true)
      (Function.update opened (w.channel (some c)).fd false) := by
  refine ⟨h.fds.destroy hlive hnew, ?_, h.next⟩
  intro l fd hmem
  obtain ⟨hl, hopen, hne⟩ := h.pending l fd hmem
  have hother : fd ≠ (w.channel (some c)).fd := Ne.symm (hne (some c) hlive)
  refine ⟨hl, ?_, fun q hq => hne q ?_⟩
  · rw [Function.update_of_ne hother]
    exact hopen
  · cases q with
    | none => trivial
    | some d =>
        obtain ⟨hd, hgone⟩ := hq
        refine ⟨hd, ?_⟩
        by_cases hdc : d = c
        · rw [hdc]
          exact hlive.2
        · rw [Function.update_of_ne hdc] at hgone
          exact hgone

/-- A call, by what it is. -/
theorem Descriptors.called (h : Descriptors w work gone opened) (hsound : ServerSound w work)
    (hwork : work l = a :: tail) (hcall : w.call cfg l o a = .ok e)
    (hself : work' l = e.calls ++ tail ++ (queuedTo l e.queued).flatMap ServerFunctor.body)
    (hother : ∀ l', l' ≠ l →
      work' l' = work l' ++ (queuedTo l' e.queued).flatMap ServerFunctor.body)
    (hlive : ∀ c k, a = .conn c k → k.touches = true → gone c = false)
    (hopened : ∀ fd, opened fd = true → opened' fd = true)
    (haccept : ∀ fd, a = .acceptorRead → o.accept = some fd →
      opened fd = false ∧ opened' fd = true) : Descriptors e.world work' gone opened' := by
  have htail : ∀ fd, .newConnection fd ∉ tail := by
    intro fd hfd
    apply h.next l fd
    rw [hwork]
    exact hfd
  have hqueued : ∀ {l'}, l' ≠ l → ∀ fd, .newConnection fd ∈ work' l' →
      .newConnection fd ∈ work l' := fun hl' => (h.queued (hother _ hl')).1
  -- on the loop itself `newConnection` is to come only where the call has just made it
  have hcalls : ∀ fd, .newConnection fd ∈ work' l → .newConnection fd ∈ e.calls := by
    intro fd hfd
    rw [hself, List.mem_append, List.mem_append] at hfd
    rcases hfd with (hfd | hfd) | hfd
    · exact hfd
    · exact absurd hfd (htail fd)
    · exact absurd hfd (newConnection_not_mem_body _)
  have hnext : ∀ l' fd, .newConnection fd ∉ (work' l').tail := by
    intro l' fd hfd
    by_cases hl' : l' = l
    · subst hl'
      obtain ⟨-, -, -, hsingle, -⟩ :=
        call_newConnection hcall (hcalls fd (List.mem_of_mem_tail hfd))
      rw [hself, hsingle] at hfd
      rcases List.mem_append.mp hfd with hfd | hfd
      · exact htail fd hfd
      · exact newConnection_not_mem_body _ hfd
    · exact (h.queued (hother l' hl')).2 fd hfd
  have hgrow : FdInv w gone opened → FdInv w gone opened' := fun hfd =>
    hfd.frame rfl (fun _ => rfl) (fun _ => rfl) rfl hopened
  by_cases hnew : ∃ sockfd, a = .newConnection sockfd
  · obtain ⟨sockfd, rfl⟩ := hnew
    obtain ⟨rfl, hopen, hne⟩ := h.pending l sockfd (by simp [hwork])
    cases serverCall hcall with
    | newConnection _ hl =>
        refine ⟨(hgrow h.fds).newConnection 0 (hopened _ hopen) hne, ?_, hnext⟩
        intro l' fd hfd
        exfalso
        by_cases hl' : l' = 0
        · subst hl'
          obtain ⟨-, ha, -⟩ := call_newConnection hcall (hcalls fd hfd)
          cases ha
        · exact hl' (h.pending l' fd (hqueued hl' fd hfd)).1
  · have hnot : ∀ sockfd, a ≠ .newConnection sockfd := fun sockfd ha => hnew ⟨sockfd, ha⟩
    obtain ⟨hfd, hacc, hfds⟩ :=
      (serverCall hcall).fds hsound hwork (hgrow h.fds) hlive hnot
    refine ⟨hfd, ?_, hnext⟩
    intro l' fd hmem
    by_cases hl' : l' = l
    · subst hl'
      obtain ⟨rfl, ha, hfd', -, hworld⟩ := call_newConnection hcall (hcalls fd hmem)
      obtain ⟨hclosed, hopen⟩ := haccept fd ha hfd'
      refine ⟨rfl, hopen, fun q hq heq => ?_⟩
      rw [hworld] at hq heq
      have hq' := h.fds.opened q hq
      rw [heq, hclosed] at hq'
      cases hq'
    · obtain ⟨hl, hopen, hne⟩ := h.pending l' fd (hqueued hl' fd hmem)
      refine ⟨hl, hopened fd hopen, fun q hq => ?_⟩
      rw [hfds]
      exact hne q ((live_congr hacc q).mp hq)

/-- **Every step of the server keeps the descriptors apart.** -/
theorem Progress.descriptors (hprog : Progress (serverApp n cfg) w work label w' work')
    (hsound : ServerSound w work) (h : Descriptors w work gone opened)
    (hlive : ∀ l o c k tail, label = .call l o → work l = .conn c k :: tail →
      k.touches = true → gone c = false)
    (hopened : ∀ fd, opened fd = true → opened' fd = true)
    (haccept : ∀ l o tail fd, label = .call l o → work l = .acceptorRead :: tail →
      o.accept = some fd → opened fd = false ∧ opened' fd = true) :
    Descriptors w' work' gone opened' := by
  have hgrow : FdInv w gone opened' := h.fds.frame rfl (fun _ => rfl) (fun _ => rfl) rfl hopened
  cases hprog with
  | silent => exact h.frame hgrow rfl (fun _ => rfl) hopened (fun _ _ hmem => hmem) h.next
  | @poll l active cbs _ hready hcbs hwork hother =>
      obtain ⟨evs, rfl, -⟩ := ready_cases hready
      refine h.frame hgrow rfl (fun _ => rfl) hopened ?_ ?_
      · intro l' fd hmem
        by_cases hl' : l' = l
        · subst hl'
          simpa [hwork] using hmem
        · rw [hother l' hl'] at hmem
          exact hmem
      · intro l' fd hmem
        by_cases hl' : l' = l
        · subst hl'
          rw [hwork, List.singleton_append, List.tail_cons, hcbs] at hmem
          exact newConnection_not_mem_body _ hmem
        · rw [hother l' hl'] at hmem
          exact h.next l' fd hmem
  | @call l o a tail e _ hhead hcall hself hother =>
      refine h.called hsound hhead hcall hself hother ?_ hopened ?_
      · rintro c k rfl
        exact hlive l o c k tail rfl hhead
      · rintro fd rfl
        exact haccept l o tail fd rfl hhead
  | thread hthread hwork =>
      have hspec := threadSpec hthread
      obtain ⟨hpollers, hacc, -⟩ := hspec.frame
      refine h.frame (h.fds.frame hacc (fun q => (hspec.channel q).1) (fun q => (hspec.channel q).2)
        hpollers hopened) hacc (fun q => by rw [(hspec.channel q).1]) hopened ?_ ?_
      · exact fun l => (h.queued (hwork l)).1
      · exact fun l => (h.queued (hwork l)).2

end Steps

end Reactor
