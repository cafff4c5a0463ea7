import Reactor.HostRuns

/-!
# Descriptor reuse

* `HostInv.remove_ok` - a closed connection's channel can be removed, whatever its loop does.
* `HostInv.call_ofRegistry` - the calls of a server violate no assertion about channels.
* `fd_reuse_safe` - no descriptor is closed while it is registered or twice, and no assertion
  of `Channel::remove`, `EventLoop::removeChannel` and the poller fails.
-/

namespace Reactor

open Reactor.Lib

variable {n : Nat} {cfg : ServerConfig}

/-! ### Descriptor reuse -/

section Reuse

variable {s s' : Host n} {c : Nat} {l : LoopId n} {o : ServerOracle} {f : Fault}

/-- What a thread is about to remove, while the connection is closed and its channel still in
the map, it can remove. -/
theorem HostInv.remove_ok (h : HostInv cfg s) (hgone : s.gone c = false)
    (hmem : .conn c .channelRemove ∈ (s.proc.loops l).todo)
    (hclosed : (s.proc.world.conns c).conn.state = .kDisconnected)
    (hnot : .destroyed ∉ (s.proc.world.conns c).trace) :
    ∃ cp, (s.proc.world.conns c).conn.channel.remove (some c)
      (s.proc.world.dispatching (s.proc.world.conns c).loop)
      (s.proc.world.pollers (s.proc.world.conns c).loop) = .ok cp := by
  have hwork := mem_callsOf_of_todo cfg hmem
  obtain ⟨hc, rfl⟩ := h.sound.of_mem_callsOf hwork
  have hlive : s.proc.world.Live s.gone (some c) := ⟨hc, hgone⟩
  have hreg : Registered (s.proc.world.pollers (s.proc.world.conns c).loop) (some c)
      (s.proc.world.conns c).conn.channel := h.descriptors.fds.registered (some c) hlive
  have hnone : (s.proc.world.conns c).conn.channel.isNoneEvent = true :=
    (h.sound.of_lt hc).inv.isNoneEvent_of_closed hclosed
  have hold : (s.proc.world.conns c).conn.channel.index ≠ .kNew := by
    intro hnew
    have hconnecting := (h.indexed c hc).kept hnot hnew
    cases hclosed.symm.trans hconnecting
  have hfound : (s.proc.world.pollers (s.proc.world.conns c).loop).channels
      (s.proc.world.conns c).conn.channel.fd = some (some c) := by
    unfold Registered at hreg
    cases hidx : (s.proc.world.conns c).conn.channel.index with
    | kNew => exact absurd hidx hold
    | kAdded =>
        simp only [hidx] at hreg
        exact hreg.1
    | kDeleted =>
        simp only [hidx] at hreg
        exact hreg.1
  -- a loop that handles events is not in `connectDestroyed`
  have hoff : (s.proc.world.dispatching (s.proc.world.conns c).loop).eventHandling = true →
      (s.proc.world.dispatching (s.proc.world.conns c).loop).currentActiveChannel = some (some c) ∨
        some c ∉ (s.proc.world.dispatching (s.proc.world.conns c).loop).activeChannels := by
    intro hd
    have hframes := h.frames (s.proc.world.conns c).loop
    have hphase := hframes.phase (Or.inl (hframes.handling hd))
    exact absurd hphase (hframes.destroying c (Or.inr hmem))
  obtain ⟨p', heq, -⟩ := Reactor.remove_ok hreg hnone hfound hoff
  exact ⟨_, heq⟩

/-- Only closed connections are removed from their pollers. -/
def Host.RemovesClosed (s : Host n) : Prop :=
  ∀ l c, .conn c .channelRemove ∈ (s.proc.loops l).todo →
    (s.proc.world.conns c).conn.state = .kDisconnected ∧
      .destroyed ∉ (s.proc.world.conns c).trace

/-- A running server removes only closed connections from their pollers. -/
theorem HostInv.removesClosed (h : HostInv cfg s) (hserver : s.serverGone = false) :
    s.RemovesClosed := by
  intro l c hmem
  have hinv := reachable_serverInv (h.running hserver)
  have hwork := mem_callsOf_of_todo cfg hmem
  obtain ⟨hc, rfl⟩ := hinv.of_mem_callsOf hwork
  obtain ⟨g, htrace, htokens, -, hs⟩ := (hinv.life hc).stage
  have htoken : .channelRemove ∈ g.tokens := by
    rw [← htokens]
    exact List.mem_filter.mpr ⟨hwork, rfl⟩
  have hg : g = .destroying := by
    cases g <;> simp_all [Stage.tokens]
  subst hg
  refine ⟨hs, ?_⟩
  rw [← mem_life rfl]
  simp only [share] at htrace
  simp [htrace, Stage.life]

theorem boundString_ofRegistry {m : Message} (h : m.boundString = .error f) :
    f.ofRegistry = false := by
  cases m with
  | piece p =>
      simp only [Message.boundString, StringPiece.asString] at h
      split at h
      · cases h
        rfl
      · unfold StringPiece.bytes at h
        split at h <;> cases h
        rfl
  | buffer b =>
      rw [Message.boundString, Buffer.retrieveAllAsString_ok b.2] at h
      cases h

theorem thread_ofRegistry {w : ServerWorld n} {t : ServerThread}
    (h : w.thread t = some (.error f)) : f.ofRegistry = false := by
  cases t with
  | sendCheck t m =>
      simp only [ServerWorld.thread] at h
      split at h
      · split at h
        · simp only [Option.some.injEq] at h
          cases hbound : m.boundString with
          | ok s => simp [hbound, Except.map] at h
          | error f' =>
              simp only [hbound, Except.map, Except.error.injEq] at h
              subst h
              exact boundString_ofRegistry hbound
        · cases h
      · cases h
  | _ =>
      simp only [ServerWorld.thread] at h
      split at h <;> cases h

/-- How a call of the server ends in one of the assertions about channels. -/
theorem serverCall_ofRegistry {w : ServerWorld n} {a : ServerAct} (hf : f.ofRegistry = true)
    (h : w.call cfg l o a = .error f) :
    (a = .listen ∧ w.acceptChannel.enableReading none (w.pollers 0) = .error f) ∨
      ∃ c k, a = .conn c k ∧ ((w.noteCurrent l c k).view c).call k o.toOracle = .error f := by
  cases a with
  | listen =>
      simp only [ServerWorld.call, ServerWorld.listen, bind_eq_error, require_eq_error,
        reduceCtorEq, and_false, exists_false, or_false] at h
      rcases h with ⟨-, rfl⟩ | ⟨_, -, h⟩
      · cases hf
      · exact Or.inl ⟨rfl, h⟩
  | acceptorRead =>
      simp only [ServerWorld.call, bind_eq_error, require_eq_error, reduceCtorEq, and_false,
        exists_false, or_false] at h
      rw [← h.2] at hf
      cases hf
  | newConnection sockfd =>
      simp only [ServerWorld.call, bind_eq_error, require_eq_error, reduceCtorEq, and_false,
        exists_false, or_false] at h
      rw [← h.2] at hf
      cases hf
  | conn c k =>
      simp only [ServerWorld.call, ServerWorld.connCall, bind_eq_error, require_eq_error,
        reduceCtorEq, and_false, exists_false, or_false, noteCurrent_conns] at h
      rcases h with ⟨-, rfl⟩ | ⟨_, -, h⟩
      · cases hf
      · exact Or.inr ⟨c, k, rfl, h⟩
  | removeConnectionInLoop c =>
      simp only [ServerWorld.call, ServerWorld.removeConnectionInLoop, bind_eq_error,
        require_eq_error, check_eq_error, reduceCtorEq, and_false, exists_false, or_false] at h
      rcases h with ⟨-, rfl⟩ | ⟨_, -, -, rfl⟩ <;> cases hf
  | _ => cases h

/-- User code that does not touch the connection returns. -/
theorem untouched_ne_error {C : Type} [DecidableEq C] {v : ConnView C} {k : ConnCall}
    {o : Oracle} (hk : k.touches = false) : v.call k o ≠ .error f := by
  intro h
  cases k with
  | userCode => cases h
  | user u =>
      cases u with
      | queueInLoop => cases h
      | _ => cases hk
  | _ => cases hk

/-- The calls of a server violate no assertion about channels, unless the user's message
callback does. -/
theorem HostInv.call_ofRegistry {a : ServerAct} {rest : List ServerAct} (h : HostInv cfg s)
    (hremoves : s.RemovesClosed) (htodo : (s.proc.loops l).todo = a :: rest)
    (hdangling : s.dangling a = false) (hf : f.ofRegistry = true)
    (hcall : s.proc.world.call cfg l o a = .error f) :
    ∃ c b, a = .conn c .handleRead ∧ o.onMessage b = .error f := by
  rcases serverCall_ofRegistry hf hcall with ⟨-, hset⟩ | ⟨c, k, rfl, hconn⟩
  · have hreg : Registered (s.proc.world.pollers 0) none s.proc.world.acceptChannel :=
      h.descriptors.fds.registered none trivial
    exact absurd hset (setEvents_ne_error hreg)
  · have hmem : .conn c k ∈ (s.proc.loops l).todo := by
      rw [htodo]
      exact List.mem_cons_self
    obtain ⟨hc, rfl⟩ := h.sound.of_mem_callsOf (mem_callsOf_of_todo cfg hmem)
    cases hk : k.touches with
    | false => exact absurd hconn (untouched_ne_error hk)
    | true =>
        have hgone : s.gone c = false := Host.not_gone hdangling hk
        have hreg := h.descriptors.fds.registered (some c) ⟨hc, hgone⟩
        rcases Reactor.call_ofRegistry (v := (s.proc.world.noteCurrent _ c k).view c)
            (by rw [view_poller, view_conn]; exact hreg) hf hconn with
          ⟨rfl, b, hb⟩ | ⟨rfl, hrem⟩
        · exact ⟨c, b, rfl, hb⟩
        · obtain ⟨hclosed, hnot⟩ := hremoves _ c hmem
          obtain ⟨cp, hok⟩ := h.remove_ok hgone hmem hclosed hnot
          cases hrem.symm.trans hok

theorem fd_eq (w : ServerWorld n) (ptr : ChannelPtr) : w.fd ptr = (w.channel ptr).fd := by
  cases ptr <;> rfl

theorem present_of_live {ptr : ChannelPtr} (hserver : s.serverGone = false)
    (h : s.proc.world.Live s.gone ptr) : s.present ptr = true := by
  cases ptr with
  | none => simp [Host.present, hserver]
  | some c => simp [Host.present, h.1, h.2]

theorem live_of_present {ptr : ChannelPtr} (h : s.present ptr = true) :
    s.proc.world.Live s.gone ptr := by
  cases ptr with
  | none => trivial
  | some c =>
      simp only [Host.present, Bool.and_eq_true, decide_eq_true_eq, Bool.not_eq_true'] at h
      exact h

/-- What `epoll_wait` reports is found in the map. -/
theorem HostInv.reported_found {ev : ChannelPtr × Events} (h : HostInv cfg s)
    (hreported : s.proc.world.reported l ev = true) :
    (s.proc.world.pollers l).channels (s.proc.world.fd ev.1) = some ev.1 ∧
      s.proc.world.Live s.gone ev.1 := by
  unfold ServerWorld.reported at hreported
  split at hreported
  · rename_i e he
    simp only [Bool.and_eq_true, decide_eq_true_eq] at hreported
    have hfound := h.descriptors.fds.interest l _ e he
    rw [hreported.1] at hfound
    exact ⟨hfound, (h.descriptors.fds.channels l _ ev.1 hfound).1⟩
  · cases hreported

/-- Where `fillActiveChannels` fails, it finds the channel of an acceptor that went with the
server. -/
theorem HostInv.fillActiveChannels_error (h : HostInv cfg s)
    {active : List (ChannelPtr × Events)}
    (hreported : ∀ ev ∈ active, s.proc.world.reported l ev = true)
    (hfail : s.fillActiveChannels l active = .error f) : f = .badAccess ∧ s.serverGone = true := by
  induction active with
  | nil => cases hfail
  | cons ev rest ih =>
      obtain ⟨hfound, hlive⟩ := h.reported_found (hreported ev List.mem_cons_self)
      simp only [Host.fillActiveChannels, bind_eq_error, require_eq_error, check_eq_error] at hfail
      rcases hfail with ⟨habsent, rfl⟩ | ⟨_, -, ⟨hne, -⟩ | ⟨_, -, ⟨hne, -⟩ | ⟨_, -, hrest⟩⟩⟩
      · refine ⟨rfl, ?_⟩
        by_contra hserver
        exact habsent (present_of_live (by simpa using hserver) hlive)
      · simp [hfound] at hne
      · exact absurd hfound hne
      · exact ih (fun ev' hev' => hreported ev' (List.mem_cons_of_mem _ hev')) hrest

/-- Where `poll` fails, it reports the acceptor of a server that is gone. -/
theorem HostInv.poll_fails {active : List ServerAct} (h : HostInv cfg s)
    (hlawful : s.Lawful (.run (.poll l active)))
    (hfail : (hostSystem n cfg).Fails (.run (.poll l active)) s f) :
    f = .badAccess ∧ s.serverGone = true := by
  change s.step cfg (.run (.poll l active)) = some (.error f) at hfail
  simp only [Host.step, App.step, Option.map_eq_some_iff] at hfail
  obtain ⟨next, hnext, hfail⟩ := hfail
  split at hnext
  · rename_i hc
    cases hnext
    obtain ⟨evs, rfl, hreported⟩ := ready_cases hc.2
    have hsize : evs.length ≤ kInitEventListSize := hlawful
    simp only [Host.guard, check_of hsize, ok_bind, bind_eq_error, reduceCtorEq, and_false,
      exists_false, or_false] at hfail
    exact h.fillActiveChannels_error hreported hfail
  · cases hnext

/-- A step violates no assertion about channels, unless the user's message callback does. -/
theorem HostInv.fails_ofRegistry {label : HostLabel n} (h : HostInv cfg s)
    (hremoves : s.RemovesClosed) (hlawful : s.Lawful label) (hf : f.ofRegistry = true)
    (hfail : (hostSystem n cfg).Fails label s f) :
    ∃ l o c rest b, label = .run (.call l o) ∧
      (s.proc.loops l).todo = .conn c .handleRead :: rest ∧ o.onMessage b = .error f := by
  have hstep : s.step cfg label = some (.error f) := hfail
  cases label with
  | destroyServer =>
      simp only [Host.step] at hstep
      split at hstep <;> cases hstep
  | destroyConnection c isInLoopThread =>
      simp only [Host.step] at hstep
      split at hstep
      · simp only [Option.some.injEq, Host.destroyConnection, Channel.destructor, bind_eq_error,
          check_eq_error, reduceCtorEq, and_false, exists_false, or_false] at hstep
        rcases hstep with ⟨-, rfl⟩ | ⟨_, -, ⟨-, rfl⟩ | ⟨_, -, ⟨-, rfl⟩ | ⟨_, -, -, rfl⟩⟩⟩ <;> cases hf
      · cases hstep
  | run label =>
      simp only [Host.step, Option.map_eq_some_iff, bind_eq_error, reduceCtorEq, and_false,
        exists_false, or_false] at hstep
      obtain ⟨next, hnext, hguard | ⟨⟨⟩, hguard, rfl⟩⟩ := hstep
      · cases label with
        | poll l active =>
            obtain ⟨rfl, -⟩ := h.poll_fails hlawful hfail
            cases hf
        | call l o =>
            simp only [Host.guard] at hguard
            split at hguard
            · cases hguard
            · simp only [bind_eq_error, require_eq_error] at hguard
              rcases hguard with ⟨-, rfl⟩ | ⟨_, -, -, rfl⟩ <;> cases hf
        | _ => cases hguard
      · have happ : (serverApp n cfg).system.Fails label s.proc f := hnext
        rcases fails_cases happ with ⟨l, o, a, rest, rfl, htodo, hcall⟩ | ⟨t, rfl, hthread⟩
        · have hdangling := (Host.not_dangling htodo hguard).1
          obtain ⟨c, b, rfl, hb⟩ := h.call_ofRegistry hremoves htodo hdangling hf hcall
          exact ⟨l, o, c, rest, b, rfl, htodo, hb⟩
        · cases hf.symm.trans (thread_ofRegistry hthread)

/-- A run without `~TcpServer` keeps the server. -/
theorem reachable_serverGone {ok : Host n → HostLabel n → Prop}
    (h : (hostSystem n cfg).ReachableBy ok s) (hok : ∀ s i, ok s i → i ≠ .destroyServer) :
    s.serverGone = false := by
  apply h.invariant (fun s hinit => hinit.2.1)
  intro s label s' _ hlabel hserver hnext
  cases hostSteps_of_next hnext with
  | run hsteps hguard => exact hserver
  | destroyServer => exact absurd rfl (hok _ _ hlabel)
  | destroyConnection => exact hserver

/-- **Descriptor reuse is safe.** In every run of a running server whose `accept` returns
descriptors that are not open, whose `epoll_wait` reports distinct registered channels, and
which destroys a connection, on any thread, when nobody holds it. A descriptor that is closed
is open, in no poller's map or interest set, and no other channel's. Every channel in a map is
there, under its own open descriptor, and every address in an interest set is in the map. So
no `poll` fails, and no step violates an assertion of `updateChannel`, `removeChannel`,
`fillActiveChannels` and `Channel::remove` or fails in `epoll_ctl`; faults of the user's own
message callback are set aside. -/
theorem fd_reuse_safe (cfg : ServerConfig) {s : Host n}
    (h : (hostSystem n cfg).ReachableBy (fun s i => s.Lawful i ∧ i ≠ .destroyServer) s) :
    (∀ c isInLoopThread s', s.Lawful (.destroyConnection c isInLoopThread) →
      (hostSystem n cfg).Next (.destroyConnection c isInLoopThread) s s' →
      s.opened (s.proc.world.fd (some c)) = true ∧
        (∀ l, (s.proc.world.pollers l).channels (s.proc.world.fd (some c)) = none ∧
          (s.proc.world.pollers l).interest (s.proc.world.fd (some c)) = none) ∧
        ∀ ptr, s.present ptr = true → ptr ≠ some c →
          s.proc.world.fd ptr ≠ s.proc.world.fd (some c)) ∧
    (∀ l fd ptr, (s.proc.world.pollers l).channels fd = some ptr →
      s.present ptr = true ∧ s.proc.world.fd ptr = fd ∧ s.opened fd = true) ∧
    (∀ l fd e, (s.proc.world.pollers l).interest fd = some e →
      (s.proc.world.pollers l).channels fd = some e.ptr) ∧
    (∀ l active f, s.Lawful (.run (.poll l active)) →
      ¬ (hostSystem n cfg).Fails (.run (.poll l active)) s f) ∧
    ∀ label f, s.Lawful label → f.ofRegistry = true → (hostSystem n cfg).Fails label s f →
      ∃ l o c rest b, label = .run (.call l o) ∧
        (s.proc.loops l).todo = .conn c .handleRead :: rest ∧ o.onMessage b = .error f := by
  have hinv := reachable_hostInv h fun _ _ hok => hok.1
  have hserver := reachable_serverGone h fun _ _ hok => hok.2
  refine ⟨?_, ?_, hinv.descriptors.fds.interest, ?_, ?_⟩
  · intro c isInLoopThread s' hlawful hnext
    cases hostSteps_of_next hnext with
    | destroyConnection hc hgone =>
        obtain ⟨hopened, -, -, hnone⟩ := hinv.unregistered hc hgone hlawful
        refine ⟨hopened, hnone, ?_⟩
        intro ptr hptr hne hfd
        rw [fd_eq, fd_eq] at hfd
        exact hne (hinv.descriptors.fds.distinct ptr (some c) (live_of_present hptr) ⟨hc, hgone⟩ hfd)
  · intro l fd ptr hfound
    obtain ⟨hlive, -, rfl⟩ := hinv.descriptors.fds.channels l fd ptr hfound
    exact ⟨present_of_live hserver hlive, fd_eq _ ptr, hinv.descriptors.fds.opened ptr hlive⟩
  · intro l active f hlawful hfail
    cases hserver.symm.trans (hinv.poll_fails hlawful hfail).2
  · intro label f hlawful hf hfail
    exact hinv.fails_ofRegistry (hinv.removesClosed hserver) hlawful hf hfail

/-! ### A descriptor that comes back -/

/-- The server of `main.cpp` before its main thread calls `start()`. -/
def hostStart (n : Nat) : Host n :=
  ⟨serverStart n, false, fun _ => false, fun fd => fd == 3⟩

theorem hostStart_init (n : Nat) : (hostSystem n mainConfig).init (hostStart n) :=
  ⟨serverStart_init n, rfl, fun _ => rfl, rfl⟩

/-- A run without foreign threads. -/
def Host.Quiet : HostLabel n → Prop
  | .run (.thread _) => False
  | _ => True

theorem quiet_threads {ok : Host n → HostLabel n → Prop}
    (h : (hostSystem n cfg).ReachableBy ok s) (hok : ∀ s i, ok s i → Host.Quiet i) (t : Nat) :
    s.proc.world.threads t = .idle := by
  revert t
  apply h.invariant
  · intro s hinit t
    obtain ⟨fd, hw⟩ := hinit.1.1.1
    rw [hw]
    rfl
  · intro s label s' _ hlabel hidle hnext t
    cases hostSteps_of_next hnext with
    | run hsteps hguard =>
        cases hsteps with
        | call l o htodo hcall =>
            have hthreads := (serverCall hcall).threads
            simpa [Process.afterCall, hthreads] using hidle t
        | thread => exact (hok _ _ hlabel).elim
        | _ => exact hidle t
    | destroyServer => exact hidle t
    | destroyConnection => exact hidle t

/-- The test of the steps of the server and its loops in the runs below. -/
def Host.allowsRun (s : Host n) : ServerLabel n → Bool
  | .thread _ => false
  | .poll _ [.handleActiveChannels active] => decide (active.length ≤ kInitEventListSize)
  | label =>
      match s.accepts label with
      | some fd => !s.opened fd
      | none => true

theorem Host.allowsRun_lawful {label : ServerLabel n} (htest : s.allowsRun label = true) :
    s.Lawful (.run label) ∧ Host.Quiet (.run label) := by
  cases label with
  | thread t => cases htest
  | call l o =>
      refine ⟨?_, trivial⟩
      intro fd hfd
      simpa [Host.allowsRun, hfd] using htest
  | poll l active =>
      refine ⟨?_, trivial⟩
      unfold Host.Lawful
      split
      · rename_i heq
        cases heq
        simpa [Host.allowsRun] using htest
      · rename_i heq
        cases heq
        intro fd hfd
        cases hfd
      all_goals
        rename_i heq
        cases heq
  | _ =>
      refine ⟨?_, trivial⟩
      intro fd hfd
      cases hfd

/-- A connection is destroyed when the map, the functors and the stack of the only loop have
let go of it. -/
def Host.allows (s : Host 0) : HostLabel 0 → Bool
  | .run label => s.allowsRun label
  | .destroyServer => false
  | .destroyConnection c _ =>
      decide (.erased ∈ (s.proc.world.conns c).trace) &&
        !((s.proc.loops 0).functors ++ (s.proc.loops 0).pendingFunctors).any
          (ServerFunctor.holds c) && (s.proc.loops 0).todo.isEmpty

theorem Host.allows_lawful {s : Host 0} {i : HostLabel 0}
    (h : (hostSystem 0 cfg).ReachableBy
      (fun s i => s.Lawful i ∧ i ≠ .destroyServer ∧ Host.Quiet i) s)
    (htest : s.allows i = true) : s.Lawful i ∧ i ≠ .destroyServer ∧ Host.Quiet i := by
  have hinv := reachable_hostInv h fun _ _ hok => hok.1
  have hserver := reachable_serverGone h fun _ _ hok => hok.2.1
  cases i with
  | destroyServer => cases htest
  | run label =>
      obtain ⟨hlawful, hquiet⟩ := Host.allowsRun_lawful htest
      exact ⟨hlawful, nofun, hquiet⟩
  | destroyConnection c isInLoopThread =>
      simp only [Host.allows, Bool.and_eq_true, decide_eq_true_eq, Bool.not_eq_true',
        List.any_eq_false, List.isEmpty_iff] at htest
      obtain ⟨⟨herased, hfunctors⟩, htodo⟩ := htest
      refine ⟨?_, nofun, trivial⟩
      have hloop : ∀ l : LoopId 0, l = 0 := Fin.fin_one_eq_zero
      rintro (((⟨name, hname⟩ | ⟨l, f, hf, hholds⟩ | ⟨l, a, ha, hholds⟩) | ⟨t, ht⟩) | ⟨l, ha | ha⟩)
      · have hmap := (reachable_mapInv (hinv.running hserver)).map hinv.few name c
        exact (hmap.mp hname).2.2 herased
      · rw [hloop l] at hf
        exact hfunctors f hf hholds
      · rw [hloop l, htodo] at ha
        cases ha
      · rw [quiet_threads h (fun _ _ hok => hok.2.2)] at ht
        cases ht
      · rw [hloop l, htodo] at ha
        cases ha
      · rw [hloop l, htodo] at ha
        cases ha

/-- An iteration of `loop()` that accepts a connection with descriptor 7. -/
def acceptRun : List (ServerLabel 0) :=
  [.test 0, .poll 0 [.handleActiveChannels [(none, POLLIN)]], .call 0 .quiet, .call 0 .quiet,
    .call 0 { ServerOracle.quiet with accept := some 7 }, .call 0 .quiet, .call 0 .quiet,
    .call 0 .quiet, .handled 0, .swap 0, .passed 0]

/-- An iteration in which the peer of connection 0 closes, and the connection is removed. -/
def removeRun : List (ServerLabel 0) :=
  [.test 0, .poll 0 [.handleActiveChannels [(some 0, POLLIN)]], .call 0 .quiet, .call 0 .quiet,
    .call 0 { ServerOracle.quiet with read := .deliver [] }, .call 0 .quiet, .call 0 .quiet,
    .call 0 .quiet, .call 0 .quiet, .call 0 .quiet, .handled 0, .swap 0, .functor 0,
    .call 0 .quiet, .call 0 .quiet, .passed 0]

/-- The server without workers accepts a connection, which is closed and destroyed, and the
next `accept` returns its descriptor. -/
def reuseRun : List (HostLabel 0) :=
  .run (.call 0 .quiet) :: .run (.start 0) :: (acceptRun ++ removeRun).map .run ++
    .destroyConnection 0 true :: acceptRun.map .run

/-- The second connection is registered under the descriptor of the first one, which is
gone. -/
theorem fd_reuse_safe_again :
    ∃ s, (hostSystem 0 mainConfig).ReachableBy (fun s i => s.Lawful i ∧ i ≠ .destroyServer) s ∧
      s.gone 0 = true ∧ s.proc.world.fd (some 0) = 7 ∧
      (s.proc.world.pollers 0).channels 7 = some (some 1) ∧
      s.present (some 1) = true ∧ s.proc.world.fd (some 1) = 7 ∧ s.opened 7 = true := by
  obtain ⟨s, hs, hp⟩ := System.exists_reachableBy_of_replay (hostSystem 0 mainConfig)
    Host.allows reuseRun (hostStart 0)
    (fun s => s.gone 0 && decide (s.proc.world.fd (some 0) = 7) &&
      decide ((s.proc.world.pollers 0).channels 7 = some (some 1)))
    (hostStart_init 0) (fun _ _ _ => Host.allows_lawful)
    (by decide +kernel)
  simp only [Bool.and_eq_true, decide_eq_true_eq] at hp
  obtain ⟨⟨hgone, hfd⟩, hfound⟩ := hp
  have hrun : (hostSystem 0 mainConfig).ReachableBy
      (fun s i => s.Lawful i ∧ i ≠ .destroyServer) s := hs.mono fun _ _ hok => ⟨hok.1, hok.2.1⟩
  obtain ⟨-, hchannels, -⟩ := fd_reuse_safe mainConfig hrun
  exact ⟨s, hrun, hgone, hfd, hfound, hchannels 0 7 (some 1) hfound⟩

end Reuse

end Reactor
