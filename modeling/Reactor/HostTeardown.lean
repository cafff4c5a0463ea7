import Reactor.DescriptorReuse

/-!
# The end of a server

`~TcpServer` runs `connectDestroyed` of every connection of the map, on the connection's
loop. `connectDestroyed` turns the channel's events off only in `kConnected`, and
`Channel::remove` asserts that they are off: a connection that was shut down and is not
closed yet breaks that assertion.

* `Host.clean` - no `connectDestroyed` runs on a connection that is shutting down, and nothing
  calls the server that is gone.
* `reachable_removesClosed` - in such runs only closed connections are removed.
* `server_teardown_clean` - in such runs every `connectDestroyed` returns, and a loop that has
  done its work has left no connection registered.
* `teardown_of_shutdown_fails` - a connection that is shutting down ends the process, and so does
  one that closed on a worker and was not removed in time.
-/

namespace Reactor

open Reactor.Lib

variable {n : Nat} {cfg : ServerConfig} {s s' : Host n} {c : Nat} {l : LoopId n}

/-- The next call of a loop is not `connectDestroyed` of a connection that is shutting down,
nor a call of the server after its destructor. -/
def Host.clean (s : Host n) : HostLabel n → Bool
  | .run (.call l _) =>
      match (s.proc.loops l).todo with
      | .conn c .connectDestroyed :: _ =>
          decide ((s.proc.world.conns c).conn.state ≠ .kDisconnecting)
      | .conn _ .closeCallback :: _ => !s.serverGone
      | .removeConnectionInLoop _ :: _ => !s.serverGone
      | _ => true
  | _ => true

/-! ### Only closed connections are removed -/

/-- A connection whose `connectDestroyed` has not finished is in no late stage. -/
theorem HostInv.not_destroyed {k : ConnCall} (h : HostInv cfg s) (hserver : s.serverGone = true)
    (hk : k ∈ callsOf c (s.proc.work (serverApp n cfg) l)) (htoken : k.isToken = true) :
    .destroyed ∉ (s.proc.world.conns c).trace ∧ s.gone c = false := by
  obtain ⟨hc, rfl⟩ := h.sound.of_mem_callsOf hk
  obtain ⟨g, htokens, -, hd⟩ := h.exiting hserver c hc
  have hnot : .destroyed ∉ (s.proc.world.conns c).trace := by
    intro hmem
    have hg := hd.mpr hmem
    have hin : k ∈ g.tokens := by
      rw [← htokens]
      exact List.mem_filter.mpr ⟨hk, htoken⟩
    rw [hg] at hin
    cases hin
  refine ⟨hnot, ?_⟩
  by_contra hgone
  exact hnot (h.gone c (by simpa using hgone)).2

/-- `connectDestroyed` finds an established connection. -/
theorem HostInv.destroys_established {rest : List ServerAct} (h : HostInv cfg s)
    (hserver : s.serverGone = true)
    (htodo : (s.proc.loops l).todo = .conn c .connectDestroyed :: rest) :
    (s.proc.world.conns c).conn.state ≠ .kConnecting := by
  obtain ⟨tail, hwork⟩ := Process.work_of_todo (serverApp n cfg) htodo
  have hmem : .connectDestroyed ∈ callsOf c (s.proc.work (serverApp n cfg) l) :=
    mem_callsOf.mpr (by simp [hwork])
  obtain ⟨hc, rfl⟩ := h.sound.of_mem_callsOf hmem
  obtain ⟨g, htokens, hs, -⟩ := h.exiting hserver c hc
  simp only [share, hwork, callsOf_conn_self, tokens_cons_of (k := .connectDestroyed) rfl] at htokens
  obtain ⟨hk, -⟩ | ⟨-, rfl, -⟩ | ⟨hk, -⟩ | ⟨hk, -⟩ | ⟨hk, -⟩ := Exit.of_tokens htokens
  · cases hk
  · exact hs
  all_goals cases hk

/-- A closed connection stays closed. -/
theorem Turn.closed {p p' : Share n} {label : ServerLabel n} (h : Turn label p p')
    (hb : p.born = true) (hsound : p.Sound) (hs : p.record.conn.state = .kDisconnected) :
    p'.record.conn.state = .kDisconnected := by
  cases h with
  | accepted _ _ _ hnot => cases hb.symm.trans hnot
  | called hcalls hv hcall =>
      obtain ⟨-, hspec⟩ := hsound.callSpec hcalls hv hcall
      apply hspec.moves.disconnected
      rw [hv]
      exact hs
  | _ => exact hs

/-- Once the server is gone, a step removes only closed connections if it is clean. -/
theorem HostInv.removesClosed_run {label : ServerLabel n} {proc : ServerProcess n}
    (h : HostInv cfg s) (hserver : s.serverGone = true)
    (hsteps : Steps (serverApp n cfg) s.proc label proc) (hclean : s.clean (.run label) = true)
    (hremoves : s.RemovesClosed) (hmem : .conn c .channelRemove ∈ (proc.loops l).todo) :
    (proc.world.conns c).conn.state = .kDisconnected := by
  have hprog := hsteps.progress h.queue h.idle
  rcases hsteps.todo_mem hmem with hold | ⟨o, a, rest, e, rfl, htodo, hcall, rfl, hnew⟩ |
    ⟨cb, hbody⟩ | ⟨active, -, hready, hactive⟩
  · obtain ⟨hc, -⟩ := h.sound.of_mem_callsOf (mem_callsOf_of_todo cfg hold)
    exact (h.sound.turn hprog c).closed (by simpa [share] using hc) (h.sound.of_lt hc)
      (hremoves l c hold).1
  · -- only `connectDestroyed` removes
    obtain ⟨tail, hwork⟩ := Process.work_of_todo (serverApp n cfg) htodo
    have hserverCall : ServerCall cfg s.proc.world l o a e := serverCall hcall
    obtain rfl := (hserverCall.destroys h.sound hwork c).2 hnew
    have hestablished := h.destroys_established hserver htodo
    simp only [Host.clean, htodo, decide_eq_true_eq] at hclean
    cases hserverCall with
    | conn hl hconn =>
        obtain ⟨-, -, hspec⟩ := h.sound.callSpec hwork hconn
        have hstate : ((s.proc.world.noteCurrent l c .connectDestroyed).view c).conn.state =
            (s.proc.world.conns c).conn.state := by rw [view_conn]
        simp only [Process.afterCall, ServerWorld.setView, Function.update_self]
        cases hspec with
        | disconnect hs hset => rfl
        | connectDestroyed hne =>
            rw [hstate] at hne ⊢
            cases hs : (s.proc.world.conns c).conn.state with
            | kDisconnected => rfl
            | kConnecting => exact absurd hs hestablished
            | kConnected => exact absurd hs hne
            | kDisconnecting => exact absurd hs hclean
        | gaveUp hk => cases hk
        | tookNothing hk => cases hk
        | took hk => cases hk
  · exact absurd (List.mem_flatMap.mpr ⟨cb, List.mem_singleton_self cb, hbody⟩)
      (channelRemove_not_mem_body [cb])
  · obtain ⟨evs, rfl, -⟩ := ready_cases hready
    simp at hactive

/-- **Clean runs remove only closed connections from their pollers.** -/
theorem reachable_removesClosed
    (h : (hostSystem n cfg).ReachableBy (fun s i => s.Lawful i ∧ s.clean i = true) s) :
    s.RemovesClosed := by
  induction h with
  | init hinit =>
      exact (init_hostInv hinit).removesClosed hinit.2.1
  | @step s s' label hr hok hnext ih =>
      have hinv := reachable_hostInv hr fun _ _ hok => hok.1
      have hinv' := reachable_hostInv (hr.step hok hnext) fun _ _ hok => hok.1
      cases hserver' : s'.serverGone with
      | false => exact hinv'.removesClosed hserver'
      | true =>
          intro l c hmem
          have hwork := mem_callsOf_of_todo cfg hmem
          refine ⟨?_, (hinv'.not_destroyed hserver' hwork rfl).1⟩
          cases hostSteps_of_next hnext with
          | run hsteps hguard => exact hinv.removesClosed_run hserver' hsteps hok.2 ih hmem
          | destroyServer hserver htodo hphase =>
              obtain ⟨todo, cbs, hloop, hother, hbase⟩ := destroyServer_loops s.proc l
              simp only [hloop, EventLoop.enqueue] at hmem
              by_cases hl : l = 0
              · obtain ⟨d, heq⟩ := hbase hl _ hmem
                cases heq
              · rw [hother hl] at hmem
                exact (ih l c hmem).1
          | destroyConnection hc hgone => exact (ih l c hmem).1

/-! ### Every `connectDestroyed` returns -/

/-- A call on objects that are there is a step if it returns. -/
theorem next_of_call {o : ServerOracle} {a : ServerAct} {rest : List ServerAct}
    {e : ServerEffect n} (htodo : (s.proc.loops l).todo = a :: rest)
    (hdangling : s.dangling a = false) (hoverflows : s.overflows a = false)
    (hcall : s.proc.world.call cfg l o a = .ok e) :
    ∃ s', (hostSystem n cfg).Next (.run (.call l o)) s s' := by
  refine ⟨{ s with proc := s.proc.afterCall l rest e, opened := s.openedBy (.call l o) }, ?_⟩
  change s.step cfg (.run (.call l o)) = _
  have hguard : s.guard (.call l o) = .ok () := by
    simp [Host.guard, htodo, hdangling, hoverflows]
  simp [Host.step, App.step, serverApp, htodo, hcall, hguard, Except.map]

theorem connCall_ok (cfg : ServerConfig) {w : ServerWorld n} {k : ConnCall} {o : ServerOracle}
    {v : ConnView ChannelPtr} {out : Out} (hl : l = (w.conns c).loop)
    (hcall : ((w.noteCurrent l c k).view c).call k o.toOracle = .ok (v, out)) :
    ∃ e, w.call cfg l o (.conn c k) = .ok e := by
  simp [ServerWorld.call, ServerWorld.connCall, hl ▸ hcall, hl]

/-- After `~TcpServer` every `connectDestroyed` gets to `Channel::remove`. -/
theorem HostInv.connectDestroyed_next {rest : List ServerAct} (h : HostInv cfg s)
    (hserver : s.serverGone = true)
    (htodo : (s.proc.loops l).todo = .conn c .connectDestroyed :: rest) (o : ServerOracle) :
    ∃ s', (hostSystem n cfg).Next (.run (.call l o)) s s' := by
  have hmem : .connectDestroyed ∈ callsOf c (s.proc.work (serverApp n cfg) l) := by
    apply mem_callsOf_of_todo
    rw [htodo]
    exact List.mem_cons_self
  obtain ⟨hc, hl⟩ := h.sound.of_mem_callsOf hmem
  have hgone := (h.not_destroyed hserver hmem rfl).2
  have hreg : Registered (s.proc.world.pollers (s.proc.world.conns c).loop) (some c)
      (s.proc.world.conns c).conn.channel := h.descriptors.fds.registered (some c) ⟨hc, hgone⟩
  have hcall : ∃ v out, ((s.proc.world.noteCurrent l c .connectDestroyed).view c).call
      .connectDestroyed o.toOracle = .ok (v, out) := by
    by_cases hs : (s.proc.world.conns c).conn.state = .kConnected
    · obtain ⟨p', hset, -⟩ := setEvents_ok hreg kNoneEvent
      simp [ConnView.call, ConnView.connectDestroyed, ServerWorld.noteCurrent, ServerWorld.view, hs,
        ConnView.setState, Channel.disableAll, hset]
    · simp [ConnView.call, ConnView.connectDestroyed, ServerWorld.noteCurrent, ServerWorld.view, hs]
  obtain ⟨v, out, hcall⟩ := hcall
  obtain ⟨e, hcall⟩ := connCall_ok cfg hl hcall
  exact next_of_call htodo (by simp [Host.dangling, hgone]) rfl hcall

/-- A closed connection is removed. -/
theorem HostInv.channelRemove_next {rest : List ServerAct} (h : HostInv cfg s)
    (hserver : s.serverGone = true) (hremoves : s.RemovesClosed)
    (htodo : (s.proc.loops l).todo = .conn c .channelRemove :: rest) (o : ServerOracle) :
    ∃ s', (hostSystem n cfg).Next (.run (.call l o)) s s' := by
  have hmem : .conn c .channelRemove ∈ (s.proc.loops l).todo := by
    rw [htodo]
    exact List.mem_cons_self
  have hwork := mem_callsOf_of_todo cfg hmem
  have hl := (h.sound.of_mem_callsOf hwork).2
  obtain ⟨hclosed, hnot⟩ := hremoves l c hmem
  have hgone := (h.not_destroyed hserver hwork rfl).2
  obtain ⟨cp, hrem⟩ := h.remove_ok hgone hmem hclosed hnot
  have hcall : ∃ v out, ((s.proc.world.noteCurrent l c .channelRemove).view c).call
      .channelRemove o.toOracle = .ok (v, out) := by
    simp [ConnView.call, ConnView.channelRemove, ServerWorld.noteCurrent, ServerWorld.view, hrem]
  obtain ⟨v, out, hcall⟩ := hcall
  obtain ⟨e, hcall⟩ := connCall_ok cfg hl hcall
  exact next_of_call htodo (by simp [Host.dangling, hgone]) rfl hcall

/-- What `~Channel` finds in a connection that nobody holds. -/
theorem HostInv.channel_destructor (h : HostInv cfg s) (hc : c < s.proc.world.accepted)
    (hgone : s.gone c = false) (href : ¬ s.Referenced c) :
    s.eventHandling c = false ∧ (s.proc.world.conns c).conn.channel.addedToLoop = false ∧
      (s.proc.world.pollers (s.proc.world.conns c).loop).hasChannel (some c)
        (s.proc.world.conns c).conn.channel = false := by
  obtain ⟨-, -, hadded, hnone⟩ := h.unregistered hc hgone href
  refine ⟨?_, hadded, ?_⟩
  · by_contra hhandling
    apply href
    simp only [Host.eventHandling, Bool.not_eq_false, List.any_eq_true] at hhandling
    obtain ⟨a, ha, hguard⟩ := hhandling
    refine Or.inl (Or.inl (Or.inr (Or.inr ⟨_, a, ha, ?_⟩)))
    split at hguard
    · exact hguard
    · cases hguard
  · simp [EPollPoller.hasChannel, (hnone (s.proc.world.conns c).loop).1]

/-- The destructors of a connection that nobody holds return. -/
theorem HostInv.destroyConnection_next (h : HostInv cfg s) (hc : c < s.proc.world.accepted)
    (hgone : s.gone c = false) (href : ¬ s.Referenced c) (isInLoopThread : Bool) :
    ∃ s', (hostSystem n cfg).Next (.destroyConnection c isInLoopThread) s s' := by
  obtain ⟨-, hclosed, -⟩ := h.unregistered hc hgone href
  obtain ⟨hhandling, hadded, hfound⟩ := h.channel_destructor hc hgone href
  refine ⟨{ s.close (s.proc.world.conns c).conn.channel.fd with
    gone := Function.update s.gone c true }, ?_⟩
  change s.step cfg (.destroyConnection c isInLoopThread) = _
  have hdestroy : s.destroyConnection c isInLoopThread =
      .ok { s.close (s.proc.world.conns c).conn.channel.fd with
        gone := Function.update s.gone c true } := by
    simp [Host.destroyConnection, Channel.destructor, hclosed, hhandling, hadded, hfound,
      check_of]
  simp only [Host.step, hc, hgone, and_self, if_true, hdestroy]

/-- A loop that has done its work has left none of its connections registered. -/
theorem HostInv.drained (h : HostInv cfg s) (hserver : s.serverGone = true)
    (hwork : s.proc.work (serverApp n cfg) l = []) (hc : c < s.proc.world.accepted)
    (hl : (s.proc.world.conns c).loop = l) :
    .destroyed ∈ (s.proc.world.conns c).trace ∧
      (s.proc.world.conns c).conn.state = .kDisconnected ∧
      ∀ l' fd, (s.proc.world.pollers l').channels fd ≠ some (some c) ∧
        ∀ e, (s.proc.world.pollers l').interest fd = some e → e.ptr ≠ some c := by
  obtain ⟨g, htokens, -, hd⟩ := h.exiting hserver c hc
  have hdestroyed : .destroyed ∈ (s.proc.world.conns c).trace := by
    apply hd.mp
    simp only [share, hl, hwork] at htokens
    cases g <;> simp_all [Exit.tokens, tokens]
  obtain ⟨hclosed, hnew⟩ := (h.indexed c hc).gone hdestroyed
  exact ⟨hdestroyed, hclosed, h.descriptors.fds.absent hnew⟩

/-- **The end of a server is clean.** In every run in which no `connectDestroyed` finds its
connection shutting down and nothing calls the server after its destructor, once the
destructor has run: `connectDestroyed` returns from each of its parts, and no step violates an
assertion about channels, the user's own message callback aside; a loop that has done its
work has left its connections closed, in no poller's map and no interest set; and the
destructors of a connection that nobody holds return. -/
theorem server_teardown_clean (cfg : ServerConfig) {s : Host n}
    (h : (hostSystem n cfg).ReachableBy (fun s i => s.Lawful i ∧ s.clean i = true) s)
    (hserver : s.serverGone = true) :
    (∀ l o c k rest, (s.proc.loops l).todo = .conn c k :: rest →
      k = .connectDestroyed ∨ k = .channelRemove →
      ∃ s', (hostSystem n cfg).Next (.run (.call l o)) s s') ∧
    (∀ label f, s.Lawful label → f.ofRegistry = true → (hostSystem n cfg).Fails label s f →
      ∃ l o c rest b, label = .run (.call l o) ∧
        (s.proc.loops l).todo = .conn c .handleRead :: rest ∧ o.onMessage b = .error f) ∧
    (∀ l, s.proc.work (serverApp n cfg) l = [] →
      ∀ c, c < s.proc.world.accepted → (s.proc.world.conns c).loop = l →
        .destroyed ∈ (s.proc.world.conns c).trace ∧
        (s.proc.world.conns c).conn.state = .kDisconnected ∧
        ∀ l' fd, (s.proc.world.pollers l').channels fd ≠ some (some c) ∧
          ∀ e, (s.proc.world.pollers l').interest fd = some e → e.ptr ≠ some c) ∧
    ∀ c isInLoopThread, c < s.proc.world.accepted → s.gone c = false → ¬ s.Referenced c →
      (s.proc.world.conns c).conn.state = .kDisconnected ∧
      ∃ s', (hostSystem n cfg).Next (.destroyConnection c isInLoopThread) s s' := by
  have hinv := reachable_hostInv h fun _ _ hok => hok.1
  have hremoves := reachable_removesClosed h
  refine ⟨?_, ?_, ?_, ?_⟩
  · rintro l o c k rest htodo (rfl | rfl)
    · exact hinv.connectDestroyed_next hserver htodo o
    · exact hinv.channelRemove_next hserver hremoves htodo o
  · intro label f hlawful hf hfail
    exact hinv.fails_ofRegistry hremoves hlawful hf hfail
  · intro l hwork c hc hl
    exact hinv.drained hserver hwork hc hl
  · intro c isInLoopThread hc hgone href
    exact ⟨(hinv.unregistered hc hgone href).2.1,
      hinv.destroyConnection_next hc hgone href isInLoopThread⟩

/-! ### Two ends -/

/-- A test for runs in which no connection is destroyed. -/
def Host.allowsTeardown (s : Host n) : HostLabel n → Bool
  | .run label => s.allowsRun label
  | .destroyServer => true
  | .destroyConnection _ _ => false

theorem Host.allowsTeardown_lawful {i : HostLabel n} (htest : s.allowsTeardown i = true) :
    s.Lawful i := by
  cases i with
  | run label => exact (Host.allowsRun_lawful htest).1
  | destroyServer => trivial
  | destroyConnection => cases htest

/-- The base loop accepts a connection for worker 1 and quits, and the server is destroyed
before the worker has established the connection; the worker runs both functors. -/
def teardownRun : List (HostLabel 1) :=
  ([.call 0 .quiet, .start 0, .test 0, .start 1, .test 1,
    .poll 0 [.handleActiveChannels [(none, POLLIN)]], .call 0 .quiet, .call 0 .quiet,
    .call 0 { ServerOracle.quiet with accept := some 7 }, .call 0 .quiet, .call 0 .quiet,
    .handled 0, .swap 0, .passed 0, .quit 0, .test 0] : List (ServerLabel 1)).map .run ++
  .destroyServer ::
  ([.poll 1 [.handleActiveChannels []], .call 1 .quiet, .call 1 .quiet, .handled 1, .swap 1,
    .functor 1, .call 1 .quiet, .functor 1, .call 1 .quiet, .call 1 .quiet] :
    List (ServerLabel 1)).map .run

theorem server_teardown_clean_queued :
    ∃ s, (hostSystem 1 mainConfig).ReachableBy (fun s i => s.Lawful i ∧ s.clean i = true) s ∧
      s.serverGone = true ∧ 0 < s.proc.world.accepted ∧ (s.proc.world.conns 0).loop = 1 ∧
      .destroyed ∈ (s.proc.world.conns 0).trace ∧
      (s.proc.world.conns 0).conn.state = .kDisconnected ∧
      ∀ l' fd, (s.proc.world.pollers l').channels fd ≠ some (some 0) ∧
        ∀ e, (s.proc.world.pollers l').interest fd = some e → e.ptr ≠ some 0 := by
  have hok : ∀ (s : Host 1) (i : HostLabel 1), (s.allowsTeardown i && s.clean i) = true →
      s.Lawful i ∧ s.clean i = true := by
    intro s i htest
    rw [Bool.and_eq_true] at htest
    exact ⟨Host.allowsTeardown_lawful htest.1, htest.2⟩
  obtain ⟨s, hs, hp⟩ := System.exists_reachableBy_of_replay (hostSystem 1 mainConfig)
    (fun s i => s.allowsTeardown i && s.clean i) teardownRun (hostStart 1)
    (fun s => s.serverGone && decide (0 < s.proc.world.accepted) &&
      decide ((s.proc.world.conns 0).loop = 1) && (s.proc.work (serverApp 1 mainConfig) 1).isEmpty)
    (hostStart_init 1) (fun i _ s _ => hok s i) (by decide +kernel)
  simp only [Bool.and_eq_true, decide_eq_true_eq, List.isEmpty_iff] at hp
  obtain ⟨⟨⟨hserver, hc⟩, hloop⟩, hwork⟩ := hp
  obtain ⟨-, -, hdrained, -⟩ := server_teardown_clean mainConfig hs hserver
  exact ⟨s, hs, hserver, hc, hloop, hdrained 1 hwork 0 hc hloop⟩

/-- The connection callback of the only connection calls `shutdown()`; the loop quits and the
server is destroyed. -/
def shutdownRun : List (HostLabel 0) :=
  ([.call 0 .quiet, .start 0, .test 0, .poll 0 [.handleActiveChannels [(none, POLLIN)]],
    .call 0 .quiet, .call 0 .quiet, .call 0 { ServerOracle.quiet with accept := some 7 },
    .call 0 .quiet, .call 0 { ServerOracle.quiet with calls := [.shutdown] }, .call 0 .quiet,
    .call 0 .quiet, .handled 0, .swap 0, .passed 0, .quit 0, .test 0] :
    List (ServerLabel 0)).map .run ++ [.destroyServer, .run (.call 0 .quiet)]

/-- A test for a loop whose only call to come is connection 0's `Channel::remove`. -/
def Host.removesChannel (s : Host 0) : Bool :=
  match (s.proc.loops 0).todo with
  | [.conn 0 .channelRemove] => true
  | _ => false

theorem Host.removesChannel_todo {s : Host 0} (htest : s.removesChannel = true) :
    (s.proc.loops 0).todo = [.conn 0 .channelRemove] := by
  unfold Host.removesChannel at htest
  split at htest
  · assumption
  · cases htest

/-- Worker 1 establishes the connection and its peer closes it; before the base loop gets to
`removeConnectionInLoop` it quits and the server is destroyed. Then it drains its functors. -/
def lateRemovalRun : List (HostLabel 1) :=
  ([.call 0 .quiet, .start 0, .test 0, .start 1, .test 1,
    .poll 0 [.handleActiveChannels [(none, POLLIN)]], .call 0 .quiet, .call 0 .quiet,
    .call 0 { ServerOracle.quiet with accept := some 7 }, .call 0 .quiet, .call 0 .quiet,
    .handled 0, .swap 0, .passed 0, .poll 1 [.handleActiveChannels []], .call 1 .quiet,
    .call 1 .quiet, .handled 1, .swap 1, .functor 1, .call 1 .quiet, .passed 1, .test 1,
    .poll 1 [.handleActiveChannels [(some 0, POLLIN)]], .call 1 .quiet, .call 1 .quiet,
    .call 1 { ServerOracle.quiet with read := .deliver [] }, .call 1 .quiet, .call 1 .quiet,
    .call 1 .quiet, .call 1 .quiet, .quit 0, .test 0] : List (ServerLabel 1)).map .run ++
  .destroyServer ::
  ([.start 0, .test 0, .poll 0 [.handleActiveChannels []], .call 0 .quiet, .call 0 .quiet,
    .handled 0, .swap 0, .functor 0] : List (ServerLabel 1)).map .run

/-- A test for a loop whose only call to come is `removeConnectionInLoop` of connection 0. -/
def Host.removesConnection (s : Host 1) : Bool :=
  match (s.proc.loops 0).todo with
  | [.removeConnectionInLoop 0] => true
  | _ => false

theorem Host.removesConnection_todo {s : Host 1} (htest : s.removesConnection = true) :
    (s.proc.loops 0).todo = [.removeConnectionInLoop 0] := by
  unfold Host.removesConnection at htest
  split at htest
  · assumption
  · cases htest

/-- The connection that `~TcpServer` finds shutting down keeps its events, and the assertion
of `Channel::remove` fails. One that closed by itself is removed by the server that is gone. -/
theorem teardown_of_shutdown_fails :
    (∃ s, (hostSystem 0 mainConfig).ReachableBy (fun s i => s.Lawful i) s ∧
      s.serverGone = true ∧ (s.proc.loops 0).todo = [.conn 0 .channelRemove] ∧
      (s.proc.world.conns 0).conn.state = .kDisconnecting ∧
      (hostSystem 0 mainConfig).Fails (.run (.call 0 .quiet)) s
        (.assertion .channelRemove_noneEvent)) ∧
    ∃ s, (hostSystem 1 mainConfig).ReachableBy (fun s i => s.Lawful i) s ∧
      s.serverGone = true ∧ (s.proc.loops 0).todo = [.removeConnectionInLoop 0] ∧
      (s.proc.world.conns 0).conn.state = .kDisconnected ∧
      (hostSystem 1 mainConfig).Fails (.run (.call 0 .quiet)) s .badAccess := by
  constructor
  · obtain ⟨s, hs, hp⟩ := System.exists_reachableBy_of_replay (hostSystem 0 mainConfig)
      Host.allowsTeardown shutdownRun (hostStart 0)
      (fun s => s.serverGone && decide ((s.proc.world.conns 0).conn.state = .kDisconnecting) &&
        s.removesChannel && (hostSystem 0 mainConfig).fault (.run (.call 0 .quiet)) s ==
          some (.assertion .channelRemove_noneEvent))
      (hostStart_init 0) (fun _ _ _ _ => Host.allowsTeardown_lawful) (by decide +kernel)
    simp only [Bool.and_eq_true, decide_eq_true_eq, beq_iff_eq] at hp
    obtain ⟨⟨⟨hserver, hstate⟩, htodo⟩, hfault⟩ := hp
    exact ⟨s, hs, hserver, Host.removesChannel_todo htodo, hstate, System.fails_of_fault hfault⟩
  · obtain ⟨s, hs, hp⟩ := System.exists_reachableBy_of_replay (hostSystem 1 mainConfig)
      Host.allowsTeardown lateRemovalRun (hostStart 1)
      (fun s => s.serverGone && decide ((s.proc.world.conns 0).conn.state = .kDisconnected) &&
        s.removesConnection && (hostSystem 1 mainConfig).fault (.run (.call 0 .quiet)) s ==
          some .badAccess)
      (hostStart_init 1) (fun _ _ _ _ => Host.allowsTeardown_lawful) (by decide +kernel)
    simp only [Bool.and_eq_true, decide_eq_true_eq, beq_iff_eq] at hp
    obtain ⟨⟨⟨hserver, hstate⟩, htodo⟩, hfault⟩ := hp
    exact ⟨s, hs, hserver, Host.removesConnection_todo htodo, hstate,
      System.fails_of_fault hfault⟩

end Reactor
