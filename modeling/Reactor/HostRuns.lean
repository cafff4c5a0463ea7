import Reactor.HostRegistry

/-!
# Runs of a server with its destructors

* `HostInv`, `reachable_hostInv` - before and after `~TcpServer`, in every state reached:
  every connection is sound and its channel indexed, the descriptors are apart, and nothing
  is destroyed before its `connectDestroyed` has finished.
-/

namespace Reactor

open Reactor.Lib

variable {n : Nat} {cfg : ServerConfig}

/-- What holds in every state of a server with its destructors. While the server is there it
runs as `serverApp`; afterwards every connection is on its way out. -/
structure HostInv (cfg : ServerConfig) (s : Host n) : Prop where
  queue : ∀ l, QueueInv (s.proc.loops l)
  idle : ∀ l, (s.proc.loops l).Idle
  frames : ∀ l, Frames (s.proc.world.dispatching l) (s.proc.loops l)
  sound : ServerSound s.proc.world (s.proc.work (serverApp n cfg))
  indexed : ∀ c, c < s.proc.world.accepted → (s.proc.world.conns c).Indexed
  descriptors : Descriptors s.proc.world (s.proc.work (serverApp n cfg)) s.gone s.opened
  running : s.serverGone = false → (serverApp n cfg).system.Reachable s.proc
  few : s.proc.world.accepted < 2 ^ 31
  exiting : s.serverGone = true → ∀ c, c < s.proc.world.accepted →
    (share c s.proc.world (s.proc.work (serverApp n cfg))).Exiting
  gone : ∀ c, s.gone c = true →
    c < s.proc.world.accepted ∧ .destroyed ∈ (s.proc.world.conns c).trace

section Invariant

variable {s s' : Host n} {c : Nat}

theorem init_hostInv (h : (hostSystem n cfg).init s) : HostInv cfg s := by
  obtain ⟨hinit, hserver, hgone, hopened⟩ := h
  obtain ⟨⟨⟨fd, hw⟩, hbase, hothers⟩, hloops⟩ := hinit
  have htodo : ∀ l, ∃ todo, s.proc.loops l = EventLoop.create todo ∧
      (todo = [] ∨ todo = [.listen]) := by
    intro l
    by_cases hl : l = 0
    · exact ⟨[.listen], hl ▸ hbase, Or.inr rfl⟩
    · exact ⟨[], hothers l hl, Or.inl rfl⟩
  have hinit' : (serverApp n cfg).system.init s.proc := ⟨⟨⟨fd, hw⟩, hbase, hothers⟩, hloops⟩
  have hreach : (serverApp n cfg).system.Reachable s.proc := .init hinit'
  have hwork := init_work hinit'
  have hnone : ∀ l fd, .newConnection fd ∉ s.proc.work (serverApp n cfg) l := by
    intro l fd
    rcases hwork l with h | h <;> simp [h]
  refine ⟨reachable_queueInv hreach, reachable_idle hreach, ?_,
    (reachable_serverInv hreach).serverSound, ?_, ⟨⟨?_, ?_, ?_, ?_, ?_⟩, ?_, ?_⟩,
    fun _ => hreach, ?_, ?_, ?_⟩
  · intro l
    obtain ⟨todo, hl, htodo⟩ := htodo l
    rw [hl]
    exact create_frames todo htodo (by rw [hw]; rfl)
  · intro c hc
    simp [hw, ServerWorld.create] at hc
  · intro ptr hlive
    cases ptr with
    | none => exact hopened
    | some c => simp [hw, ServerWorld.Live, ServerWorld.create] at hlive
  · intro ptr ptr' hlive hlive'
    cases ptr with
    | none =>
        cases ptr' with
        | none => simp
        | some c => simp [hw, ServerWorld.Live, ServerWorld.create] at hlive'
    | some c => simp [hw, ServerWorld.Live, ServerWorld.create] at hlive
  · intro ptr hlive
    cases ptr with
    | none =>
        simp [hw, ServerWorld.channel, ServerWorld.create, Registered, Channel.create,
          EPollPoller.create]
    | some c => simp [hw, ServerWorld.Live, ServerWorld.create] at hlive
  · intro l x ptr hx
    simp [hw, ServerWorld.create, EPollPoller.create] at hx
  · intro l x e hx
    simp [hw, ServerWorld.create, EPollPoller.create] at hx
  · intro l fd hmem
    exact absurd hmem (hnone l fd)
  · intro l fd hmem
    exact hnone l fd (List.mem_of_mem_tail hmem)
  · simp [hw, ServerWorld.create]
  · intro hgone'
    cases hserver.symm.trans hgone'
  · intro c hc
    cases (hgone c).symm.trans hc

/-- Until `connectDestroyed` has finished somebody holds the connection. -/
theorem HostInv.destroyed (h : HostInv cfg s) (hc : c < s.proc.world.accepted)
    (href : ¬ s.Referenced c) : .destroyed ∈ (s.proc.world.conns c).trace := by
  cases hserver : s.serverGone with
  | false =>
      by_contra hnot
      apply href
      exact Or.inl (Or.inl (owned_of_not_destroyed (h.running hserver) h.few hc hnot))
  | true =>
      obtain ⟨g, htokens, -, hd⟩ := h.exiting hserver c hc
      -- what is to come is on a stack or in a functor that holds a reference
      have hheld : ∀ k, k ∈ g.tokens → k = .connectDestroyed ∨ k = .channelRemove →
          s.Referenced c := by
        intro k hk hkind
        rw [← htokens] at hk
        have hmem := mem_callsOf.mp (List.mem_filter.mp hk).1
        simp only [share, Process.work, EventLoop.work, List.mem_append] at hmem
        rcases hmem with hmem | hmem
        · refine Or.inr ⟨(s.proc.world.conns c).loop, ?_⟩
          rcases hkind with rfl | rfl
          · exact Or.inl hmem
          · exact Or.inr hmem
        · rcases hkind with rfl | rfl
          · have hfunctor := functor_of_connectDestroyed hmem
            refine Or.inl (Or.inl (owned_of_functor (l := (s.proc.world.conns c).loop) ?_))
            rcases List.mem_append.mp hfunctor with hfunctor | hfunctor
            · exact List.mem_append_left _ (List.mem_of_mem_drop hfunctor)
            · exact List.mem_append_right _ hfunctor
          · exact absurd hmem (channelRemove_not_mem_body _)
      apply hd.mp
      cases g with
      | destroyed => rfl
      | removing => exact absurd (hheld .channelRemove (by simp [Exit.tokens]) (Or.inr rfl)) href
      | stuck => exact absurd (hheld .channelRemove (by simp [Exit.tokens]) (Or.inr rfl)) href
      | _ => exact absurd (hheld .connectDestroyed (by simp [Exit.tokens]) (Or.inl rfl)) href

/-- The call a step makes is the next on its thread. -/
theorem Steps.todo {p p' : ServerProcess n} {l : LoopId n} {o : ServerOracle} {a : ServerAct}
    {tail : List ServerAct} (h : Steps (serverApp n cfg) p (.call l o) p')
    (hwork : p.work (serverApp n cfg) l = a :: tail) :
    ∃ rest e, (p.loops l).todo = a :: rest ∧ p.world.call cfg l o a = .ok e ∧
      p' = p.afterCall l rest e := by
  cases h with
  | @call _ _ a' rest e htodo hcall =>
      obtain ⟨tail', hwork'⟩ := Process.work_of_todo (serverApp n cfg) htodo
      obtain ⟨rfl, -⟩ := List.cons.inj (hwork.symm.trans hwork')
      exact ⟨rest, e, htodo, hcall, rfl⟩

theorem Turn.born {p p' : Share n} {label : ServerLabel n} (h : Turn label p p')
    (hb : p.born = true) : p'.born = true ∧ ∀ x ∈ p.record.trace, x ∈ p'.record.trace := by
  cases h with
  | accepted _ _ _ hnot => cases hb.symm.trans hnot
  | called => exact ⟨hb, fun x hx => List.mem_append_left _ hx⟩
  | removed => exact ⟨hb, fun x hx => List.mem_append_left _ hx⟩
  | sendPassed => exact ⟨hb, fun x hx => List.mem_append_left _ hx⟩
  | _ => exact ⟨hb, fun x hx => hx⟩

/-- Removals leave the calls to come only by being made. -/
theorem Progress.removals_le {w w' : ServerWorld n} {work work' : LoopId n → List ServerAct}
    {label : ServerLabel n} (hprog : Progress (serverApp n cfg) w work label w' work')
    (h : ∀ l o a tail, label = .call l o → work l = a :: tail → a.removes c = false) :
    removalsOf c (work 0) ≤ removalsOf c (work' 0) := by
  cases hprog with
  | silent => exact Nat.le_refl _
  | @poll l active _ _ _ _ hwork hother =>
      by_cases hl : 0 = l
      · subst hl
        rw [hwork, removalsOf_append]
        omega
      · rw [hother 0 hl]
  | @call l o a tail e _ hhead _ hwork hother =>
      by_cases hl : 0 = l
      · subst hl
        rw [hhead, removalsOf_cons_false (h 0 o a tail rfl hhead), hwork, removalsOf_append,
          removalsOf_append]
        omega
      · rw [hother 0 hl, removalsOf_append]
        omega
  | thread _ hwork =>
      rw [hwork, removalsOf_append]
      omega

/-- Only `newConnection` accepts, and no more than fit into an `int`. -/
theorem Steps.accepted {p p' : ServerProcess n} {label : ServerLabel n}
    (h : Steps (serverApp n cfg) p label p') :
    p'.world.accepted = p.world.accepted ∨
      ∃ l o sockfd rest, label = .call l o ∧ (p.loops l).todo = .newConnection sockfd :: rest ∧
        p'.world.accepted = p.world.accepted + 1 := by
  cases h with
  | @call l o a rest e htodo hcall =>
      cases serverCall hcall with
      | newConnection sockfd => exact Or.inr ⟨l, o, sockfd, rest, rfl, htodo, rfl⟩
      | conn => exact Or.inl (by simp [Process.afterCall, ServerWorld.setView])
      | _ => exact Or.inl rfl
  | thread t hthread => exact Or.inl (threadSpec hthread).frame.2.1
  | _ => exact Or.inl rfl

/-- Every step of the server and its loops keeps the invariant. -/
theorem HostInv.run {label : ServerLabel n} {proc : ServerProcess n} (h : HostInv cfg s)
    (hsteps : Steps (serverApp n cfg) s.proc label proc) (hguard : s.guard label = .ok ())
    (hlawful : ∀ fd, s.accepts label = some fd → s.opened fd = false) :
    HostInv cfg { s with proc := proc, opened := s.openedBy label } := by
  have hprog := hsteps.progress h.queue h.idle
  have hturn := h.sound.turn hprog
  have hsound := hprog.serverSound h.sound
  -- what the guard says of the call that is made
  have hhead : ∀ l o a tail, label = .call l o →
      s.proc.work (serverApp n cfg) l = a :: tail →
      s.dangling a = false ∧ s.overflows a = false ∧
        (a = .acceptorRead → s.accepts label = o.accept) := by
    rintro l o a tail rfl hwork
    obtain ⟨rest, e, htodo, -, -⟩ := hsteps.todo hwork
    obtain ⟨hdangling, hoverflows⟩ := Host.not_dangling htodo hguard
    refine ⟨hdangling, hoverflows, ?_⟩
    rintro rfl
    simp only [Host.accepts, htodo]
  have hopened : ∀ fd, s.opened fd = true → s.openedBy label fd = true := by
    intro fd hfd
    cases haccepts : s.accepts label with
    | none => simpa [Host.openedBy, haccepts] using hfd
    | some sockfd =>
        simp only [Host.openedBy, haccepts, Function.update_apply]
        split
        · rfl
        · exact hfd
  have hgrown : s.proc.world.accepted ≤ proc.world.accepted := by
    rcases hsteps.accepted with heq | ⟨-, -, -, -, -, -, heq⟩ <;> omega
  have hborn : ∀ c, c < s.proc.world.accepted →
      (share c s.proc.world (s.proc.work (serverApp n cfg))).born = true := by
    intro c hc
    simpa [share] using hc
  refine ⟨?_, ?_, hsteps.frames h.sound h.idle h.frames, hsound, ?_, ?_, ?_, ?_, ?_, ?_⟩
  · intro l
    obtain ⟨cbs, hmove, -⟩ := hsteps.loopMove l
    exact hmove.queueInv (h.queue l)
  · intro l
    obtain ⟨cbs, hmove, -⟩ := hsteps.loopMove l
    exact hmove.idle (h.idle l)
  · intro c hc
    refine (hturn c).indexed (h.sound.sound c) (fun hb => h.indexed c ?_) (by simpa [share] using hc)
    simpa [share] using hb
  · refine hprog.descriptors h.sound h.descriptors ?_ hopened ?_
    · intro l o c k tail hlabel hwork hk
      exact Host.not_gone (hhead l o _ tail hlabel hwork).1 hk
    · intro l o tail fd hlabel hwork hfd
      have haccepts := (hhead l o _ tail hlabel hwork).2.2 rfl
      rw [hfd] at haccepts
      refine ⟨hlawful fd haccepts, ?_⟩
      simp [Host.openedBy, haccepts]
  · intro hserver
    exact .step (h.running hserver) trivial (next_iff_steps.mpr hsteps)
  · rcases hsteps.accepted with heq | ⟨l, o, sockfd, rest, rfl, htodo, heq⟩
    · simp only [heq]
      exact h.few
    · obtain ⟨hdangling, hoverflows⟩ := Host.not_dangling htodo hguard
      have hnext := (reachable_mapInv (h.running hdangling)).next
      simp only [Host.overflows, decide_eq_false_iff_not, Nat.not_le, hnext, intMax] at hoverflows
      simp only [heq]
      omega
  · intro hserver c hc
    have hacc : proc.world.accepted = s.proc.world.accepted := by
      rcases hsteps.accepted with heq | ⟨l, o, sockfd, rest, rfl, htodo, -⟩
      · exact heq
      · have hdangling := (Host.not_dangling htodo hguard).1
        cases hserver.symm.trans hdangling
    rw [hacc] at hc
    refine (hturn c).exiting (hborn c hc) (h.sound.of_lt hc) (h.exiting hserver c hc) ?_
    apply hprog.removals_le
    intro l o a tail hlabel hwork
    have hdangling := (hhead l o a tail hlabel hwork).1
    cases a with
    | removeConnectionInLoop d => simp_all [Host.dangling]
    | _ => rfl
  · intro c hc
    obtain ⟨hlt, hmem⟩ := h.gone c hc
    exact ⟨Nat.lt_of_lt_of_le hlt hgrown, ((hturn c).born (hborn c hlt)).2 _ hmem⟩

/-- A connection that nobody holds has left every poller, and its descriptor is open. -/
theorem HostInv.unregistered (h : HostInv cfg s) (hc : c < s.proc.world.accepted)
    (hgone : s.gone c = false) (href : ¬ s.Referenced c) :
    s.opened (s.proc.world.conns c).conn.channel.fd = true ∧
      (s.proc.world.conns c).conn.state = .kDisconnected ∧
      (s.proc.world.conns c).conn.channel.addedToLoop = false ∧
      ∀ l, (s.proc.world.pollers l).channels (s.proc.world.conns c).conn.channel.fd = none ∧
        (s.proc.world.pollers l).interest (s.proc.world.conns c).conn.channel.fd = none := by
  have hlive : s.proc.world.Live s.gone (some c) := ⟨hc, hgone⟩
  have hindexed := h.indexed c hc
  obtain ⟨hclosed, hnew⟩ := hindexed.gone (h.destroyed hc href)
  refine ⟨h.descriptors.fds.opened _ hlive, hclosed, ?_,
    h.descriptors.fds.unregistered_new hlive hnew⟩
  by_contra hadded
  exact hindexed.added.mp (by simpa using hadded) hnew

/-- The destructor of a connection that nobody holds keeps the invariant. -/
theorem HostInv.destroyConnection (h : HostInv cfg s) (hc : c < s.proc.world.accepted)
    (hgone : s.gone c = false) (href : ¬ s.Referenced c) :
    HostInv cfg { s.close (s.proc.world.conns c).conn.channel.fd with
      gone := Function.update s.gone c true } := by
  have hlive : s.proc.world.Live s.gone (some c) := ⟨hc, hgone⟩
  have hdestroyed := h.destroyed hc href
  obtain ⟨-, hnew⟩ := (h.indexed c hc).gone hdestroyed
  obtain ⟨-, -, -, hnone⟩ := h.unregistered hc hgone href
  have hsame : { s.close (s.proc.world.conns c).conn.channel.fd with
      gone := Function.update s.gone c true } = Host.mk s.proc s.serverGone
        (Function.update s.gone c true)
        (Function.update s.opened (s.proc.world.conns c).conn.channel.fd false) := by
    simp only [Host.close, forget_pollers fun l => (hnone l).2]
  rw [hsame]
  refine ⟨h.queue, h.idle, h.frames, h.sound, h.indexed, h.descriptors.destroy hlive hnew,
    h.running, h.few, h.exiting, ?_⟩
  intro d hd
  by_cases hdc : d = c
  · subst hdc
    exact ⟨hc, hdestroyed⟩
  · simp only [Function.update_of_ne hdc] at hd
    exact h.gone d hd

/-- What `~TcpServer` brings for one connection: `connectDestroyed`, first on the base loop
and last on a worker, if the map holds it. -/
theorem destroyServer_share (cfg : ServerConfig) {p : ServerProcess n}
    (htodo : (p.loops 0).todo = []) (c : Nat) :
    let q := share c (p.afterCall 0 [] p.world.destroyServer).world
      ((p.afterCall 0 [] p.world.destroyServer).work (serverApp n cfg))
    q.record = p.world.conns c ∧ q.born = decide (c < p.world.accepted) ∧
      (∀ l, q.calls l = (if l = 0 ∧ c ∈ p.world.connectionList ∧ (p.world.conns c).loop = 0 then
          [.connectDestroyed] else []) ++ callsOf c (p.work (serverApp n cfg) l) ++
        (if c ∈ p.world.connectionList ∧ (p.world.conns c).loop ≠ 0 ∧ (p.world.conns c).loop = l then
          [.connectDestroyed] else [])) ∧
      (∀ l, q.removals l = removalsOf c (p.work (serverApp n cfg) l)) ∧
      q.sending = fun t => (p.world.threads t).sending c := by
  refine ⟨rfl, rfl, fun l => ?_, fun l => ?_, rfl⟩
  · simp only [share]
    rw [destroyServer_work htodo, callsOf_append, callsOf_append,
      callsOf_destroyEach nodup_connectionList]
    by_cases hl : l = 0
    · simp [hl, callsOf_destroyEach nodup_connectionList]
    · simp [hl]
  · simp only [share]
    rw [destroyServer_work htodo, removalsOf_append, removalsOf_append, removalsOf_destroyEach]
    by_cases hl : l = 0
    · simp [hl, removalsOf_destroyEach]
    · simp [hl]

/-- After `~TcpServer` every connection is sound. -/
theorem destroyServer_sound {p : ServerProcess n} (htodo : (p.loops 0).todo = [])
    (h : ServerSound p.world (p.work (serverApp n cfg))) :
    ServerSound (p.afterCall 0 [] p.world.destroyServer).world
      ((p.afterCall 0 [] p.world.destroyServer).work (serverApp n cfg)) := by
  have hact : ∀ l a, a ∈ (p.afterCall 0 [] p.world.destroyServer).work (serverApp n cfg) l →
      a ∈ p.work (serverApp n cfg) l ∨ ∃ d, a = .conn d .connectDestroyed := by
    intro l a ha
    rw [destroyServer_work htodo, List.mem_append, List.mem_append] at ha
    rcases ha with (ha | ha) | ha
    · split at ha
      · obtain ⟨d, -, -, rfl⟩ := mem_destroyEach.mp ha
        exact Or.inr ⟨d, rfl⟩
      · cases ha
    · exact Or.inl ha
    · obtain ⟨d, -, -, rfl⟩ := mem_destroyEach.mp ha
      exact Or.inr ⟨d, rfl⟩
  refine ⟨fun c hb => ?_, fun c hb => ?_, h.registered, ?_⟩
  · obtain ⟨-, hborn, hcalls, hremovals, -⟩ := destroyServer_share cfg htodo c
    have hblank := h.blank c hb
    have hnot : c ∉ p.world.connectionList := by
      intro hmem
      rw [hborn, decide_eq_false_iff_not] at hb
      exact hb (mem_connectionList.mp hmem).1
    refine ⟨hblank.state, fun l => ?_, fun l => ?_, hblank.sending⟩
    · rw [hcalls]
      simpa [hnot, share] using hblank.calls l
    · rw [hremovals]
      exact hblank.removals l
  · obtain ⟨hrecord, -, hcalls, -, hsending⟩ := destroyServer_share cfg htodo c
    refine (h.sound c hb).more hrecord hsending fun l k hk => ?_
    rw [hcalls, List.mem_append, List.mem_append] at hk
    rcases hk with (hk | hk) | hk
    · split at hk
      · rename_i hc
        rw [List.mem_singleton.mp hk]
        exact Or.inr ⟨hc.1.trans hc.2.2.symm, rfl⟩
      · cases hk
    · exact Or.inl hk
    · split at hk
      · rename_i hc
        rw [List.mem_singleton.mp hk]
        exact Or.inr ⟨hc.2.2.symm, rfl⟩
      · cases hk
  · intro l active c revents hmem
    rcases hact l _ hmem with hold | ⟨d, heq⟩
    · exact h.dispatched l active c revents hold
    · cases heq

/-- After `~TcpServer` every connection is on its way out. -/
theorem destroyServer_exiting {p : ServerProcess n}
    (h : (serverApp n cfg).system.Reachable p) (hfew : p.world.accepted < 2 ^ 31)
    (htodo : (p.loops 0).todo = []) (hc : c < p.world.accepted) :
    (share c (p.afterCall 0 [] p.world.destroyServer).world
      ((p.afterCall 0 [] p.world.destroyServer).work (serverApp n cfg))).Exiting := by
  obtain ⟨hrecord, -, hcalls, -⟩ := destroyServer_share cfg htodo c
  have hlife := (reachable_serverInv h).life hc
  have hmap : c ∈ p.world.connectionList ↔ .erased ∉ (p.world.conns c).trace := by
    rw [mem_connectionList, (reachable_mapInv h).map hfew]
    simp [hc]
  by_cases herased : .erased ∈ (p.world.conns c).trace
  · refine hlife.exiting_erased herased hrecord ?_
    rw [hcalls]
    simp [hmap, herased, share]
  · by_cases hl : (p.world.conns c).loop = 0
    · -- nothing is under way on the base loop, and what is queued there is neither a new
      -- connection nor a close callback
      have hwork : p.work (serverApp n cfg) 0 = ((p.loops 0).functors.drop (p.loops 0).i ++
          (p.loops 0).pendingFunctors).flatMap ServerFunctor.body := by
        simp [Process.work, EventLoop.work, htodo, serverApp]
      have hqueued : ∀ k, k ∈ callsOf c (p.work (serverApp n cfg) 0) →
          ∃ f, .conn c f ∈ (p.loops 0).pushed ∧ k ∈ f.body := by
        intro k hk
        rw [mem_callsOf, hwork, List.mem_flatMap] at hk
        obtain ⟨f, hf, hbody⟩ := hk
        cases f with
        | conn d f =>
            simp only [ServerFunctor.body, List.mem_map, ServerAct.conn.injEq] at hbody
            obtain ⟨k', hk', rfl, rfl⟩ := hbody
            refine ⟨f, ?_, hk'⟩
            rw [← (reachable_queueInv h 0).split, List.append_assoc]
            exact List.mem_append_right _ hf
        | removeConnectionInLoop d => simp [ServerFunctor.body] at hbody
      refine hlife.exiting_called herased ?_ ?_ hrecord ?_
      · intro hmem
        simp only [share, hl] at hmem
        obtain ⟨f, hf, hbody⟩ := hqueued _ hmem
        cases f with
        | connectEstablished => exact established_not_pushed h hf
        | _ => simp [ConnFunctor.body] at hbody
      · intro hmem
        simp only [share, hl] at hmem
        obtain ⟨f, -, hbody⟩ := hqueued _ hmem
        cases f <;> simp [ConnFunctor.body] at hbody
      · rw [hcalls]
        simp [share, hl, hmap, herased]
    · refine hlife.exiting_queued herased hrecord ?_
      rw [hcalls]
      simp [share, hl, hmap, herased]

/-- What `~TcpServer` does to the loops: it calls on the base loop's thread, and queues. -/
theorem destroyServer_loops (p : ServerProcess n) (l : LoopId n) :
    ∃ todo cbs, (p.afterCall 0 [] p.world.destroyServer).loops l =
      EventLoop.enqueue { p.loops l with todo := todo } cbs ∧
      (l ≠ 0 → todo = (p.loops l).todo) ∧
      (l = 0 → ∀ a ∈ todo, ∃ c, a = .conn c .connectDestroyed) := by
  simp only [Process.afterCall, queueAll_apply]
  by_cases hl : l = 0
  · subst hl
    refine ⟨_, _, rfl, fun hne => absurd rfl hne, ?_⟩
    intro _ a ha
    simp only [List.append_nil, destroyServer_calls] at ha
    obtain ⟨c, -, -, rfl⟩ := mem_destroyEach.mp ha
    exact ⟨c, rfl⟩
  · rw [Function.update_of_ne hl]
    exact ⟨(p.loops l).todo, _, rfl, fun _ => rfl, fun heq => absurd heq hl⟩

/-- `~TcpServer` dispatches nothing, and runs outside the dispatch of the base loop. -/
theorem destroyServer_frames {p : ServerProcess n} (htodo : (p.loops 0).todo = [])
    (hphase : (p.loops 0).phase = .outside ∨ (p.loops 0).phase = .calling)
    (h : ∀ l, Frames (p.world.dispatching l) (p.loops l)) (l : LoopId n) :
    Frames (p.world.dispatching l) ((p.afterCall 0 [] p.world.destroyServer).loops l) := by
  obtain ⟨todo, cbs, hl, hother, hbase⟩ := destroyServer_loops p l
  rw [hl]
  by_cases hl0 : l = 0
  · subst hl0
    have hmem := hbase rfl
    constructor
    · intro hd
      have hoff := (h 0).not_handling htodo
      cases hoff.symm.trans hd
    · rintro (ha | ⟨active, ha⟩)
      · obtain ⟨c, hc⟩ := hmem _ ha
        cases hc
      · obtain ⟨c, hc⟩ := hmem _ ha
        cases hc
    · intro c _ hhandling
      simp only [EventLoop.enqueue] at hhandling
      rcases hphase with hphase | hphase <;> cases hphase.symm.trans hhandling
  · exact (h l).same (hother hl0) rfl

/-- `~TcpServer` accepts nothing and leaves the channels to `connectDestroyed`. -/
theorem destroyServer_descriptors {p : ServerProcess n} {gone : Nat → Bool} {opened : Int → Bool}
    (htodo : (p.loops 0).todo = [])
    (h : Descriptors p.world (p.work (serverApp n cfg)) gone opened) :
    Descriptors (p.afterCall 0 [] p.world.destroyServer).world
      ((p.afterCall 0 [] p.world.destroyServer).work (serverApp n cfg)) gone opened := by
  have hnew : ∀ fd, .newConnection fd ∉ p.work (serverApp n cfg) 0 := by
    intro fd hmem
    simp only [Process.work, EventLoop.work, htodo, List.nil_append] at hmem
    exact newConnection_not_mem_body _ hmem
  have hmem : ∀ l fd, .newConnection fd ∈
      (p.afterCall 0 [] p.world.destroyServer).work (serverApp n cfg) l →
      .newConnection fd ∈ p.work (serverApp n cfg) l := by
    intro l fd hfd
    rw [destroyServer_work htodo, List.mem_append, List.mem_append] at hfd
    rcases hfd with (hfd | hfd) | hfd
    · split at hfd
      · obtain ⟨c, -, -, hc⟩ := mem_destroyEach.mp hfd
        cases hc
      · cases hfd
    · exact hfd
    · obtain ⟨c, -, -, hc⟩ := mem_destroyEach.mp hfd
      cases hc
  have hfds : FdInv (p.afterCall 0 [] p.world.destroyServer).world gone opened :=
    h.fds.frame rfl (fun q => by cases q <;> rfl) (fun q => by cases q <;> rfl) rfl
      fun _ hopen => hopen
  refine h.frame hfds rfl (fun q => by cases q <;> rfl) (fun _ hopen => hopen) hmem ?_
  intro l fd hfd
  have hold := hmem l fd (List.mem_of_mem_tail hfd)
  have hl := (h.pending l fd hold).1
  rw [hl] at hold
  exact hnew fd hold

/-- The destructor of the server keeps the invariant. -/
theorem HostInv.destroyServer (h : HostInv cfg s) (hserver : s.serverGone = false)
    (htodo : (s.proc.loops 0).todo = [])
    (hphase : (s.proc.loops 0).phase = .outside ∨ (s.proc.loops 0).phase = .calling) :
    HostInv cfg { s with
      proc := s.proc.afterCall 0 [] s.proc.world.destroyServer, serverGone := true } := by
  refine ⟨fun l => ?_, fun l => ?_, destroyServer_frames htodo hphase h.frames,
    destroyServer_sound htodo h.sound, h.indexed, destroyServer_descriptors htodo h.descriptors,
    nofun, h.few, ?_, h.gone⟩
  · obtain ⟨todo, cbs, hl, -⟩ := destroyServer_loops s.proc l
    have hq : QueueInv { s.proc.loops l with todo := todo } :=
      ⟨(h.queue l).split, (h.queue l).idle, (h.queue l).index_le, (h.queue l).pass⟩
    have hmove : LoopMove ServerFunctor.body { s.proc.loops l with todo := todo } cbs _ :=
      .queued cbs
    rw [hl]
    exact hmove.queueInv hq
  · obtain ⟨todo, cbs, hl, hother, -⟩ := destroyServer_loops s.proc l
    rw [hl]
    intro hidle
    by_cases hl0 : l = 0
    · subst hl0
      simp only [EventLoop.enqueue] at hidle
      rcases hphase with hphase | hphase <;> simp [hphase] at hidle
    · exact (hother hl0).trans (h.idle l hidle)
  · intro _ c hc
    exact destroyServer_exiting (h.running hserver) h.few htodo hc

/-- **The invariant holds in every run that the kernel and the reference counts allow.** -/
theorem reachable_hostInv {ok : Host n → HostLabel n → Prop}
    (h : (hostSystem n cfg).ReachableBy ok s) (hok : ∀ s i, ok s i → s.Lawful i) :
    HostInv cfg s := by
  refine h.invariant (fun _ => init_hostInv) ?_
  intro s label s' _ hlabel hinv hnext
  have hlawful := hok s label hlabel
  cases hostSteps_of_next hnext with
  | @run label proc hsteps hguard =>
      apply hinv.run hsteps hguard
      intro fd hfd
      cases label with
      | call l o => exact hlawful fd hfd
      | _ => cases hfd
  | destroyServer hserver htodo hphase => exact hinv.destroyServer hserver htodo hphase
  | destroyConnection hc hgone => exact hinv.destroyConnection hc hgone hlawful

end Invariant

end Reactor
