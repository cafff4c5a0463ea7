import Reactor.ConnectionChannel

/-!
# Connections on their way out

* `Frames`, `Steps.frames` - a loop handles events or runs `connectDestroyed`, never one
  inside the other.
* `established_not_pushed` - `connectEstablished` is never queued on the base loop.
* `Exit`, `Share.Exiting`, `Turn.exiting` - the stages of a connection once `~TcpServer` has
  run: `connectDestroyed` is to come, behind whatever else was to come.
* `Share.Life.exiting` - every stage of a running server leads into one of them.
-/

namespace Reactor

open Reactor.Lib

variable {n : Nat} {cfg : ServerConfig}

/-! ### Stack frames -/

/-- What a loop's thread is in the middle of. -/
structure Frames (d : Dispatching ChannelPtr) (lp : EventLoop ServerAct ServerFunctor) : Prop where
  handling : d.eventHandling = true → .eventsHandled ∈ lp.todo
  phase : .eventsHandled ∈ lp.todo ∨ (∃ active, .handleActiveChannels active ∈ lp.todo) →
    lp.phase = .handling
  destroying : ∀ c, .conn c .connectDestroyed ∈ lp.todo ∨ .conn c .channelRemove ∈ lp.todo →
    lp.phase ≠ .handling

section Frames

variable {w : ServerWorld n} {l : LoopId n} {o : ServerOracle} {a : ServerAct}
  {e : ServerEffect n} {d : Dispatching ChannelPtr} {lp lp' : EventLoop ServerAct ServerFunctor}

/-- A thread with no call under way handles no events. -/
theorem Frames.not_handling (h : Frames d lp) (htodo : lp.todo = []) : d.eventHandling = false := by
  by_contra hd
  have hmem := h.handling (by simpa using hd)
  simp [htodo] at hmem

/-- Between the phases nothing is under way. -/
theorem Frames.idle (h : Frames d lp) (htodo : lp.todo = []) (htodo' : lp'.todo = []) :
    Frames d lp' := by
  refine ⟨fun hd => ?_, ?_, ?_⟩
  · rw [h.not_handling htodo] at hd
    cases hd
  · simp [htodo']
  · simp [htodo']

theorem Frames.same (h : Frames d lp) (htodo : lp'.todo = lp.todo) (hphase : lp'.phase = lp.phase) :
    Frames d lp' := by
  refine ⟨?_, ?_, ?_⟩
  · rw [htodo]
    exact h.handling
  · rw [htodo, hphase]
    exact h.phase
  · rw [htodo, hphase]
    exact h.destroying

@[simp] theorem noteCurrent_eventHandling (c : Nat) (k : ConnCall) (l l' : LoopId n) :
    ((w.noteCurrent l c k).dispatching l').eventHandling = (w.dispatching l').eventHandling := by
  cases k with
  | handleEvent revents =>
      simp only [ServerWorld.noteCurrent, ServerWorld.setCurrent, ServerWorld.setDispatching]
      by_cases hl : l' = l
      · subst hl
        simp
      · simp [Function.update_of_ne hl]
  | _ => rfl

/-- Only `loop()` itself sets and clears `_eventHandling`, that of its own loop. -/
theorem call_eventHandling (h : w.call cfg l o a = .ok e) (l' : LoopId n)
    (hd : (e.world.dispatching l').eventHandling = true) :
    (l' = l ∧ ∃ active, a = .handleActiveChannels active) ∨
      ((w.dispatching l').eventHandling = true ∧ (l' = l → a ≠ .eventsHandled)) := by
  by_cases ha : a = .eventsHandled
  · subst ha
    cases h
    simp only [ServerWorld.setDispatching] at hd
    by_cases hl : l' = l
    · subst hl
      simp at hd
    · rw [Function.update_of_ne hl] at hd
      exact Or.inr ⟨hd, fun h => absurd h hl⟩
  · have hsame : (e.world.dispatching l').eventHandling = (w.dispatching l').eventHandling →
        (w.dispatching l').eventHandling = true ∧ (l' = l → a ≠ .eventsHandled) := by
      intro heq
      exact ⟨heq ▸ hd, fun _ => ha⟩
    cases serverCall h with
    | handleActiveChannels active =>
        by_cases hl : l' = l
        · exact Or.inl ⟨hl, active, rfl⟩
        · exact Or.inr (hsame (by simp [ServerWorld.setDispatching, Function.update_of_ne hl]))
    | eventsHandled => exact absurd rfl ha
    | acceptorEvent =>
        right
        apply hsame
        simp only [ServerWorld.setCurrent, ServerWorld.setDispatching]
        by_cases hl : l' = l
        · subst hl
          simp
        · simp [Function.update_of_ne hl]
    | conn => exact Or.inr (hsame (by simp [ServerWorld.setView]))
    | _ => exact Or.inr (hsame rfl)

/-- Only the start of a dispatch brings its end. -/
theorem ServerCall.eventsHandled_mem (h : ServerCall cfg w l o a e) (hmem : .eventsHandled ∈ e.calls) :
    ∃ active, a = .handleActiveChannels active := by
  cases h with
  | handleActiveChannels active => exact ⟨active, rfl⟩
  | acceptorEvent _ hcalls => rcases hcalls with rfl | rfl <;> simp at hmem
  | acceptorRead _ hcalls => rcases hcalls with rfl | ⟨_, rfl⟩ <;> simp at hmem
  | newConnection =>
      simp only [ServerWorld.newConnection, runInLoop] at hmem
      split at hmem <;> simp [ServerFunctor.body, ConnFunctor.body] at hmem
  | @conn c k v out =>
      rcases List.mem_append.mp hmem with hmem | hmem
      · simp at hmem
      · unfold ServerWorld.removeConnection runInLoop at hmem
        split at hmem
        · split at hmem <;> simp [ServerFunctor.body] at hmem
        · cases hmem
  | _ => simp at hmem

variable {s s' : ServerProcess n} {label : ServerLabel n}

/-- What no thread changes of the dispatches and the channels. -/
theorem ThreadSpec.keeps {t : ServerThread} {out : ServerWorld n × List (LoopId n × ServerFunctor)}
    (h : ThreadSpec w t out) :
    out.1.dispatching = w.dispatching ∧ out.1.acceptChannel = w.acceptChannel ∧
      out.1.listenning = w.listenning ∧ ∀ c, (out.1.conns c).conn = (w.conns c).conn := by
  cases h with
  | @sendPassed t d m s =>
      refine ⟨rfl, rfl, rfl, fun c => ?_⟩
      by_cases hc : c = d
      · subst hc
        simp [ServerWorld.observe, ServerWorld.setThread]
      · simp [ServerWorld.observe, ServerWorld.setThread, Function.update_of_ne hc]
  | _ => exact ⟨rfl, rfl, rfl, fun _ => rfl⟩

theorem not_mem_body (fs : List ServerFunctor) :
    .eventsHandled ∉ fs.flatMap ServerFunctor.body := by
  intro hmem
  obtain ⟨f, -, hf⟩ := List.mem_flatMap.mp hmem
  cases f <;> simp [ServerFunctor.body] at hf

/-- The head of a thread's work returned. -/
theorem Frames.called {rest : List ServerAct} {tail : List ServerAct}
    {work : LoopId n → List ServerAct} (h : Frames (w.dispatching l) lp)
    (hsound : ServerSound w work) (hwork : work l = a :: tail) (htodo : lp.todo = a :: rest)
    (hcall : w.call cfg l o a = .ok e) (htodo' : lp'.todo = e.calls ++ rest)
    (hphase : lp'.phase = lp.phase) : Frames (e.world.dispatching l) lp' := by
  have hspec := serverCall hcall
  refine ⟨fun hd => ?_, fun hmem => ?_, fun c hmem => ?_⟩
  · rw [htodo']
    rcases call_eventHandling hcall l hd with ⟨-, active, rfl⟩ | ⟨hold, hne⟩
    · cases hspec
      simp
    · have hold' := h.handling hold
      rw [htodo, List.mem_cons] at hold'
      exact List.mem_append_right _ (hold'.resolve_left (Ne.symm (hne rfl)))
  · rw [hphase]
    apply h.phase
    simp only [htodo', List.mem_append] at hmem
    rw [htodo]
    rcases hmem with (hmem | hmem) | ⟨active, hmem | hmem⟩
    · obtain ⟨active, rfl⟩ := hspec.eventsHandled_mem hmem
      exact Or.inr ⟨active, List.mem_cons_self⟩
    · exact Or.inl (List.mem_cons_of_mem _ hmem)
    · exact absurd hmem (hspec.not_dispatch active)
    · exact Or.inr ⟨active, List.mem_cons_of_mem _ hmem⟩
  · rw [hphase]
    apply h.destroying c
    obtain ⟨hstart, hend⟩ := hspec.destroys hsound hwork c
    simp only [htodo', List.mem_append] at hmem
    rw [htodo]
    rcases hmem with (hmem | hmem) | hmem | hmem
    · exact absurd hmem hstart
    · exact Or.inl (List.mem_cons_of_mem _ hmem)
    · rw [hend hmem]
      exact Or.inl List.mem_cons_self
    · exact Or.inr (List.mem_cons_of_mem _ hmem)

/-- Every step keeps dispatches and `connectDestroyed` apart. -/
theorem Steps.frames (h : Steps (serverApp n cfg) s label s')
    (hsound : ServerSound s.world (s.work (serverApp n cfg))) (hidle : ∀ l, (s.loops l).Idle)
    (hframes : ∀ l, Frames (s.world.dispatching l) (s.loops l)) (l : LoopId n) :
    Frames (s'.world.dispatching l) (s'.loops l) := by
  have hset : ∀ l₀ lp, Frames (s.world.dispatching l₀) lp →
      Frames (s.world.dispatching l) ((s.setLoop l₀ lp).loops l) := by
    intro l₀ lp hlp
    by_cases hl : l = l₀
    · subst hl
      simpa [Process.setLoop] using hlp
    · simpa [Process.setLoop, Function.update_of_ne hl] using hframes l
  cases h with
  | start l₀ hph htodo => exact hset l₀ _ ((hframes l₀).idle htodo htodo)
  | test l₀ hph =>
      have htodo := hidle l₀ (Or.inl hph)
      exact hset l₀ _ ((hframes l₀).idle htodo htodo)
  | poll l₀ active hph hready =>
      obtain ⟨evs, rfl, -⟩ := ready_cases hready
      have hoff := (hframes l₀).not_handling (hidle l₀ (Or.inr (Or.inl hph)))
      apply hset l₀ _
      constructor
      · intro hd
        rw [hoff] at hd
        cases hd
      · exact fun _ => rfl
      · simp
  | @call l₀ o a rest e htodo hcall =>
      obtain ⟨tail, hwork⟩ := Process.work_of_todo (serverApp n cfg) htodo
      simp only [Process.afterCall, queueAll_apply]
      by_cases hl : l = l₀
      · subst hl
        exact (hframes l).called hsound hwork htodo hcall (by simp) (by simp)
      · simp only [Function.update_of_ne hl]
        have hold : Frames (s.world.dispatching l) (s.loops l) := hframes l
        refine ⟨fun hd => ?_, hold.phase, hold.destroying⟩
        rcases call_eventHandling hcall l hd with ⟨heq, -⟩ | ⟨hsame, -⟩
        · exact absurd heq hl
        · exact hold.handling hsame
  | handled l₀ hph htodo => exact hset l₀ _ ((hframes l₀).idle htodo htodo)
  | swap l₀ hph =>
      have htodo := hidle l₀ (Or.inr (Or.inr hph))
      exact hset l₀ _ ((hframes l₀).idle htodo htodo)
  | @functor l₀ cb hph htodo hcb =>
      apply hset l₀ _
      have hbody : (serverApp n cfg).body cb = [cb].flatMap ServerFunctor.body := by
        simp [serverApp]
      constructor
      · intro hd
        rw [(hframes l₀).not_handling htodo] at hd
        cases hd
      · rintro (hmem | ⟨active, hmem⟩)
        · rw [hbody] at hmem
          exact absurd hmem (not_mem_body _)
        · rw [hbody] at hmem
          exact absurd hmem (handleActiveChannels_not_mem_body _)
      · intro c _
        simp [hph]
  | passed l₀ hph htodo => exact hset l₀ _ ((hframes l₀).idle htodo htodo)
  | thread t hthread =>
      simp only [Process.afterThread, queueAll_apply, (threadSpec hthread).keeps.1]
      exact (hframes l).same rfl rfl
  | quit l₀ => exact hset l₀ _ ((hframes l₀).same rfl rfl)

theorem create_frames (todo : List ServerAct) (htodo : todo = [] ∨ todo = [.listen])
    {d : Dispatching ChannelPtr} (hd : d.eventHandling = false) :
    Frames d (EventLoop.create todo) := by
  refine ⟨fun h => ?_, ?_, ?_⟩
  · rw [hd] at h
    cases h
  · rcases htodo with rfl | rfl <;> simp [EventLoop.create]
  · rcases htodo with rfl | rfl <;> simp [EventLoop.create]

end Frames

/-! ### The base loop's queue -/

section Base

variable {w : ServerWorld n} {l : LoopId n} {o : ServerOracle} {a : ServerAct}
  {e : ServerEffect n} {c : Nat}

/-- A new connection of the base loop is established at once. -/
theorem ServerCall.established_not_queued {work : LoopId n → List ServerAct}
    {tail : List ServerAct} (h : ServerCall cfg w l o a e) (hsound : ServerSound w work)
    (hwork : work l = a :: tail) : .conn c .connectEstablished ∉ queuedTo 0 e.queued := by
  intro hmem
  cases h with
  | newConnection sockfd hl =>
      subst hl
      simp only [ServerWorld.newConnection, runInLoop] at hmem
      split at hmem
      · simp at hmem
      · rename_i hne
        simp [queuedTo, Ne.symm hne] at hmem
  | @conn d k v out hl hcall =>
      obtain ⟨-, -, hspec⟩ := hsound.callSpec hwork hcall
      obtain ⟨q, hq, hqf⟩ := mem_queuedTo hmem
      rcases List.mem_append.mp hq with hq | hq
      · obtain ⟨f, hf, rfl⟩ := List.mem_map.mp hq
        cases hqf
        have hbody := hspec.queued_body .connectEstablished
          (List.mem_flatMap.mpr ⟨_, hf, by simp [ConnFunctor.body]⟩)
        cases hbody
      · unfold ServerWorld.removeConnection runInLoop at hq
        split at hq
        · split at hq
          · cases hq
          · rw [List.mem_singleton.mp hq] at hqf
            cases hqf
        · cases hq
  | removeConnectionInLoop =>
      obtain ⟨q, hq, hqf⟩ := mem_queuedTo hmem
      rw [List.mem_singleton.mp hq] at hqf
      cases hqf
  | _ => simp at hmem

theorem established_not_pushed {s : ServerProcess n} {ok : ServerProcess n → ServerLabel n → Prop}
    (h : (serverApp n cfg).system.ReachableBy ok s) :
    .conn c .connectEstablished ∉ (s.loops 0).pushed := by
  refine h.invariant (P := fun s => .conn c .connectEstablished ∉ (s.loops 0).pushed) ?_ ?_
  · intro s hinit
    obtain ⟨todo, hl⟩ := hinit.2 0
    simp [hl, EventLoop.create]
  · intro s label s' hr _ hnot hnext
    rcases (next_iff_steps.mp hnext).pushed 0 with ⟨-, hsame⟩ |
      ⟨l', o, a, rest, e, htodo, hcall, -, hpush⟩ | ⟨t, out, hthread, -, hpush⟩
    · rw [hsame]
      exact hnot
    · obtain ⟨tail, hwork⟩ := Process.work_of_todo (serverApp n cfg) htodo
      rw [hpush, List.mem_append, not_or]
      exact ⟨hnot, (serverCall hcall).established_not_queued (reachable_serverInv hr).serverSound
        hwork⟩
    · rw [hpush, List.mem_append, not_or]
      refine ⟨hnot, fun hmem => ?_⟩
      obtain ⟨q, hq, hqf⟩ := mem_queuedTo hmem
      cases threadSpec hthread with
      | sendQueue => simp_all
      | queueInLoop => simp_all
      | _ => cases hq

end Base

/-! ### After the server -/

/-- The stages of a connection once `~TcpServer` has run. In `stuck` it is closed between
`connectDestroyed` and the removal of its channel; no thread gets there, but the list of its
calls to come does not say so. -/
inductive Exit where
  | announced
  | waiting
  | closed
  | removing
  | stuck
  | destroyed
deriving DecidableEq, Repr

namespace Exit

/-- The calls to come that move the connection on. -/
def tokens : Exit → List ConnCall
  | announced => [.connectEstablished, .connectDestroyed]
  | waiting => [.connectDestroyed]
  | closed => [.closeCallback, .connectDestroyed]
  | removing => [.channelRemove]
  | stuck => [.closeCallback, .channelRemove]
  | destroyed => []

/-- The states of the connection in the stage. -/
def Allows : Exit → StateE → Prop
  | announced, s => s = .kConnecting
  | waiting, s => s ≠ .kConnecting
  | removing, s => s = .kDisconnecting ∨ s = .kDisconnected
  | _, s => s = .kDisconnected

/-- Which stage a token at the head belongs to. -/
theorem of_tokens {g : Exit} {k : ConnCall} {ks : List ConnCall} (h : k :: ks = g.tokens) :
    (k = .connectEstablished ∧ g = .announced ∧ ks = waiting.tokens) ∨
      (k = .connectDestroyed ∧ g = .waiting ∧ ks = []) ∨
      (k = .closeCallback ∧ g = .closed ∧ ks = waiting.tokens) ∨
      (k = .channelRemove ∧ g = .removing ∧ ks = []) ∨
      (k = .closeCallback ∧ g = .stuck ∧ ks = removing.tokens) := by
  cases g <;> simp_all [tokens]

end Exit

/-- A call moves the connection to its next stage or leaves it in its stage. -/
theorem LifeStep.exit {k : ConnCall} {s s' : StateE} {obs : List Obs}
    {calls tail : List ConnCall} {g : Exit} (h : LifeStep k s s' obs calls)
    (htokens : tokens (k :: tail) = g.tokens) (hs : g.Allows s)
    (hremovable : k = .channelRemove → s = .kDisconnected) :
    ∃ g' : Exit, calls ++ tokens tail = g'.tokens ∧ g'.Allows s' ∧
      (g' = .destroyed ↔ g = .destroyed ∨ .destroyed ∈ obs) := by
  cases h with
  | connectEstablished =>
      rw [tokens_cons_of rfl] at htokens
      obtain ⟨-, rfl, htail⟩ | ⟨hk, -⟩ | ⟨hk, -⟩ | ⟨hk, -⟩ | ⟨hk, -⟩ := Exit.of_tokens htokens
      · exact ⟨.waiting, htail, by simp [Exit.Allows], by simp⟩
      all_goals cases hk
  | handleClose hopen =>
      rw [tokens_cons_none rfl] at htokens
      cases g with
      | waiting => exact ⟨.closed, by rw [htokens]; rfl, rfl, by simp⟩
      | removing => exact ⟨.stuck, by rw [htokens]; rfl, rfl, by simp⟩
      | announced => exact absurd hs hopen.ne_connecting
      | _ => exact absurd hs hopen.ne_disconnected
  | closeCallback =>
      rw [tokens_cons_of rfl] at htokens
      obtain ⟨hk, -⟩ | ⟨hk, -⟩ | ⟨-, rfl, htail⟩ | ⟨hk, -⟩ | ⟨-, rfl, htail⟩ :=
        Exit.of_tokens htokens
      · cases hk
      · cases hk
      · have hclosed : s = .kDisconnected := hs
        exact ⟨.waiting, htail, by simp [Exit.Allows, hclosed], by simp⟩
      · cases hk
      · exact ⟨.removing, htail, Or.inr hs, by simp⟩
  | disconnect =>
      rw [tokens_cons_of rfl] at htokens
      obtain ⟨hk, -⟩ | ⟨-, rfl, htail⟩ | ⟨hk, -⟩ | ⟨hk, -⟩ | ⟨hk, -⟩ := Exit.of_tokens htokens
      · cases hk
      · exact ⟨.removing, by rw [htail]; rfl, Or.inr rfl, by simp⟩
      all_goals cases hk
  | connectDestroyed hne =>
      rw [tokens_cons_of rfl] at htokens
      obtain ⟨hk, -⟩ | ⟨-, rfl, htail⟩ | ⟨hk, -⟩ | ⟨hk, -⟩ | ⟨hk, -⟩ := Exit.of_tokens htokens
      · cases hk
      · refine ⟨.removing, by rw [htail]; rfl, ?_, by simp⟩
        cases s with
        | kDisconnected => exact Or.inr rfl
        | kDisconnecting => exact Or.inl rfl
        | kConnecting => exact absurd rfl hs
        | kConnected => exact absurd rfl hne
      all_goals cases hk
  | channelRemove =>
      rw [tokens_cons_of rfl] at htokens
      obtain ⟨hk, -⟩ | ⟨hk, -⟩ | ⟨hk, -⟩ | ⟨-, rfl, htail⟩ | ⟨hk, -⟩ := Exit.of_tokens htokens
      · cases hk
      · cases hk
      · cases hk
      · exact ⟨.destroyed, by rw [htail]; rfl, hremovable rfl, by simp⟩
      · cases hk
  | shutdown hk =>
      rw [tokens_cons_none hk] at htokens
      cases g with
      | waiting => exact ⟨.waiting, htokens, by simp [Exit.Allows], by simp⟩
      | removing => rcases hs with hs | hs <;> cases hs
      | _ => cases hs
  | other hk =>
      rw [tokens_cons_none hk] at htokens
      exact ⟨g, htokens, hs, by simp⟩

/-- The connection is in one of the stages of its exit. -/
def Share.Exiting (p : Share n) : Prop :=
  ∃ g : Exit, tokens (p.calls p.record.loop) = g.tokens ∧ g.Allows p.record.conn.state ∧
    (g = .destroyed ↔ .destroyed ∈ p.record.trace)

section Exiting

variable {p p' : Share n} {label : ServerLabel n}

/-- Every turn of an accepted connection keeps it on its way out, but for its removal from
the map. -/
theorem Turn.exiting (hturn : Turn label p p') (hb : p.born = true) (hsound : p.Sound)
    (h : p.Exiting) (hremovals : p.removals 0 ≤ p'.removals 0) : p'.Exiting := by
  obtain ⟨g, htokens, hs, hd⟩ := h
  cases hturn with
  | idle => exact ⟨g, htokens, hs, hd⟩
  | accepted l sockfd name hnot => cases hb.symm.trans hnot
  | @dispatched l o _ rs hrs =>
      refine ⟨g, ?_, hs, hd⟩
      rw [← htokens]
      simp only [Function.update_apply]
      split
      · rename_i hl
        rw [hl, tokens_append, tokens_dispatch]
        rfl
      · rfl
  | @called _ _ k tail v v' out hcalls hv hcall =>
      obtain ⟨-, hspec⟩ := hsound.callSpec hcalls hv hcall
      have hstep := hspec.life
      rw [hv] at hstep
      rw [hcalls] at htokens
      have hremovable : k = .channelRemove → p.record.conn.state = .kDisconnected := by
        rintro rfl
        cases hspec with
        | channelRemove hrem =>
            obtain ⟨hnone, hold, -⟩ := remove_channel hrem
            rw [hv] at hnone hold
            exact hsound.inv.closed_of_removable hnone hold
        | gaveUp hk => cases hk
        | tookNothing hk => cases hk
        | took hk => cases hk
      obtain ⟨g', htokens', hs', hd'⟩ := hstep.exit htokens hs hremovable
      refine ⟨g', ?_, hs', ?_⟩
      · simp only [Function.update_self, tokens_append, hspec.queued_tokens, List.append_nil,
          htokens']
      · rw [hd', hd, List.mem_append, mem_life rfl]
  | removed hm =>
      simp only [Function.update_self, hm] at hremovals
      omega
  | sendPassed =>
      refine ⟨g, htokens, hs, ?_⟩
      simpa using hd
  | sendQueued =>
      refine ⟨g, ?_, hs, hd⟩
      simpa [tokens, ConnCall.isToken] using htokens
  | userQueued =>
      refine ⟨g, ?_, hs, hd⟩
      simpa [tokens, ConnCall.isToken] using htokens

/-- A connection of the map gets `connectDestroyed` behind its other calls. -/
theorem Share.Life.exiting_queued (h : p.Life) (herased : .erased ∉ p.record.trace)
    (hrecord : p'.record = p.record)
    (hcalls : p'.calls p.record.loop = p.calls p.record.loop ++ [.connectDestroyed]) :
    p'.Exiting := by
  obtain ⟨g, htrace, htokens, -, hs⟩ := h.stage
  rw [Share.Exiting, hrecord, hcalls, tokens_append, htokens]
  rw [← mem_life rfl, htrace] at herased ⊢
  cases g with
  | announced => exact ⟨.announced, rfl, hs, by simp [Stage.life]⟩
  | opened => exact ⟨.waiting, rfl, StateE.Open.ne_connecting hs, by simp [Stage.life]⟩
  | closed => exact ⟨.closed, rfl, hs, by simp [Stage.life]⟩
  | leaving =>
      have hclosed : p.record.conn.state = .kDisconnected := hs
      exact ⟨.waiting, rfl, by simp [Exit.Allows, hclosed], by simp [Stage.life]⟩
  | _ => simp [Stage.life] at herased

/-- On the base loop `connectDestroyed` is called at once; nothing that concerns the
connection is under way there. -/
theorem Share.Life.exiting_called (h : p.Life) (herased : .erased ∉ p.record.trace)
    (hestablished : .connectEstablished ∉ p.calls p.record.loop)
    (hclosing : .closeCallback ∉ p.calls p.record.loop) (hrecord : p'.record = p.record)
    (hcalls : p'.calls p.record.loop = .connectDestroyed :: p.calls p.record.loop) :
    p'.Exiting := by
  obtain ⟨g, htrace, htokens, -, hs⟩ := h.stage
  have hnot : ∀ k, k ∉ p.calls p.record.loop → k ∉ g.tokens := by
    intro k hk
    rw [← htokens]
    exact fun hmem => hk (List.mem_filter.mp hmem).1
  have hfirst := hnot _ hestablished
  have hclose := hnot _ hclosing
  rw [Share.Exiting, hrecord, hcalls, tokens_cons_of rfl, htokens]
  rw [← mem_life rfl, htrace] at herased ⊢
  cases g with
  | announced => simp [Stage.tokens] at hfirst
  | opened => exact ⟨.waiting, rfl, StateE.Open.ne_connecting hs, by simp [Stage.life]⟩
  | closed => simp [Stage.tokens] at hclose
  | leaving =>
      have hclosed : p.record.conn.state = .kDisconnected := hs
      exact ⟨.waiting, rfl, by simp [Exit.Allows, hclosed], by simp [Stage.life]⟩
  | _ => simp [Stage.life] at herased

/-- An erased connection already had it to come. -/
theorem Share.Life.exiting_erased (h : p.Life) (herased : .erased ∈ p.record.trace)
    (hrecord : p'.record = p.record) (hcalls : p'.calls p.record.loop = p.calls p.record.loop) :
    p'.Exiting := by
  obtain ⟨g, htrace, htokens, -, hs⟩ := h.stage
  rw [Share.Exiting, hrecord, hcalls, htokens]
  rw [← mem_life rfl, htrace] at herased ⊢
  cases g with
  | erased =>
      have hclosed : p.record.conn.state = .kDisconnected := hs
      exact ⟨.waiting, rfl, by simp [Exit.Allows, hclosed], by simp [Stage.life]⟩
  | destroying => exact ⟨.removing, rfl, Or.inr hs, by simp [Stage.life]⟩
  | destroyed => exact ⟨.destroyed, rfl, hs, by simp [Stage.life]⟩
  | _ => simp [Stage.life] at herased

/-- A `connectDestroyed` more to come, at any place of the connection's own loop, leaves the
connection sound. -/
theorem Share.Sound.more (h : p.Sound) (hrecord : p'.record = p.record)
    (hsending : p'.sending = p.sending)
    (hcalls : ∀ l, ∀ k ∈ p'.calls l, k ∈ p.calls l ∨ l = p.record.loop ∧ k = .connectDestroyed) :
    p'.Sound := by
  refine ⟨?_, ?_, ?_, ?_, ?_⟩
  · rw [hrecord]
    exact h.inv
  · intro l k hk
    rcases hcalls l k hk with hold | ⟨-, rfl⟩
    · exact h.sized l k hold
    · exact trivial
  · rw [hsending]
    exact h.held
  · intro l hl
    rw [hrecord] at hl
    rw [List.eq_nil_iff_forall_not_mem]
    intro k hk
    rcases hcalls l k hk with hold | ⟨hloop, -⟩
    · simp [h.here l hl] at hold
    · exact hl hloop
  · rw [hrecord, hsending]
    intro hs
    refine ⟨fun k hk => ?_, (h.early hs).2⟩
    rcases hcalls _ k hk with hold | ⟨-, rfl⟩
    · exact (h.early hs).1 k hold
    · exact ⟨rfl, by simp⟩

end Exiting

/-! ### The destructor of the server -/

section Destructor

variable {w : ServerWorld n} {s : ServerProcess n} {c : Nat}

theorem mem_connectionList :
    c ∈ w.connectionList ↔ c < w.accepted ∧ w.connections (w.conns c).name = some c := by
  simp [ServerWorld.connectionList, List.mem_insertionSort]

theorem nodup_connectionList : w.connectionList.Nodup := by
  rw [ServerWorld.connectionList, (List.perm_insertionSort _ _).nodup_iff]
  exact List.nodup_range.filter _

/-- A `connectDestroyed` for each connection of a list that meets `P`. -/
def destroyEach (P : Nat → Prop) [DecidablePred P] (cs : List Nat) : List ServerAct :=
  cs.flatMap fun c => if P c then [.conn c .connectDestroyed] else []

theorem mem_destroyEach {P : Nat → Prop} [DecidablePred P] {cs : List Nat} {a : ServerAct} :
    a ∈ destroyEach P cs ↔ ∃ c ∈ cs, P c ∧ a = .conn c .connectDestroyed := by
  simp only [destroyEach, List.mem_flatMap, List.mem_ite_nil_right, List.mem_singleton]

theorem callsOf_destroyEach {P : Nat → Prop} [DecidablePred P] {cs : List Nat} (h : cs.Nodup) :
    callsOf c (destroyEach P cs) = if c ∈ cs ∧ P c then [.connectDestroyed] else [] := by
  induction cs with
  | nil => rfl
  | cons d cs ih =>
      obtain ⟨hd, hcs⟩ := List.nodup_cons.mp h
      rw [destroyEach, List.flatMap_cons, callsOf_append, ← destroyEach, ih hcs]
      by_cases hdc : d = c
      · subst hdc
        by_cases hP : P d <;> simp [hd, hP]
      · have hnone : callsOf c (if P d then [ServerAct.conn d .connectDestroyed] else []) = [] := by
          split
          · exact callsOf_map_ne hdc [.connectDestroyed]
          · rfl
        simp [hnone, Ne.symm hdc]

theorem removalsOf_destroyEach {P : Nat → Prop} [DecidablePred P] (cs : List Nat) :
    removalsOf c (destroyEach P cs) = 0 := by
  rw [removalsOf, List.countP_eq_zero]
  intro a ha
  obtain ⟨d, -, -, rfl⟩ := mem_destroyEach.mp ha
  simp [ServerAct.removes]

theorem destroyServer_calls :
    w.destroyServer.calls = destroyEach (fun c => (w.conns c).loop = 0) w.connectionList := by
  simp only [ServerWorld.destroyServer, destroyEach, List.flatMap_map]
  congr 1
  funext c
  by_cases hl : (w.conns c).loop = 0
  · simp [runInLoop, hl, ServerFunctor.body, ConnFunctor.body]
  · simp [runInLoop, hl, Ne.symm hl]

theorem destroyServer_queued (l : LoopId n) :
    (queuedTo l w.destroyServer.queued).flatMap ServerFunctor.body =
      destroyEach (fun c => (w.conns c).loop ≠ 0 ∧ (w.conns c).loop = l) w.connectionList := by
  simp only [ServerWorld.destroyServer, destroyEach]
  induction w.connectionList with
  | nil => rfl
  | cons d cs ih =>
      rw [List.map_cons, List.flatMap_cons, queuedTo_append, List.flatMap_append, ih,
        List.flatMap_cons]
      congr 1
      by_cases hl : (w.conns d).loop = 0
      · simp [runInLoop, hl]
      · by_cases hl' : (w.conns d).loop = l
        · rw [hl'] at hl
          simp [runInLoop, hl, Ne.symm hl, queuedTo, hl', ServerFunctor.body, ConnFunctor.body]
        · simp [runInLoop, hl, Ne.symm hl, queuedTo, hl']

/-- What is to come after `~TcpServer`. -/
theorem destroyServer_work (htodo : (s.loops 0).todo = []) (l : LoopId n) :
    (s.afterCall 0 [] s.world.destroyServer).work (serverApp n cfg) l =
      (if l = 0 then destroyEach (fun c => (s.world.conns c).loop = 0) s.world.connectionList
        else []) ++ s.work (serverApp n cfg) l ++
      destroyEach (fun c => (s.world.conns c).loop ≠ 0 ∧ (s.world.conns c).loop = l)
        s.world.connectionList := by
  rw [← destroyServer_queued l]
  simp only [Process.work, Process.afterCall, queueAll_apply, EventLoop.work]
  by_cases hl : l = 0
  · subst hl
    simp [htodo, destroyServer_calls, serverApp]
  · simp [hl, serverApp]

end Destructor

end Reactor
