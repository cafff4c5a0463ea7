import Reactor.ServerLifetime

/-!
# Sends queued by foreign threads

`TcpConnection::send` on a foreign thread binds the raw `this` into the functor it queues.
`connectDestroyed` and the write-complete callback are bound to a `shared_ptr` instead. What
keeps the connection while the functor waits is the batch of `connectDestroyed`, if the
functor was queued before that batch was swapped out, or a reference that a thread still has.

* `Stranded` - a queued send of a connection that nothing of the server will keep until it
  has run.
* `queued_send_outlives_connection` - a thread can drop the last reference then.
* `queued_send_alive` - in runs in which no thread does, the connection exists whenever its
  loop runs the functor.
-/

namespace Reactor

open Reactor.Lib

variable {n : Nat} {cfg : ServerConfig}

/-- A `sendInLoop` of connection `c` queued by a foreign thread. -/
def ServerFunctor.sends (c : Nat) : ServerFunctor → Bool
  | .conn c' (.sendInLoop _ _) => c' = c
  | _ => false

def ServerAct.sends (c : Nat) : ServerAct → Bool
  | .conn c' (.sendInLoop (.thread _) _) => c' = c
  | _ => false

/-- On its loop, a queued send of connection `c` waits behind the batch of
`connectDestroyed`: that batch has been swapped out and the send is still in the queue, or
the pass that ran it is over and the send is about to run. -/
def StrandedOn (c : Nat) (tr : List Obs) (lp : EventLoop ServerAct ServerFunctor) : Prop :=
  (.destroying ∈ tr ∨ .conn c .connectDestroyed ∈ lp.functors) ∧
      (∃ f ∈ lp.pendingFunctors, f.sends c = true) ∨
    (.destroying ∈ tr ∧ .conn c .connectDestroyed ∉ lp.functors) ∧
      ((∃ a ∈ lp.todo, a.sends c = true) ∨ ∃ f ∈ lp.functors.drop lp.i, f.sends c = true)

def Stranded (s : ServerProcess n) (c : Nat) : Prop :=
  StrandedOn c (s.world.conns c).trace (s.loops (s.world.conns c).loop)

/-- No thread drops the last reference that threads have to a connection while one of its
queued sends is stranded. -/
def KeepsReference (s : ServerProcess n) : ServerLabel n → Prop
  | .thread (.drop t) => ∀ c, s.world.threads t = .holding c → Stranded s c →
      ∃ t', t' ≠ t ∧ (s.world.threads t').ref = some c
  | _ => True

section Invariant

variable {s s' : ServerProcess n} {c : Nat}

/-- A send that is nowhere among the calls to come is not stranded. -/
theorem StrandedOn.mem_work {tr : List Obs} {lp : EventLoop ServerAct ServerFunctor}
    (h : StrandedOn c tr lp) :
    ∃ t m, .sendInLoop (.thread t) m ∈ callsOf c (lp.work ServerFunctor.body) := by
  have hfunctor : ∀ f, f ∈ lp.functors.drop lp.i ++ lp.pendingFunctors → f.sends c = true →
      ∃ t m, .sendInLoop (.thread t) m ∈ callsOf c (lp.work ServerFunctor.body) := by
    intro f hf hsend
    cases f with
    | conn d f =>
        cases f with
        | sendInLoop t m =>
            simp only [ServerFunctor.sends, decide_eq_true_eq] at hsend
            subst hsend
            refine ⟨t, .ofString m, mem_callsOf.mpr (List.mem_append_right _ ?_)⟩
            exact List.mem_flatMap.mpr ⟨_, hf, by simp [ServerFunctor.body, ConnFunctor.body]⟩
        | _ => cases hsend
    | removeConnectionInLoop d => cases hsend
  rcases h with ⟨-, f, hf, hsend⟩ | ⟨-, ⟨a, ha, hsend⟩ | ⟨f, hf, hsend⟩⟩
  · exact hfunctor f (List.mem_append_right _ hf) hsend
  · cases a with
    | conn d k =>
        cases k with
        | sendInLoop sender m =>
            cases sender with
            | loop => cases hsend
            | thread t =>
                simp only [ServerAct.sends, decide_eq_true_eq] at hsend
                subst hsend
                exact ⟨t, m, mem_callsOf.mpr (List.mem_append_left _ ha)⟩
        | _ => cases hsend
    | _ => cases hsend
  · exact hfunctor f (List.mem_append_left _ hf) hsend

/-- Only accepted connections have queued sends. -/
theorem StrandedOn.accepted {tr : List Obs} {l : LoopId n} (hc : StrandedOn c tr (s.loops l))
    (hinv : ServerInv s.world (s.work (serverApp n cfg))) : c < s.world.accepted := by
  obtain ⟨t, m, hmem⟩ := hc.mem_work
  exact (hinv.of_mem_callsOf hmem).1

/-- What is queued beside sends strands nothing. -/
theorem StrandedOn.of_queued {tr : List Obs} {lp lp' : EventLoop ServerAct ServerFunctor}
    {fs : List ServerFunctor} (h : StrandedOn c tr lp')
    (hpending : lp'.pendingFunctors = lp.pendingFunctors ++ fs)
    (hfunctors : lp'.functors = lp.functors) (hi : lp'.i = lp.i)
    (htodo : ∀ a ∈ lp'.todo, a.sends c = true → a ∈ lp.todo)
    (hfs : ∀ f ∈ fs, f.sends c = false) : StrandedOn c tr lp := by
  unfold StrandedOn at h
  rw [hpending, hfunctors, hi] at h
  rcases h with ⟨hdes, f, hf, hsend⟩ | ⟨hgone, ⟨a, ha, hsend⟩ | h⟩
  · rcases List.mem_append.mp hf with hf | hf
    · exact Or.inl ⟨hdes, f, hf, hsend⟩
    · cases (hfs f hf).symm.trans hsend
  · exact Or.inr ⟨hgone, Or.inl ⟨a, htodo a ha hsend, hsend⟩⟩
  · exact Or.inr ⟨hgone, Or.inr h⟩

theorem queuedTo_sends {l : LoopId n} {queued : List (LoopId n × ServerFunctor)}
    (h : ∀ q ∈ queued, q.2.sends c = false) : ∀ f ∈ queuedTo l queued, f.sends c = false := by
  intro f hf
  obtain ⟨q, hq, rfl⟩ := mem_queuedTo hf
  exact h q hq

theorem ServerAct.sends_of_isServer {a : ServerAct} (h : a.isServer = true) :
    a.sends c = false := by
  cases a with
  | conn d k => cases k <;> first | rfl | cases h
  | _ => rfl

theorem ServerFunctor.sends_of_isServer {f : ServerFunctor} (h : f.isServer = true) :
    f.sends c = false := by
  cases f with
  | conn d f => cases f <;> first | rfl | cases h
  | _ => rfl

section Call

variable {w : ServerWorld n} {work : LoopId n → List ServerAct} {l : LoopId n}
  {o : ServerOracle} {a : ServerAct} {e : ServerEffect n} {tail : List ServerAct}

/-- The calls of a loop's thread make no sends of foreign threads. -/
theorem ServerCall.calls_sends (h : ServerCall cfg w l o a e) (hinv : ServerInv w work)
    (hwork : work l = a :: tail) (c : Nat) : ∀ a' ∈ e.calls, a'.sends c = false := by
  intro a' ha'
  rcases h.calls_mem ha' with hserver | ⟨d, k, v, out, rfl, hcall, k', hk', rfl⟩
  · exact ServerAct.sends_of_isServer hserver
  · obtain ⟨-, -, hspec⟩ := hinv.callSpec hwork hcall
    cases k' with
    | sendInLoop sender message =>
        cases sender with
        | loop => rfl
        | thread t => exact absurd hk' (hspec.calls_sender t message)
    | _ => rfl

/-- They queue none either. -/
theorem ServerCall.queued_sends (h : ServerCall cfg w l o a e) (hinv : ServerInv w work)
    (hwork : work l = a :: tail) (c : Nat) : ∀ q ∈ e.queued, q.2.sends c = false := by
  intro q hq
  rcases h.queued_mem hq with hserver | ⟨d, k, v, out, rfl, hcall, f, hf, heq⟩
  · exact ServerFunctor.sends_of_isServer hserver
  · obtain ⟨-, -, hspec⟩ := hinv.callSpec hwork hcall
    rw [heq]
    cases f with
    | sendInLoop t m =>
        have hbody := hspec.queued_body (.sendInLoop (.thread t) (.ofString m))
          (List.mem_flatMap.mpr ⟨_, hf, List.mem_singleton_self _⟩)
        cases hbody
    | _ => rfl

/-- No call moves a connection to another loop, and only `connectDestroyed` begins to destroy
one. -/
theorem ServerCall.begins_destroying (h : ServerCall cfg w l o a e) (hinv : ServerInv w work)
    (hwork : work l = a :: tail) (hc : c < w.accepted) :
    (e.world.conns c).loop = (w.conns c).loop ∧
      (.destroying ∈ (e.world.conns c).trace → .destroying ∈ (w.conns c).trace ∨
        a = .conn c .connectDestroyed) := by
  cases h with
  | newConnection sockfd =>
      simp only [ServerWorld.newConnection, Function.update_of_ne (Nat.ne_of_lt hc)]
      exact ⟨trivial, Or.inl⟩
  | @conn d k v out hl hcall =>
      obtain ⟨-, -, hspec⟩ := hinv.callSpec hwork hcall
      by_cases hcd : c = d
      · subst hcd
        simp only [ServerWorld.setView, noteCurrent_conns, Function.update_self, List.mem_append]
        refine ⟨trivial, Or.imp_right fun hmem => ?_⟩
        rw [hspec.life.destroys.2.2 ((mem_life rfl).mpr hmem)]
      · simp only [ServerWorld.setView, noteCurrent_conns, Function.update_of_ne hcd]
        exact ⟨trivial, Or.inl⟩
  | @removeConnectionInLoop d hl _ =>
      by_cases hcd : c = d
      · subst hcd
        simp [ServerWorld.observe]
      · simp only [ServerWorld.observe, Function.update_of_ne hcd]
        exact ⟨trivial, Or.inl⟩
  | _ => exact ⟨rfl, Or.inl⟩

end Call

theorem stranded_held_call {ok : ServerProcess n → ServerLabel n → Prop} {l₀ : LoopId n}
    {o : ServerOracle} {a : ServerAct} {rest : List ServerAct} {e : ServerEffect n}
    (htodo : (s.loops l₀).todo = a :: rest) (hcall : (serverApp n cfg).call l₀ a o s.world = .ok e)
    (hr : (serverApp n cfg).system.ReachableBy ok s)
    (hheld : ∀ c, Stranded s c → Held s.world c) (hstr : Stranded (s.afterCall l₀ rest e) c) :
    Held (s.afterCall l₀ rest e).world c := by
  have hinv := reachable_serverInv hr
  obtain ⟨tail, hwork⟩ := Process.work_of_todo (serverApp n cfg) htodo
  have hspec := serverCall hcall
  have hcalls := hspec.calls_sends hinv hwork c
  have hqueued := hspec.queued_sends hinv hwork c
  -- the calls and functors of the call are no queued sends, so the send was there before
  have hold : StrandedOn c (e.world.conns c).trace (s.loops (e.world.conns c).loop) := by
    simp only [Stranded, Process.afterCall, queueAll_apply] at hstr
    by_cases hl : (e.world.conns c).loop = l₀
    · rw [hl, Function.update_self] at hstr
      rw [hl]
      refine hstr.of_queued rfl rfl rfl (fun a' ha' hsend => ?_) (queuedTo_sends hqueued)
      rw [htodo]
      rcases List.mem_append.mp ha' with ha' | ha'
      · cases (hcalls a' ha').symm.trans hsend
      · exact List.mem_cons_of_mem _ ha'
    · rw [Function.update_of_ne hl] at hstr
      exact hstr.of_queued rfl rfl rfl (fun _ ha' _ => ha') (queuedTo_sends hqueued)
  obtain ⟨hloop, hdestroying⟩ := hspec.begins_destroying hinv hwork (hold.accepted hinv)
  have hlink : a = .conn c .connectDestroyed →
      .conn c .connectDestroyed ∈ (s.loops (s.world.conns c).loop).functors := by
    rintro rfl
    have hl : l₀ = (s.world.conns c).loop := by
      cases hspec with
      | conn hl => exact hl
    rw [← hl]
    exact reachable_linked hr l₀ c (Or.inl (by simp [htodo]))
  have hstr₀ : Stranded s c := by
    unfold Stranded
    rw [← hloop]
    rcases hold with ⟨hdes, hsend⟩ | ⟨⟨hdes, hnot⟩, hsend⟩
    · refine Or.inl ⟨?_, hsend⟩
      rcases hdes with hdes | hdes
      · exact (hdestroying hdes).imp_right fun ha => hloop ▸ hlink ha
      · exact Or.inr hdes
    · refine Or.inr ⟨⟨?_, hnot⟩, hsend⟩
      rcases hdestroying hdes with hdes | ha
      · exact hdes
      · exact absurd (hloop ▸ hlink ha) hnot
  obtain ⟨t, ht⟩ := hheld c hstr₀
  exact ⟨t, by simpa [Process.afterCall, hspec.threads] using ht⟩

/-- A thread that sets its state to one with the same reference keeps it. -/
theorem Held.setThread {w : ServerWorld n} {t : Nat} {state : ThreadState} (h : Held w c)
    (href : (w.threads t).ref = some c → state.ref = some c) :
    Held (w.setThread t state) c := by
  obtain ⟨t', ht'⟩ := h
  refine ⟨t', ?_⟩
  by_cases ht : t' = t
  · subst ht
    simpa [ServerWorld.setThread] using href ht'
  · simpa [ServerWorld.setThread, Function.update_of_ne ht] using ht'

theorem stranded_held_thread {t : ServerThread}
    {out : ServerWorld n × List (LoopId n × ServerFunctor)} (hspec : ThreadSpec s.world t out)
    (hok : KeepsReference s (.thread t)) (hheld : ∀ c, Stranded s c → Held s.world c)
    (hstr : Stranded (s.afterThread out) c) : Held (s.afterThread out).world c := by
  obtain ⟨-, -, -, -, hconns⟩ := hspec.frame
  -- unless the thread queues a send of this connection, the send was there before
  have hbefore : (∀ q ∈ out.2, q.2.sends c = false) → Stranded s c := by
    intro hqueued
    have hold : StrandedOn c (out.1.conns c).trace (s.loops (out.1.conns c).loop) := by
      simp only [Stranded, Process.afterThread, queueAll_apply] at hstr
      exact hstr.of_queued rfl rfl rfl (fun _ ha _ => ha) (queuedTo_sends hqueued)
    obtain ⟨-, hloop, hobs⟩ := hconns c
    have hdes := hobs .destroying rfl
    unfold StrandedOn at hold
    rw [hloop, hdes] at hold
    exact hold
  cases hspec with
  | acquire hidle =>
      exact (hheld c (hbefore (by simp))).setThread fun href => by rw [hidle] at href; cases href
  | copy hidle =>
      exact (hheld c (hbefore (by simp))).setThread fun href => by rw [hidle] at href; cases href
  | @sendPassed t d m s' hhold =>
      have hkeep : Held (s.world.setThread t (.checked d s')) c :=
        (hheld c (hbefore (by simp))).setThread fun href => by rw [hhold] at href; exact href
      exact hkeep
  | sendRefused => exact hheld c (hbefore (by simp))
  | @sendQueue t d m hchecked =>
      by_cases hd : d = c
      · subst hd
        exact ⟨t, by simp [Process.afterThread, ServerWorld.setThread, ThreadState.ref]⟩
      · exact (hheld c (hbefore (by simp [ServerFunctor.sends, hd]))).setThread
          fun href => by rw [hchecked] at href; exact href
  | @drop t d hhold =>
      have hstr₀ := hbefore (by simp)
      obtain ⟨t', ht'⟩ := hheld c hstr₀
      by_cases ht : t' = t
      · subst ht
        have hd : d = c := by
          rw [hhold] at ht'
          exact Option.some.inj ht'
        subst hd
        obtain ⟨t'', hne, ht''⟩ := hok d hhold hstr₀
        exact ⟨t'', by simpa [Process.afterThread, ServerWorld.setThread,
          Function.update_of_ne hne] using ht''⟩
      · exact ⟨t', by simpa [Process.afterThread, ServerWorld.setThread,
          Function.update_of_ne ht] using ht'⟩
  | queueInLoop => exact hheld c (hbefore (by simp [ServerFunctor.sends]))

/-- In every state of such a run a thread has a reference to every connection that has a
stranded send. -/
theorem Steps.stranded_held {label : ServerLabel n} (h : Steps (serverApp n cfg) s label s')
    (hr : (serverApp n cfg).system.ReachableBy KeepsReference s) (hok : KeepsReference s label)
    (hheld : ∀ c, Stranded s c → Held s.world c) (c : Nat) (hstr : Stranded s' c) :
    Held s'.world c := by
  have hidle := reachable_idle hr
  -- a step of `loop()` itself strands nothing
  have hset : ∀ l₀ lp, s' = s.setLoop l₀ lp →
      (∀ tr, StrandedOn c tr lp → StrandedOn c tr (s.loops l₀)) → Held s'.world c := by
    rintro l₀ lp rfl hlp
    apply hheld c
    unfold Stranded at hstr ⊢
    by_cases hl : (s.world.conns c).loop = l₀
    · simp only [Process.setLoop, hl, Function.update_self] at hstr
      exact hl ▸ hlp _ hstr
    · simpa only [Process.setLoop, Function.update_of_ne hl] using hstr
  cases h with
  | start l₀ => exact hset l₀ _ rfl fun _ h => h
  | test l₀ => exact hset l₀ _ rfl fun _ h => h
  | poll l₀ active hph hready =>
      refine hset l₀ _ rfl fun tr h => ?_
      obtain ⟨evs, rfl, -⟩ := ready_cases hready
      rcases h with h | ⟨hgone, ⟨a, ha, hsend⟩ | h⟩
      · exact Or.inl h
      · cases List.mem_singleton.mp ha
        cases hsend
      · exact Or.inr ⟨hgone, Or.inr h⟩
  | @call l₀ o a rest e htodo hcall => exact stranded_held_call htodo hcall hr hheld hstr
  | handled l₀ => exact hset l₀ _ rfl fun _ h => h
  | swap l₀ hph =>
      refine hset l₀ _ rfl fun tr h => ?_
      have hnil := hidle l₀ (Or.inr (Or.inr hph))
      rcases h with ⟨-, f, hf, -⟩ | ⟨hgone, ⟨a, ha, -⟩ | ⟨f, hf, hsend⟩⟩
      · cases hf
      · simp [hnil] at ha
      · exact Or.inl ⟨Or.inl hgone.1, f, hf, hsend⟩
  | @functor l₀ cb hph htodo hcb =>
      refine hset l₀ _ rfl fun tr h => ?_
      obtain ⟨hlt, hget⟩ := List.getElem?_eq_some_iff.mp hcb
      have hdrop := List.drop_eq_getElem_cons hlt
      rw [hget] at hdrop
      rcases h with h | ⟨hgone, ⟨a, ha, hsend⟩ | ⟨f, hf, hsend⟩⟩
      · exact Or.inl h
      · -- the send that starts was the next functor of the batch
        refine Or.inr ⟨hgone, Or.inr ⟨cb, by simp [hdrop], ?_⟩⟩
        cases cb with
        | conn d f =>
            cases f <;> simp_all [serverApp, ServerFunctor.body, ConnFunctor.body,
              ServerAct.sends, ServerFunctor.sends]
        | removeConnectionInLoop d =>
            simp only [serverApp, ServerFunctor.body, List.mem_singleton] at ha
            subst ha
            cases hsend
      · exact Or.inr ⟨hgone, Or.inr ⟨f, by simp [hdrop, hf], hsend⟩⟩
  | passed l₀ hph htodo hlen =>
      refine hset l₀ _ rfl fun tr h => ?_
      rcases h with ⟨hdes | hdes, h⟩ | ⟨-, ⟨a, ha, -⟩ | ⟨f, hf, -⟩⟩
      · exact Or.inl ⟨Or.inl hdes, h⟩
      · cases hdes
      · simp [htodo] at ha
      · simp at hf
  | @thread t out hthread => exact stranded_held_thread (threadSpec hthread) hok hheld hstr
  | quit l₀ => exact hset l₀ _ rfl fun _ h => h

theorem reachable_stranded_held
    (h : (serverApp n cfg).system.ReachableBy KeepsReference s) (c : Nat) (hstr : Stranded s c) :
    Held s.world c := by
  refine h.invariant (P := fun s => ∀ c, Stranded s c → Held s.world c) ?_ ?_ c hstr
  · intro s hinit c hstr
    obtain ⟨t, m, hmem⟩ := hstr.mem_work
    have hwork := init_work hinit (s.world.conns c).loop
    change _ ∈ callsOf c (s.work (serverApp n cfg) _) at hmem
    rcases hwork with hwork | hwork <;> simp [hwork, callsOf, ServerAct.callOf] at hmem
  · intro s label s' hr hok hheld hnext c hstr'
    exact (next_iff_steps.mp hnext).stranded_held hr hok hheld c hstr'

/-- **A queued send has its connection, as far as it goes.** In every run in which no thread
drops its last reference to a connection while a queued send of it is stranded: whenever a
loop runs a queued `sendInLoop`, at least one strong reference to the connection exists. -/
theorem queued_send_alive (cfg : ServerConfig)
    (h : (serverApp n cfg).system.ReachableBy KeepsReference s)
    (hfew : s.world.accepted < 2 ^ 31) {l : LoopId n} {t : Nat} {message : StringPiece}
    {rest : List ServerAct}
    (htodo : (s.loops l).todo = .conn c (.sendInLoop (.thread t) message) :: rest) :
    Alive s c := by
  have hinv := reachable_serverInv h
  obtain ⟨tail, hwork⟩ := Process.work_of_todo (serverApp n cfg) htodo
  have hmem : .sendInLoop (.thread t) message ∈ callsOf c (s.work (serverApp n cfg) l) :=
    mem_callsOf.mpr (by simp [hwork])
  obtain ⟨hc, hl⟩ := hinv.of_mem_callsOf hmem
  have hlife := hinv.life hc
  by_cases hdestroying : .destroying ∈ (s.world.conns c).trace
  · by_cases hfunctor : .conn c .connectDestroyed ∈ (s.loops l).functors
    · exact Or.inl (owned_of_functor (List.mem_append_left _ hfunctor))
    · refine Or.inr (reachable_stranded_held h c (Or.inr ⟨⟨hdestroying, hl ▸ hfunctor⟩, Or.inl ?_⟩))
      exact ⟨_, by rw [← hl, htodo]; exact List.mem_cons_self, by simp [ServerAct.sends]⟩
  · -- `connectDestroyed` has not begun, let alone finished
    refine Or.inl (owned_of_not_destroyed h hfew hc fun hdestroyed => hdestroying ?_)
    obtain ⟨g, htrace, -⟩ := hlife.stage
    simp only [share] at htrace
    rw [← mem_life rfl, htrace] at hdestroyed ⊢
    cases g <;> simp_all [Stage.life]

end Invariant

/-! ### Runs -/

/-- The labels of a run whose only foreign thread is thread 1. -/
def ServerThread.isOne : ServerThread → Bool
  | .acquire t _ => t = 1
  | .copy t _ => t = 1
  | _ => true

def OnlyThreadOne (_ : ServerProcess n) : ServerLabel n → Prop
  | .thread t => t.isOne = true
  | _ => True

theorem only_thread_one {s : ServerProcess n}
    (h : (serverApp n cfg).system.ReachableBy OnlyThreadOne s) {t : Nat} (ht : t ≠ 1) :
    s.world.threads t = .idle := by
  refine progress_invariant (P := fun w _ => ∀ t, t ≠ 1 → w.threads t = .idle) h ?_ ?_ t ht
  · intro s hinit t _
    obtain ⟨fd, hw⟩ := hinit.1.1
    rw [hw]
    rfl
  · intro s label w' work' hr hok hidle hprog t ht
    cases hprog with
    | silent => exact hidle t ht
    | poll => exact hidle t ht
    | call hwork hcall =>
        rw [(serverCall hcall).threads]
        exact hidle t ht
    | thread hthread =>
        have hset : ∀ t' state, t' = 1 → (s.world.setThread t' state).threads t = .idle := by
          rintro t' state rfl
          simpa [ServerWorld.setThread, Function.update_of_ne ht] using hidle t ht
        have hbusy : ∀ t', s.world.threads t' ≠ .idle → t' = 1 := by
          intro t' hne
          by_contra hnot
          exact hne (hidle t' hnot)
        cases threadSpec hthread with
        | acquire => exact hset _ _ (by simpa [OnlyThreadOne, ServerThread.isOne] using hok)
        | copy => exact hset _ _ (by simpa [OnlyThreadOne, ServerThread.isOne] using hok)
        | sendPassed hhold => exact hset _ _ (hbusy _ (by simp [hhold]))
        | sendRefused => exact hidle t ht
        | sendQueue hchecked => exact hset _ _ (hbusy _ (by simp [hchecked]))
        | drop hhold => exact hset _ _ (hbusy _ (by simp [hhold]))
        | queueInLoop => exact hidle t ht

/-- The server without workers starts, accepts a connection and establishes it; thread 1
takes a reference to it and passes the check of `send`. -/
def checkedRun : List (ServerLabel 0) :=
  [.call 0 .quiet, .start 0, .test 0, .poll 0 [.handleActiveChannels [(none, POLLIN)]],
    .call 0 .quiet, .call 0 .quiet, .call 0 { ServerOracle.quiet with accept := some 7 },
    .call 0 .quiet, .call 0 .quiet, .call 0 .quiet, .thread (.acquire 1 0),
    .thread (.sendCheck 1 (.piece ⟨[104, 105], by decide⟩))]

/-- The peer closes; the connection is closed, erased and destroyed. -/
def destroyedRun : List (ServerLabel 0) :=
  [.handled 0, .swap 0, .passed 0, .test 0, .poll 0 [.handleActiveChannels [(some 0, POLLIN)]],
    .call 0 .quiet, .call 0 .quiet, .call 0 { ServerOracle.quiet with read := .deliver [] },
    .call 0 .quiet, .call 0 .quiet, .call 0 .quiet, .call 0 .quiet, .call 0 .quiet, .handled 0,
    .swap 0, .functor 0, .call 0 .quiet, .call 0 .quiet]

/-- The pass ends; after the next event the loop starts the functor that was queued. -/
def lateSendRun : List (ServerLabel 0) :=
  [.passed 0, .test 0, .poll 0 [.handleActiveChannels [(none, POLLIN)]], .call 0 .quiet,
    .call 0 .quiet, .call 0 .quiet, .call 0 .quiet, .handled 0, .swap 0, .functor 0]

def startsSend (s : ServerProcess 0) : Bool :=
  match (s.loops 0).todo with
  | .conn 0 (.sendInLoop (.thread 1) _) :: _ => true
  | _ => false

theorem startsSend_todo {s : ServerProcess 0} (h : startsSend s = true) :
    ∃ message rest, (s.loops 0).todo = .conn 0 (.sendInLoop (.thread 1) message) :: rest := by
  unfold startsSend at h
  split at h
  · rename_i message rest htodo
    exact ⟨message, rest, htodo⟩
  · cases h

/-- Thread 1 queues its functor when `connectDestroyed` has run, and drops its reference. The
next pass runs the functor on a connection that nobody has a reference to. -/
theorem queued_send_outlives_connection :
    ∃ s, (serverApp 0 mainConfig).system.Reachable s ∧ s.world.accepted = 1 ∧
      (∃ message rest,
        (s.loops 0).todo = .conn 0 (.sendInLoop (.thread 1) message) :: rest) ∧
      ¬ Alive s 0 := by
  have honly : ∀ (label : ServerLabel 0) (s : ServerProcess 0),
      (match label with
        | .thread t => t.isOne
        | _ => true) = true → OnlyThreadOne s label := by
    intro label s htest
    cases label <;> simp_all [OnlyThreadOne]
  obtain ⟨s, hs, hp⟩ := System.exists_reachableBy_of_replay (serverApp 0 mainConfig).system
    (fun _ label => match label with
      | .thread t => t.isOne
      | _ => true)
    (checkedRun ++ destroyedRun ++ [.thread (.sendQueue 1), .thread (.drop 1)] ++ lateSendRun)
    (serverStart 0)
    (fun s => s.world.accepted == 1 && startsSend s &&
      decide (.erased ∈ (s.world.conns 0).trace) && decide (s.world.threads 1 = .idle) &&
      !((s.loops 0).functors ++ (s.loops 0).pendingFunctors).any (ServerFunctor.holds 0) &&
      !(s.loops 0).todo.any (ServerAct.holds 0))
    (serverStart_init 0) (fun label _ s _ => honly label s) (by decide +kernel)
  simp only [Bool.and_eq_true, beq_iff_eq, decide_eq_true_eq, Bool.not_eq_true',
    List.any_eq_false] at hp
  obtain ⟨⟨⟨⟨⟨hacc, hstart⟩, herased⟩, hthread⟩, hfunctors⟩, htodo⟩ := hp
  refine ⟨s, hs.reachable, hacc, startsSend_todo hstart, ?_⟩
  rintro ((⟨name, hname⟩ | ⟨l, f, hf, hholds⟩ | ⟨l, a, ha, hholds⟩) | ⟨t, ht⟩)
  · have hmap := (reachable_mapInv hs).map (by rw [hacc]; decide) name 0
    exact (hmap.mp hname).2.2 herased
  · obtain rfl : l = 0 := Fin.fin_one_eq_zero l
    exact hfunctors f hf hholds
  · obtain rfl : l = 0 := Fin.fin_one_eq_zero l
    exact htodo a ha hholds
  · have hidle : s.world.threads t = .idle := by
      by_cases h1 : t = 1
      · rw [h1, hthread]
      · exact only_thread_one hs h1
    rw [hidle] at ht
    cases ht

/-- A test for runs in which references are dropped only while the connection is not destroyed
and nothing is queued in its loop. -/
def dropsEarly (s : ServerProcess 0) : ServerLabel 0 → Bool
  | .thread (.drop t) =>
      match s.world.threads t with
      | .holding c => !decide (.destroying ∈ (s.world.conns c).trace) &&
          (s.loops (s.world.conns c).loop).functors.isEmpty
      | _ => true
  | _ => true

theorem dropsEarly_keepsReference {label : ServerLabel 0} {s : ServerProcess 0}
    (htest : dropsEarly s label = true) : KeepsReference s label := by
  unfold KeepsReference
  split
  · intro c hhold hstr
    simp only [dropsEarly, hhold, Bool.and_eq_true, Bool.not_eq_true', decide_eq_false_iff_not,
      List.isEmpty_iff] at htest
    rcases hstr with ⟨hdes | hdes, -⟩ | ⟨⟨hdes, -⟩, -⟩
    · exact absurd hdes htest.1
    · simp [htest.2] at hdes
    · exact absurd hdes htest.1
  · trivial

/-- Thread 1 queues its functor and drops its reference while the connection is open: the
functor runs, and the server still has the connection. -/
theorem queued_send_alive_open :
    ∃ s, (serverApp 0 mainConfig).system.ReachableBy KeepsReference s ∧
      s.world.accepted < 2 ^ 31 ∧ (∃ message rest,
        (s.loops 0).todo = .conn 0 (.sendInLoop (.thread 1) message) :: rest) ∧ Alive s 0 := by
  obtain ⟨s, hs, hp⟩ := System.exists_reachableBy_of_replay (serverApp 0 mainConfig).system
    dropsEarly
    (checkedRun ++ [.thread (.sendQueue 1), .thread (.drop 1), .handled 0, .swap 0, .functor 0])
    (serverStart 0)
    (fun s => s.world.accepted == 1 && startsSend s)
    (serverStart_init 0) (fun _ _ _ _ => dropsEarly_keepsReference) (by decide +kernel)
  simp only [Bool.and_eq_true, beq_iff_eq] at hp
  have hfew : s.world.accepted < 2 ^ 31 := by
    rw [hp.1]
    decide
  obtain ⟨message, rest, htodo⟩ := startsSend_todo hp.2
  exact ⟨s, hs, hfew, ⟨message, rest, htodo⟩, queued_send_alive mainConfig hs hfew htodo⟩

end Reactor
