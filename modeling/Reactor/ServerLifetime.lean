import Reactor.ConnectionLife

/-!
# The registry of a server and the lifetime of its connections

* `connName_injective` - the names of the first `2^31 - 1` connections differ.
* `MapInv`, `reachable_mapInv` - the map holds exactly the accepted connections that have
  not been erased.
* `Linked`, `reachable_linked` - while `connectDestroyed` runs, its functor is in the batch.
* `connection_lifetime` - each connection is established once, before its events, and
  destroyed at most once, after it was closed and erased, on its own loop; the map is exact;
  until `connectDestroyed` has finished someone in the server holds a reference.
-/

namespace Reactor

open Reactor.Lib

variable {n : Nat} {cfg : ServerConfig}

/-! ### Names -/

/-- The suffix of a name fits into the buffer of `snprintf`. -/
theorem suffix_eq (cfg : ServerConfig) {id : Nat} (h : id < 2 ^ 31) :
    cfg.suffix id = '-' :: cfg.ipPort ++ '#' :: Nat.toDigits 10 id := by
  have hdigits : (Nat.toDigits 10 id).length ≤ 10 :=
    (Nat.length_toDigits_le_iff (by decide) (by decide)).mpr (Nat.lt_trans h (by decide))
  have hport := cfg.ipPort_length
  apply List.take_of_length_le
  simp only [List.length_append, List.length_cons]
  omega

theorem connName_injective (cfg : ServerConfig) {id id' : Nat} (h : id < 2 ^ 31)
    (h' : id' < 2 ^ 31) (heq : cfg.connName id = cfg.connName id') : id = id' := by
  have hsuffix : cfg.suffix id = cfg.suffix id' := List.append_cancel_left heq
  rw [suffix_eq cfg h, suffix_eq cfg h'] at hsuffix
  have hdigits := List.append_cancel_left hsuffix
  rw [List.cons.injEq] at hdigits
  rw [← Nat.ofDigitChars_ten_toDigits (n := id), hdigits.2, Nat.ofDigitChars_ten_toDigits]

/-! ### The map -/

/-- `_connections` holds exactly the accepted connections that have not been erased, as
long as ids fit into an `int`. -/
structure MapInv (cfg : ServerConfig) (w : ServerWorld n) : Prop where
  next : w.nextConnId = w.accepted + 1
  name : ∀ c, c < w.accepted → (w.conns c).name = cfg.connName (c + 1)
  map : w.accepted < 2 ^ 31 → ∀ name c, w.connections name = some c ↔
    c < w.accepted ∧ name = (w.conns c).name ∧ .erased ∉ (w.conns c).trace

section Map

variable {w w' : ServerWorld n} {work work' : LoopId n → List ServerAct} {l : LoopId n} {c d : Nat}

/-- A step that changes neither the map nor the names and erases nothing. -/
theorem MapInv.frame (h : MapInv cfg w) (hnext : w'.nextConnId = w.nextConnId)
    (hacc : w'.accepted = w.accepted) (hmap : w'.connections = w.connections)
    (hname : ∀ c, (w'.conns c).name = (w.conns c).name)
    (herased : ∀ c, .erased ∈ (w'.conns c).trace ↔ .erased ∈ (w.conns c).trace) :
    MapInv cfg w' := by
  refine ⟨by rw [hnext, hacc, h.next], fun c hc => ?_, fun hfew name c => ?_⟩
  · rw [hname, h.name c (hacc ▸ hc)]
  · rw [hmap, hacc, hname, herased]
    exact h.map (hacc ▸ hfew) name c

/-- Two accepted connections of one name are the same. -/
theorem MapInv.name_injective (h : MapInv cfg w) (hfew : w.accepted < 2 ^ 31)
    (hc : c < w.accepted) (hd : d < w.accepted) (heq : (w.conns c).name = (w.conns d).name) :
    c = d := by
  rw [h.name c hc, h.name d hd] at heq
  have hid : c + 1 = d + 1 := connName_injective cfg (by omega) (by omega) heq
  omega

theorem MapInv.newConnection (h : MapInv cfg w) (l : LoopId n) (sockfd : Int) :
    MapInv cfg (w.newConnection cfg l sockfd).world := by
  have hold : ∀ c, c < w.accepted →
      (w.newConnection cfg l sockfd).world.conns c = w.conns c := by
    intro c hc
    simp [ServerWorld.newConnection, Function.update_of_ne (Nat.ne_of_lt hc)]
  have hnew : (w.newConnection cfg l sockfd).world.conns w.accepted =
      ⟨.create sockfd true, w.getNextLoop.1, cfg.connName w.nextConnId, []⟩ := by
    simp [ServerWorld.newConnection]
  have hacc : (w.newConnection cfg l sockfd).world.accepted = w.accepted + 1 := rfl
  refine ⟨by simp [ServerWorld.newConnection, h.next], fun c hc => ?_, fun hfew name c => ?_⟩
  · rw [hacc] at hc
    rcases Nat.lt_succ_iff_lt_or_eq.mp hc with hc | rfl
    · rw [hold c hc, h.name c hc]
    · rw [hnew, h.next]
  · rw [hacc] at hfew ⊢
    have hmap := h.map (by omega)
    change Function.update w.connections (cfg.connName w.nextConnId) (some w.accepted) name =
      some c ↔ _
    rw [Function.update_apply]
    split
    · rename_i hname
      constructor
      · intro heq
        cases heq
        exact ⟨by omega, by rw [hnew]; exact hname, by rw [hnew]; simp⟩
      · rintro ⟨hc, hcn, -⟩
        rcases Nat.lt_succ_iff_lt_or_eq.mp hc with hc | rfl
        · -- an earlier connection has an earlier id
          rw [hold c hc, h.name c hc, hname, h.next] at hcn
          have hid := connName_injective cfg (by omega) (by omega) hcn
          omega
        · rfl
    · rename_i hname
      rw [hmap]
      constructor
      · rintro ⟨hc, hcn, he⟩
        rw [hold c hc]
        exact ⟨by omega, hcn, he⟩
      · rintro ⟨hc, hcn, he⟩
        rcases Nat.lt_succ_iff_lt_or_eq.mp hc with hc | rfl
        · rw [hold c hc] at hcn he
          exact ⟨hc, hcn, he⟩
        · rw [hnew] at hcn
          exact absurd hcn hname

theorem MapInv.erase (h : MapInv cfg w) (hd : d < w.accepted) :
    MapInv cfg (ServerWorld.observe
      { w with connections := Function.update w.connections (w.conns d).name none } d
        [.erased]) := by
  have hself : ∀ c, c ≠ d → Function.update w.conns d
      { w.conns d with trace := (w.conns d).trace ++ [.erased] } c = w.conns c :=
    fun c hc => Function.update_of_ne hc _ _
  refine ⟨h.next, fun c hc => ?_, fun hfew name c => ?_⟩
  · by_cases hcd : c = d
    · subst hcd
      simpa [ServerWorld.observe] using h.name c hc
    · simp only [ServerWorld.observe, hself c hcd]
      exact h.name c hc
  · have hmap := h.map hfew
    simp only [ServerWorld.observe, Function.update_apply w.connections]
    by_cases hcd : c = d
    · subst hcd
      simp only [Function.update_self, List.mem_append, List.mem_singleton, or_true,
        not_true_eq_false, and_false, iff_false]
      split
      · simp
      · rename_i hname
        intro heq
        exact hname ((hmap name c).mp heq).2.1
    · rw [hself c hcd]
      split
      · rename_i hname
        constructor
        · intro heq
          cases heq
        · rintro ⟨hc, hcn, -⟩
          exact absurd (h.name_injective hfew hc hd (hcn.symm.trans hname)) hcd
      · exact hmap name c

theorem Progress.mapInv {label : ServerLabel n}
    (hprog : Progress (serverApp n cfg) w work label w' work') (hinv : ServerInv w work)
    (h : MapInv cfg w) : MapInv cfg w' := by
  cases hprog with
  | silent => exact h
  | poll => exact h
  | thread hthread =>
      obtain ⟨-, hacc, hnext, hmap, hconns⟩ := (threadSpec hthread).frame
      exact h.frame hnext hacc hmap (fun c => (hconns c).1) fun c => (hconns c).2.2 _ rfl
  | call hwork hcall =>
      cases serverCall hcall with
      | newConnection sockfd => exact h.newConnection _ sockfd
      | @conn d k v out hl hconn =>
          obtain ⟨-, -, hspec⟩ := hinv.callSpec hwork hconn
          have hnot : .erased ∉ out.obs := fun hmem =>
            hspec.life.not_erased ((mem_life rfl).mpr hmem)
          refine h.frame (by simp [ServerWorld.setView]) (by simp [ServerWorld.setView])
            (by simp [ServerWorld.setView]) (fun c => ?_) fun c => ?_
          · by_cases hcd : c = d
            · subst hcd
              simp [ServerWorld.setView]
            · simp [ServerWorld.setView, Function.update_of_ne hcd]
          · by_cases hcd : c = d
            · subst hcd
              simp [ServerWorld.setView, hnot]
            · simp [ServerWorld.setView, Function.update_of_ne hcd]
      | @removeConnectionInLoop d hl _ =>
          apply h.erase
          by_contra hd
          have hnone := ((hinv.ok d).blank (by simpa [share] using hd)).removals 0
          subst hl
          simp only [share, hwork, removalsOf_self] at hnone
          omega
      | _ => exact h.frame rfl rfl rfl (fun _ => rfl) fun _ => Iff.rfl

theorem reachable_mapInv {s : ServerProcess n} {ok : ServerProcess n → ServerLabel n → Prop}
    (h : (serverApp n cfg).system.ReachableBy ok s) : MapInv cfg s.world := by
  refine progress_invariant (P := fun w _ => MapInv cfg w) h ?_ ?_
  · intro s hinit
    obtain ⟨fd, hw⟩ := hinit.1.1
    rw [hw]
    refine ⟨rfl, fun c hc => ?_, fun _ name c => ?_⟩
    · exact absurd hc (Nat.not_lt_zero c)
    · simp [ServerWorld.create]
  · intro s label w' work' hr _ hreg hprog
    exact hprog.mapInv (reachable_serverInv hr) hreg

end Map

/-! ### Functors of a pass under way -/

section Link

variable {s s' : ServerProcess n}

/-- While `connectDestroyed` of a connection runs on a loop, its functor is in the batch. -/
def Linked (lp : EventLoop ServerAct ServerFunctor) : Prop :=
  ∀ c, .conn c .connectDestroyed ∈ lp.todo ∨ .conn c .channelRemove ∈ lp.todo →
    .conn c .connectDestroyed ∈ lp.functors

theorem Linked.of_nil {lp : EventLoop ServerAct ServerFunctor} (h : lp.todo = []) : Linked lp := by
  intro c hc
  simp [h] at hc

/-- A call that starts `connectDestroyed` comes from its functor, and one that ends it from
its beginning. -/
theorem ServerCall.destroys {w : ServerWorld n} {work : LoopId n → List ServerAct}
    {l : LoopId n} {o : ServerOracle} {a : ServerAct} {e : ServerEffect n} {tail : List ServerAct}
    (h : ServerCall cfg w l o a e) (hinv : ServerSound w work) (hwork : work l = a :: tail)
    (c : Nat) :
    .conn c .connectDestroyed ∉ e.calls ∧
      (.conn c .channelRemove ∈ e.calls → a = .conn c .connectDestroyed) := by
  -- no call of the server is one of these, so the connection makes it
  constructor
  · intro hmem
    rcases h.calls_mem hmem with hserver | ⟨d, k, v, out, rfl, hcall, k', hk', heq⟩
    · cases hserver
    · cases heq
      obtain ⟨-, -, hspec⟩ := hinv.callSpec hwork hcall
      exact hspec.life.destroys.1 (List.mem_filter.mpr ⟨hk', rfl⟩)
  · intro hmem
    rcases h.calls_mem hmem with hserver | ⟨d, k, v, out, rfl, hcall, k', hk', heq⟩
    · cases hserver
    · cases heq
      obtain ⟨-, -, hspec⟩ := hinv.callSpec hwork hcall
      rw [hspec.life.destroys.2.1 (List.mem_filter.mpr ⟨hk', rfl⟩)]

/-- What a loop does with the batch keeps every running `connectDestroyed` in it. -/
theorem Steps.linked {label : ServerLabel n} (h : Steps (serverApp n cfg) s label s')
    (hinv : ServerInv s.world (s.work (serverApp n cfg))) (hidle : ∀ l, (s.loops l).Idle)
    (hlink : ∀ l, Linked (s.loops l)) (l : LoopId n) : Linked (s'.loops l) := by
  have hset : ∀ l₀ lp, Linked lp → Linked ((s.setLoop l₀ lp).loops l) := by
    intro l₀ lp hlp
    by_cases hl : l = l₀
    · subst hl
      simpa [Process.setLoop] using hlp
    · simpa [Process.setLoop, Function.update_of_ne hl] using hlink l
  cases h with
  | start l₀ => exact hset l₀ _ (hlink l₀)
  | test l₀ => exact hset l₀ _ (hlink l₀)
  | poll l₀ active hph hready =>
      apply hset l₀ _
      obtain ⟨evs, rfl, -⟩ := ready_cases hready
      intro c hc
      simp at hc
  | @call l₀ o a rest e htodo hcall =>
      obtain ⟨tail, hwork⟩ := Process.work_of_todo (serverApp n cfg) htodo
      simp only [Process.afterCall, queueAll_apply]
      by_cases hl : l = l₀
      · subst hl
        intro c hc
        obtain ⟨hstart, hend⟩ := (serverCall hcall).destroys hinv.serverSound hwork c
        simp only [Function.update_self, List.mem_append] at hc ⊢
        apply hlink l c
        rw [htodo]
        rcases hc with (hc | hc) | hc | hc
        · exact absurd hc hstart
        · exact Or.inl (List.mem_cons_of_mem _ hc)
        · rw [hend hc]
          exact Or.inl List.mem_cons_self
        · exact Or.inr (List.mem_cons_of_mem _ hc)
      · simp only [Function.update_of_ne hl]
        exact hlink l
  | handled l₀ => exact hset l₀ _ (hlink l₀)
  | swap l₀ hph => exact hset l₀ _ (.of_nil (hidle l₀ (Or.inr (Or.inr hph))))
  | @functor l₀ cb hph htodo hcb =>
      apply hset l₀ _
      have hmem := List.mem_of_getElem? hcb
      intro c hc
      cases cb with
      | conn d f =>
          cases f <;> simp_all [serverApp, ServerFunctor.body, ConnFunctor.body]
      | removeConnectionInLoop d => simp [serverApp, ServerFunctor.body] at hc
  | passed l₀ hph htodo => exact hset l₀ _ (.of_nil htodo)
  | thread t hthread =>
      simp only [Process.afterThread, queueAll_apply]
      exact hlink l
  | quit l₀ => exact hset l₀ _ (hlink l₀)

theorem reachable_linked {ok : ServerProcess n → ServerLabel n → Prop}
    (h : (serverApp n cfg).system.ReachableBy ok s) (l : LoopId n) : Linked (s.loops l) := by
  refine h.invariant (P := fun s => ∀ l, Linked (s.loops l)) ?_ ?_ l
  · rintro s hinit l c hc
    obtain ⟨⟨-, hbase, hothers⟩, -⟩ := hinit
    by_cases hl : l = 0
    · subst hl
      simp [hbase, EventLoop.create] at hc
    · simp [hothers l hl, EventLoop.create] at hc
  · intro s label s' hr _ hlink hnext
    exact (next_iff_steps.mp hnext).linked (reachable_serverInv hr) (reachable_idle hr) hlink

end Link

/-! ### Lifetime -/

section Lifetime

variable {s : ServerProcess n} {c : Nat}

/-- A functor whose body starts `connectDestroyed` is bound to the connection. -/
theorem functor_of_connectDestroyed {fs : List ServerFunctor}
    (h : .conn c .connectDestroyed ∈ fs.flatMap ServerFunctor.body) :
    .conn c .connectDestroyed ∈ fs := by
  obtain ⟨f, hf, hmem⟩ := List.mem_flatMap.mp h
  cases f with
  | conn d f => cases f <;> simp_all [ServerFunctor.body, ConnFunctor.body]
  | removeConnectionInLoop d => simp [ServerFunctor.body] at hmem

theorem channelRemove_not_mem_body (fs : List ServerFunctor) :
    .conn c .channelRemove ∉ fs.flatMap ServerFunctor.body := by
  intro h
  obtain ⟨f, -, hmem⟩ := List.mem_flatMap.mp h
  cases f with
  | conn d f => cases f <;> simp [ServerFunctor.body, ConnFunctor.body] at hmem
  | removeConnectionInLoop d => simp [ServerFunctor.body] at hmem

theorem owned_of_functor {l : LoopId n}
    (h : .conn c .connectDestroyed ∈ (s.loops l).functors ++ (s.loops l).pendingFunctors) :
    Owned s c :=
  Or.inr (Or.inl ⟨l, _, h, by simp [ServerFunctor.holds]⟩)

/-- Until `connectDestroyed` has finished, the map, a functor or a stack frame holds a
reference: the map until the connection is erased, the functor of `connectDestroyed` from
then on. -/
theorem owned_of_not_destroyed {ok : ServerProcess n → ServerLabel n → Prop}
    (h : (serverApp n cfg).system.ReachableBy ok s) (hfew : s.world.accepted < 2 ^ 31)
    (hc : c < s.world.accepted) (hnot : .destroyed ∉ (s.world.conns c).trace) : Owned s c := by
  have hlife := (reachable_serverInv h).life hc
  have hlink := reachable_linked h (s.world.conns c).loop
  obtain ⟨g, htrace, htokens, -, -⟩ := hlife.stage
  simp only [share] at htrace htokens
  have hmap : .erased ∉ g.life → Owned s c := by
    intro herased
    rw [← htrace, mem_life rfl] at herased
    exact Or.inl ⟨_, ((reachable_mapInv h).map hfew _ c).mpr ⟨hc, rfl, herased⟩⟩
  have htoken : ∀ k, g.tokens = [k] → .conn c k ∈ (s.loops (s.world.conns c).loop).todo ∨
      .conn c k ∈ ((s.loops (s.world.conns c).loop).functors.drop
        (s.loops (s.world.conns c).loop).i ++
          (s.loops (s.world.conns c).loop).pendingFunctors).flatMap ServerFunctor.body := by
    intro k hk
    have hmem : k ∈ tokens (callsOf c (s.work (serverApp n cfg) (s.world.conns c).loop)) := by
      rw [htokens, hk]
      exact List.mem_singleton_self k
    exact List.mem_append.mp (mem_callsOf.mp (List.mem_filter.mp hmem).1)
  cases g with
  | announced => exact hmap (by simp [Stage.life])
  | opened => exact hmap (by simp [Stage.life])
  | closed => exact hmap (by simp [Stage.life])
  | leaving => exact hmap (by simp [Stage.life])
  | erased =>
      rcases htoken _ rfl with hmem | hmem
      · exact owned_of_functor (List.mem_append_left _ (hlink c (Or.inl hmem)))
      · have hfunctor := functor_of_connectDestroyed hmem
        rcases List.mem_append.mp hfunctor with hfunctor | hfunctor
        · exact owned_of_functor (List.mem_append_left _ (List.mem_of_mem_drop hfunctor))
        · exact owned_of_functor (List.mem_append_right _ hfunctor)
  | destroying =>
      rcases htoken _ rfl with hmem | hmem
      · exact owned_of_functor (List.mem_append_left _ (hlink c (Or.inr hmem)))
      · exact absurd hmem (channelRemove_not_mem_body _)
  | destroyed =>
      rw [← mem_life rfl, htrace] at hnot
      simp [Stage.life] at hnot

/-- The stages come in their order, each once. -/
theorem Share.Life.order {p : Share n} (h : p.Life) :
    p.record.trace.count .established ≤ 1 ∧ p.record.trace.count .destroying ≤ 1 ∧
      ∀ pre post, p.record.trace = pre ++ .destroying :: post → .closing ∈ pre ∧ .erased ∈ pre := by
  obtain ⟨g, htrace, -⟩ := h.stage
  have hcount : ∀ x : Obs, x.isLife = true → p.record.trace.count x = g.life.count x := by
    intro x hx
    rw [← htrace, Reactor.life, List.count_filter hx]
  refine ⟨?_, ?_, ?_⟩
  · rw [hcount _ rfl]
    cases g <;> decide
  · rw [hcount _ rfl]
    cases g <;> decide
  · intro pre post heq
    have hsplit : g.life = Reactor.life pre ++ .destroying :: Reactor.life post := by
      rw [← htrace, heq, life_append]
      rfl
    have hbefore : Reactor.life pre = [.established, .closing, .closeCallback, .erased] := by
      cases g <;> simp_all [Stage.life, List.cons_eq_append_iff]
    exact ⟨(mem_life rfl).mp (by simp [hbefore]), (mem_life rfl).mp (by simp [hbefore])⟩

/-- **MapInv and lifetime.** In every reachable state of a server with any number of
worker loops that has accepted fewer than `2^31` connections: each accepted connection was
established at most once, and before any of its events; `connectDestroyed` ran at most once,
after the connection was closed and erased; its calls run on its own loop; until
`connectDestroyed` has finished the server holds a reference to it. The map holds exactly the
accepted connections that were not erased, so `removeConnectionInLoop` finds its entry. -/
theorem connection_lifetime (cfg : ServerConfig) (h : (serverApp n cfg).system.Reachable s)
    (hfew : s.world.accepted < 2 ^ 31) :
    (∀ c, c < s.world.accepted →
      (s.world.conns c).trace.count .established ≤ 1 ∧
      (∀ pre revents post, (s.world.conns c).trace = pre ++ .event revents :: post →
        .established ∈ pre) ∧
      (s.world.conns c).trace.count .destroying ≤ 1 ∧
      (∀ pre post, (s.world.conns c).trace = pre ++ .destroying :: post →
        .closing ∈ pre ∧ .erased ∈ pre) ∧
      (∀ l k rest, (s.loops l).todo = .conn c k :: rest → l = (s.world.conns c).loop) ∧
      (.destroyed ∉ (s.world.conns c).trace → Owned s c)) ∧
    (∀ name c, s.world.connections name = some c ↔
      c < s.world.accepted ∧ name = (s.world.conns c).name ∧
        .erased ∉ (s.world.conns c).trace) ∧
    (∀ l c rest o, (s.loops l).todo = .removeConnectionInLoop c :: rest →
      ∃ s', (serverApp n cfg).system.Next (.call l o) s s') := by
  have hinv := reachable_serverInv h
  have hreg := (reachable_mapInv h).map hfew
  refine ⟨fun c hc => ?_, hreg, fun l c rest o htodo => ?_⟩
  · have hlife := hinv.life hc
    obtain ⟨hest, hdes, horder⟩ := hlife.order
    refine ⟨hest, hlife.ordered, hdes, horder, fun l k rest htodo => ?_,
      owned_of_not_destroyed h hfew hc⟩
    obtain ⟨tail, hwork⟩ := Process.work_of_todo (serverApp n cfg) htodo
    exact (hinv.of_mem_callsOf (k := k) (mem_callsOf.mpr (by simp [hwork]))).2
  · -- the connection is on its way out, and its entry still there
    have hremovals : removalsOf c (s.work (serverApp n cfg) l) ≠ 0 := by
      simp [Process.work, EventLoop.work, htodo]
    have hc : c < s.world.accepted := by
      by_contra hc
      exact hremovals (((hinv.ok c).blank (by simpa [share] using hc)).removals l)
    have hlife := hinv.life hc
    have hl : l = 0 := by
      by_contra hl
      exact hremovals (hlife.base l hl)
    subst hl
    have hentry : s.world.connections (s.world.conns c).name = some c := by
      obtain ⟨g, htrace, -, hg, -⟩ := hlife.stage
      have hleaving : g = .leaving := by
        simp only [share] at hg
        cases g <;> simp_all [Stage.removals]
      subst hleaving
      refine (hreg _ c).mpr ⟨hc, rfl, ?_⟩
      rw [← mem_life rfl]
      simp only [share] at htrace
      simp [htrace, Stage.life]
    have hcall : ∃ e, (serverApp n cfg).call 0 (.removeConnectionInLoop c) o s.world = .ok e := by
      simp [serverApp, ServerWorld.call, ServerWorld.removeConnectionInLoop, hentry]
    obtain ⟨e, hcall⟩ := hcall
    exact ⟨_, next_iff_steps.mpr (.call 0 o htodo hcall)⟩

/-! ### A closed connection -/

/-- Worker 1 gets a connection; its peer closes; the base loop erases it. -/
def closingRun : List (ServerLabel 1) :=
  [.call 0 .quiet, .start 0, .test 0, .start 1, .test 1,
    .poll 0 [.handleActiveChannels [(none, POLLIN)]], .call 0 .quiet, .call 0 .quiet,
    .call 0 { ServerOracle.quiet with accept := some 7 }, .call 0 .quiet, .call 0 .quiet,
    .poll 1 [.handleActiveChannels []], .call 1 .quiet, .call 1 .quiet, .handled 1, .swap 1,
    .functor 1, .call 1 .quiet, .passed 1, .test 1,
    .poll 1 [.handleActiveChannels [(some 0, POLLIN)]], .call 1 .quiet, .call 1 .quiet,
    .call 1 { ServerOracle.quiet with read := .deliver [] }, .call 1 .quiet, .call 1 .quiet,
    .handled 0, .swap 0, .functor 0, .call 0 .quiet]

/-- The map has forgotten the connection, its channel is still in the worker's poller, and
the queued `connectDestroyed` keeps it. -/
theorem connection_lifetime_erased :
    ∃ s, (serverApp 1 mainConfig).system.Reachable s ∧ s.world.accepted = 1 ∧
      s.world.connections (s.world.conns 0).name = none ∧
      .erased ∈ (s.world.conns 0).trace ∧ Owned s 0 := by
  obtain ⟨s, hs, hp⟩ := System.exists_reachable_of_replay (serverApp 1 mainConfig).system
    closingRun (serverStart 1)
    (fun s => s.world.accepted == 1 && (s.world.connections (s.world.conns 0).name).isNone &&
      decide (.erased ∈ (s.world.conns 0).trace) && !decide (.destroyed ∈ (s.world.conns 0).trace))
    (serverStart_init 1) (by decide +kernel)
  simp only [Bool.and_eq_true, beq_iff_eq, Option.isNone_iff_eq_none, decide_eq_true_eq,
    Bool.not_eq_true', decide_eq_false_iff_not] at hp
  obtain ⟨⟨⟨hacc, hmap⟩, herased⟩, hnot⟩ := hp
  have hlife := (connection_lifetime mainConfig hs (by rw [hacc]; decide)).1 0 (by rw [hacc]; decide)
  exact ⟨s, hs, hacc, hmap, herased, hlife.2.2.2.2.2 hnot⟩

end Lifetime

end Reactor
