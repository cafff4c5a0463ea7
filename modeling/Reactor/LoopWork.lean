import Reactor.EventLoop

/-!
# The calls a loop has before it

Seen from the outside, a loop is a list of calls to come: the rest of what its thread
is doing, then the bodies of the batch's other functors, then those of the queue. The
steps of `EventLoop::loop` itself do not change that list. It changes when a call is
made, when `epoll_wait` reports events, and when something is queued at its end.

* `EventLoop.work` - the calls to come.
* `Progress` - the steps of a process in these terms; `Steps.progress` - the loops of
  the source refine them.
* `progress_invariant` - the induction rule for properties of the world and the calls to
  come.
-/

namespace Reactor

open Reactor.Lib

section Work

variable {A F : Type}

/-- The calls to come on a loop's thread, in order. -/
def EventLoop.work (body : F → List A) (lp : EventLoop A F) : List A :=
  lp.todo ++ (lp.functors.drop lp.i ++ lp.pendingFunctors).flatMap body

/-- What comes after the next call, when calls are added at the end. -/
theorem mem_tail_append {a : A} {calls added : List A} (h : a ∈ (calls ++ added).tail) :
    a ∈ calls.tail ∨ a ∈ added := by
  cases calls with
  | nil => exact Or.inr (List.mem_of_mem_tail h)
  | cons b rest => exact List.mem_append.mp h

/-- No call is under way between the phases that make calls. -/
def EventLoop.Idle (lp : EventLoop A F) : Prop :=
  lp.phase = .test ∨ lp.phase = .polling ∨ lp.phase = .swapping → lp.todo = []

theorem LoopMove.idle {body : F → List A} {lp lp' : EventLoop A F} {cbs : List F}
    (h : LoopMove body lp cbs lp') (hi : lp.Idle) : lp'.Idle := by
  cases h with
  | queued => exact hi
  | called cbs calls htodo =>
      intro hph
      have hnil := hi hph
      rw [htodo] at hnil
      cases hnil
  | start _ htodo => exact fun _ => htodo
  | test hph => exact fun _ => hi (Or.inl hph)
  | poll => simp [EventLoop.Idle]
  | handled _ htodo => exact fun _ => htodo
  | swap => simp [EventLoop.Idle]
  | functor hph => simp [EventLoop.Idle, hph]
  | passed _ htodo => exact fun _ => htodo
  | quit => exact hi

end Work

section Progress

variable {L T A F O W : Type} [DecidableEq L]

/-- The calls to come of every loop. -/
def Process.work (app : App L T A F O W) (s : Process L A F W) (l : L) : List A :=
  (s.loops l).work app.body

/-- A step as a change of the world and of the calls to come. -/
inductive Progress (app : App L T A F O W) (w : W) (work : L → List A) :
    Label L T A O → W → (L → List A) → Prop where
  /-- a step of `loop()` itself -/
  | silent {label : Label L T A O} : Progress app w work label w work
  /-- `epoll_wait` reports events, which are handled before what is queued -/
  | poll {l : L} {active : List A} {cbs : List F} {work' : L → List A} :
      app.ready l active w = true → work l = cbs.flatMap app.body →
      work' l = active ++ work l → (∀ l', l' ≠ l → work' l' = work l') →
      Progress app w work (.poll l active) w work'
  /-- the next call of a loop's thread -/
  | call {l : L} {o : O} {a : A} {tail : List A} {e : Effect L A F W} {work' : L → List A} :
      work l = a :: tail → app.call l a o w = .ok e →
      work' l = e.calls ++ tail ++ (queuedTo l e.queued).flatMap app.body →
      (∀ l', l' ≠ l → work' l' = work l' ++ (queuedTo l' e.queued).flatMap app.body) →
      Progress app w work (.call l o) e.world work'
  /-- an action of a foreign thread -/
  | thread {t : T} {out : W × List (L × F)} {work' : L → List A} :
      app.thread t w = some (.ok out) →
      (∀ l, work' l = work l ++ (queuedTo l out.2).flatMap app.body) →
      Progress app w work (.thread t) out.1 work'

variable {app : App L T A F O W} {s s' : Process L A F W} {label : Label L T A O}

omit [DecidableEq L] in
/-- The next call of a thread is the first of the calls to come. -/
theorem Process.work_of_todo (app : App L T A F O W) {l : L} {a : A} {rest : List A}
    (h : (s.loops l).todo = a :: rest) : ∃ tail, s.work app l = a :: tail := by
  rw [Process.work, EventLoop.work, h]
  exact ⟨_, rfl⟩

/-- A step that sets one loop and keeps its calls to come changes no calls to come. -/
theorem setLoop_progress {l₀ : L} {lp : EventLoop A F}
    (h : lp.work app.body = (s.loops l₀).work app.body) :
    Progress app s.world (s.work app) label s.world ((s.setLoop l₀ lp).work app) := by
  have hsame : (s.setLoop l₀ lp).work app = s.work app := by
    funext l
    by_cases hl : l = l₀
    · subst hl
      simpa [Process.work, Process.setLoop] using h
    · simp [Process.work, Process.setLoop, Function.update_of_ne hl]
  rw [hsame]
  exact .silent

/-- The loops of the source refine the lists of calls to come. -/
theorem Steps.progress (h : Steps app s label s') (hq : ∀ l, QueueInv (s.loops l))
    (hi : ∀ l, (s.loops l).Idle) : Progress app s.world (s.work app) label s'.world (s'.work app) := by
  cases h with
  | start l hph htodo => exact setLoop_progress rfl
  | test l hph => exact setLoop_progress rfl
  | poll l active hph hready =>
      have htodo := hi l (Or.inr (Or.inl hph))
      have hqueue : s.work app l = ((s.loops l).functors.drop (s.loops l).i ++
          (s.loops l).pendingFunctors).flatMap app.body := by
        simp [Process.work, EventLoop.work, htodo]
      refine .poll hready hqueue ?_ ?_
      · simp [Process.work, Process.setLoop, EventLoop.work, htodo]
      · intro l' hl'
        simp [Process.work, Process.setLoop, Function.update_of_ne hl']
  | @call l o a rest e htodo hcall =>
      have hwork : s.work app l = a :: (rest ++ ((s.loops l).functors.drop (s.loops l).i ++
          (s.loops l).pendingFunctors).flatMap app.body) := by
        simp [Process.work, EventLoop.work, htodo]
      refine .call hwork hcall ?_ ?_
      · simp [Process.work, Process.afterCall, queueAll_apply, EventLoop.work]
      · intro l' hl'
        simp [Process.work, Process.afterCall, queueAll_apply, EventLoop.work,
          Function.update_of_ne hl']
  | handled l hph htodo => exact setLoop_progress rfl
  | swap l hph =>
      obtain ⟨hnil, hzero⟩ := (hq l).idle (by simp [hph])
      exact setLoop_progress (by simp [EventLoop.work, hnil])
  | @functor l cb hph htodo hcb =>
      obtain ⟨hlt, hget⟩ := List.getElem?_eq_some_iff.mp hcb
      apply setLoop_progress
      simp [EventLoop.work, htodo, List.drop_eq_getElem_cons hlt, hget]
  | passed l hph htodo hlen =>
      exact setLoop_progress (by simp [EventLoop.work, List.drop_of_length_le hlen])
  | @thread t out hout =>
      refine .thread hout fun l => ?_
      simp [Process.work, Process.afterThread, queueAll_apply, EventLoop.work]
  | quit l => exact setLoop_progress rfl

theorem reachable_idle {ok : Process L A F W → Label L T A O → Prop}
    (h : app.system.ReachableBy ok s) (l : L) : (s.loops l).Idle := by
  refine h.invariant (P := fun s => (s.loops l).Idle) ?_ ?_
  · intro s hinit
    obtain ⟨todo, hl⟩ := hinit.2 l
    simp [hl, EventLoop.Idle, EventLoop.create]
  · intro s i s' _ _ hidle hnext
    obtain ⟨cbs, hmove, -⟩ := (next_iff_steps.mp hnext).loopMove l
    exact hmove.idle hidle

/-- What holds of the world and the calls to come initially and is preserved by every
step that meets `ok`, holds in every state reached so. -/
theorem progress_invariant {ok : Process L A F W → Label L T A O → Prop}
    {P : W → (L → List A) → Prop} (h : app.system.ReachableBy ok s)
    (hinit : ∀ s, app.system.init s → P s.world (s.work app))
    (hstep : ∀ s label w' work', app.system.ReachableBy ok s → ok s label →
      P s.world (s.work app) → Progress app s.world (s.work app) label w' work' → P w' work') :
    P s.world (s.work app) := by
  refine h.invariant (P := fun s => P s.world (s.work app)) hinit ?_
  intro s label s' hr hok hP hnext
  exact hstep s label _ _ hr hok hP
    ((next_iff_steps.mp hnext).progress (reachable_queueInv hr) (reachable_idle hr))

end Progress

end Reactor
