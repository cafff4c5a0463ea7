import Reactor.Lib.Transition
import Reactor.Basic

/-!
# Event loops (`EventLoop.h`, `EventLoop.cpp`)

Any number of loops, each with its own thread, and foreign threads beside them. What
the loops run is a parameter, `App`: an application fixes the calls the loop threads
make, the functors that are queued and what each call does. A call is the unit of
interleaving. It changes the application's world, may make further calls that run
before the rest of the thread's work (`todo` is that rest), and may queue functors on
any loop.

A loop's thread goes through `loop()` as the source does: test `_quit`, sit in
`epoll_wait`, handle the active channels, set `_callingPendingFunctors`, swap the
queue out under the mutex, run the batch by index, start over. `epoll_wait` is called
with an infinite timeout and `queueInLoop` writes no wakeup event: both of its cases
are the source's `//fixme wakeup`.

* `queue_in_order` - executed functors, the rest of the batch and the queue together
  are the pushes in push order, and a pass runs the batch of its swap.
* `queued_functor_starves` - a functor can be queued while the loop sits in
  `epoll_wait`, with no wakeup to come.
* `no_lost_wakeup_if_queued_before_swap` - it cannot happen in runs that queue functors
  only between the return of `epoll_wait` and the swap.
-/

namespace Reactor

open Reactor.Lib

/-- Where a loop's thread stands in `EventLoop::loop`. -/
inductive Phase where
  /-- not in `loop()` -/
  | outside
  /-- at `while (!_quit)` -/
  | test
  /-- in `epoll_wait` -/
  | polling
  /-- handling the events of the active channels (`_eventHandling`) -/
  | handling
  /-- in `doPendingFunctors`, before the swap -/
  | swapping
  /-- in `doPendingFunctors`, running the batch -/
  | calling
deriving DecidableEq, Repr

/-- A loop over calls `A` and functors `F`. `functors` and `i` are the locals of
`doPendingFunctors`; `pushed`, `executed` and `passStart` (what was executed when the
pass began) record its history. -/
structure EventLoop (A F : Type) where
  phase : Phase
  quit : Bool
  wakeupReadable : Bool
  todo : List A
  pendingFunctors : List F
  functors : List F
  i : Nat
  pushed : List F
  executed : List F
  passStart : List F
deriving DecidableEq, Repr

namespace EventLoop

variable {A F : Type}

/-- The constructor, with the calls its thread makes before `loop()`. -/
def create (todo : List A) : EventLoop A F :=
  { phase := .outside, quit := false, wakeupReadable := false, todo := todo
    pendingFunctors := [], functors := [], i := 0, pushed := [], executed := [], passStart := [] }

/-- `_callingPendingFunctors`. -/
def callingPendingFunctors (lp : EventLoop A F) : Bool :=
  lp.phase = .swapping || lp.phase = .calling

/-- `queueInLoop`, called on the loop's own thread or on another one. -/
def queueInLoop (isInLoopThread : Bool) (cb : F) (lp : EventLoop A F) : EventLoop A F :=
  let lp' := { lp with pendingFunctors := lp.pendingFunctors ++ [cb], pushed := lp.pushed ++ [cb] }
  if !isInLoopThread || lp'.callingPendingFunctors then
    lp' -- fixme wakeup
  else lp'

theorem queueInLoop_eq (isInLoopThread : Bool) (cb : F) (lp : EventLoop A F) :
    queueInLoop isInLoopThread cb lp =
      { lp with pendingFunctors := lp.pendingFunctors ++ [cb], pushed := lp.pushed ++ [cb] } := by
  unfold queueInLoop
  dsimp only
  split <;> rfl

end EventLoop

/-- What one call does: the world after it, the calls it makes and the functors it
queues, each with its target loop. -/
structure Effect (L A F W : Type) where
  world : W
  calls : List A := []
  queued : List (L × F) := []

/-- What the loops `L` and the foreign threads run. The choices of the environment
that a call depends on (results of system calls, what user code does) are its `O`;
`ready` says what `epoll_wait` may report; `T` are the foreign threads' actions. -/
structure App (L T A F O W : Type) where
  init : W → (L → EventLoop A F) → Prop
  body : F → List A
  ready : L → List A → W → Bool
  call : L → A → O → W → Exec (Effect L A F W)
  thread : T → W → Option (Exec (W × List (L × F)))

/-- The whole process: the application's world and its loops. -/
structure Process (L A F W : Type) where
  world : W
  loops : L → EventLoop A F

/-- The steps of a process: `loop` is called, `_quit` is tested, `epoll_wait` returns,
the next call is made, the active channels are handled, the queue is swapped out, the
next functor starts, the pass ends; a foreign thread acts, or calls `quit()`. -/
inductive Label (L T A O : Type) where
  | start (l : L)
  | test (l : L)
  | poll (l : L) (active : List A)
  | call (l : L) (o : O)
  | handled (l : L)
  | swap (l : L)
  | functor (l : L)
  | passed (l : L)
  | thread (t : T)
  | quit (l : L)

section Queue

variable {L A F : Type} [DecidableEq L]

/-- The functors of `queued` meant for loop `l`. -/
def queuedTo (l : L) (queued : List (L × F)) : List F :=
  queued.filterMap fun q => if q.1 = l then some q.2 else none

@[simp] theorem queuedTo_nil (l : L) : queuedTo l ([] : List (L × F)) = [] := rfl

/-- `queueInLoop` for every entry of `queued` in turn, called on the thread of loop
`caller` or on a foreign one. -/
def queueAll (caller : Option L) : List (L × F) → (L → EventLoop A F) → L → EventLoop A F
  | [], loops => loops
  | (l, cb) :: rest, loops =>
      queueAll caller rest
        (Function.update loops l ((loops l).queueInLoop (caller = some l) cb))

/-- Every loop's queue grows by the functors meant for it, in order, and nothing else
changes. -/
theorem queueAll_apply (caller : Option L) (queued : List (L × F)) (loops : L → EventLoop A F)
    (l : L) :
    queueAll caller queued loops l =
      { loops l with
        pendingFunctors := (loops l).pendingFunctors ++ queuedTo l queued
        pushed := (loops l).pushed ++ queuedTo l queued } := by
  induction queued generalizing loops with
  | nil => simp [queueAll]
  | cons q rest ih =>
      obtain ⟨l', cb⟩ := q
      rw [queueAll, ih]
      by_cases hl : l' = l
      · subst hl
        simp [EventLoop.queueInLoop_eq, queuedTo]
      · simp [queuedTo, hl, Function.update_of_ne (Ne.symm hl)]

/-- `runInLoop`: on the target's own thread the functor runs at once, from any other
thread it is queued. -/
def runInLoop (body : F → List A) (l target : L) (cb : F) : List A × List (L × F) :=
  if l = target then (body cb, []) else ([], [(target, cb)])

end Queue

/-! ### Steps of a process -/

section Step

variable {L T A F O W : Type} [DecidableEq L]

def Process.setLoop (s : Process L A F W) (l : L) (lp : EventLoop A F) : Process L A F W :=
  { s with loops := Function.update s.loops l lp }

/-- The process after the head of a loop's `todo` returned. -/
def Process.afterCall (s : Process L A F W) (l : L) (rest : List A) (e : Effect L A F W) :
    Process L A F W :=
  { world := e.world
    loops := queueAll (some l) e.queued
      (Function.update s.loops l { s.loops l with todo := e.calls ++ rest }) }

/-- The process after a foreign thread's action. -/
def Process.afterThread (s : Process L A F W) (out : W × List (L × F)) : Process L A F W :=
  { world := out.1, loops := queueAll none out.2 s.loops }

def App.step (app : App L T A F O W) (label : Label L T A O) (s : Process L A F W) :
    Option (Exec (Process L A F W)) :=
  match label with
  | .start l =>
      if (s.loops l).phase = .outside ∧ (s.loops l).todo.isEmpty then
        some (.ok (s.setLoop l { s.loops l with phase := .test, quit := false }))
      else none
  | .test l =>
      if (s.loops l).phase = .test then
        some (.ok (s.setLoop l
          { s.loops l with phase := if (s.loops l).quit then .outside else .polling }))
      else none
  | .poll l active =>
      if (s.loops l).phase = .polling ∧ app.ready l active s.world then
        some (.ok (s.setLoop l { s.loops l with phase := .handling, todo := active }))
      else none
  | .call l o =>
      match (s.loops l).todo with
      | [] => none
      | a :: rest => some ((app.call l a o s.world).map (s.afterCall l rest))
  | .handled l =>
      if (s.loops l).phase = .handling ∧ (s.loops l).todo.isEmpty then
        some (.ok (s.setLoop l { s.loops l with phase := .swapping }))
      else none
  | .swap l =>
      if (s.loops l).phase = .swapping then
        some (.ok (s.setLoop l
          { s.loops l with
            phase := .calling
            functors := (s.loops l).pendingFunctors
            pendingFunctors := []
            i := 0
            passStart := (s.loops l).executed }))
      else none
  | .functor l =>
      if (s.loops l).phase = .calling ∧ (s.loops l).todo.isEmpty then
        match (s.loops l).functors[(s.loops l).i]? with
        | none => none
        | some cb =>
            some (.ok (s.setLoop l
              { s.loops l with
                todo := app.body cb
                i := (s.loops l).i + 1
                executed := (s.loops l).executed ++ [cb] }))
      else none
  | .passed l =>
      if (s.loops l).phase = .calling ∧ (s.loops l).todo.isEmpty ∧
          (s.loops l).functors.length ≤ (s.loops l).i then
        some (.ok (s.setLoop l { s.loops l with phase := .test, functors := [], i := 0 }))
      else none
  | .thread t =>
      (app.thread t s.world).map fun out => out.map (s.afterThread ·)
  | .quit l => some (.ok (s.setLoop l { s.loops l with quit := true }))

/-- The runs of an application, from newly constructed loops. -/
def App.system (app : App L T A F O W) : System (Process L A F W) (Label L T A O) Fault where
  init s := app.init s.world s.loops ∧ ∀ l, ∃ todo, s.loops l = EventLoop.create todo
  step := app.step

/-- What a step does, one case for each kind of step. -/
inductive Steps (app : App L T A F O W) (s : Process L A F W) :
    Label L T A O → Process L A F W → Prop where
  | start (l : L) : (s.loops l).phase = .outside → (s.loops l).todo = [] →
      Steps app s (.start l) (s.setLoop l { s.loops l with phase := .test, quit := false })
  | test (l : L) : (s.loops l).phase = .test →
      Steps app s (.test l) (s.setLoop l
        { s.loops l with phase := if (s.loops l).quit then .outside else .polling })
  | poll (l : L) (active : List A) : (s.loops l).phase = .polling →
      app.ready l active s.world = true →
      Steps app s (.poll l active)
        (s.setLoop l { s.loops l with phase := .handling, todo := active })
  | call (l : L) (o : O) {a : A} {rest : List A} {e : Effect L A F W} :
      (s.loops l).todo = a :: rest → app.call l a o s.world = .ok e →
      Steps app s (.call l o) (s.afterCall l rest e)
  | handled (l : L) : (s.loops l).phase = .handling → (s.loops l).todo = [] →
      Steps app s (.handled l) (s.setLoop l { s.loops l with phase := .swapping })
  | swap (l : L) : (s.loops l).phase = .swapping →
      Steps app s (.swap l) (s.setLoop l
        { s.loops l with
          phase := .calling, functors := (s.loops l).pendingFunctors, pendingFunctors := [],
          i := 0, passStart := (s.loops l).executed })
  | functor (l : L) {cb : F} : (s.loops l).phase = .calling → (s.loops l).todo = [] →
      (s.loops l).functors[(s.loops l).i]? = some cb →
      Steps app s (.functor l) (s.setLoop l
        { s.loops l with
          todo := app.body cb, i := (s.loops l).i + 1, executed := (s.loops l).executed ++ [cb] })
  | passed (l : L) : (s.loops l).phase = .calling → (s.loops l).todo = [] →
      (s.loops l).functors.length ≤ (s.loops l).i →
      Steps app s (.passed l)
        (s.setLoop l { s.loops l with phase := .test, functors := [], i := 0 })
  | thread (t : T) {out : W × List (L × F)} : app.thread t s.world = some (.ok out) →
      Steps app s (.thread t) (s.afterThread out)
  | quit (l : L) : Steps app s (.quit l) (s.setLoop l { s.loops l with quit := true })

variable {app : App L T A F O W} {s s' : Process L A F W} {label : Label L T A O}

theorem next_iff_steps : app.system.Next label s s' ↔ Steps app s label s' := by
  constructor
  · intro h
    unfold System.Next at h
    change app.step label s = some (.ok s') at h
    cases label with
    | start l =>
        simp only [App.step, List.isEmpty_iff] at h
        split at h <;> cases h
        rename_i hc
        exact .start l hc.1 hc.2
    | test l =>
        simp only [App.step] at h
        split at h <;> cases h
        rename_i hc
        exact .test l hc
    | poll l active =>
        simp only [App.step] at h
        split at h <;> cases h
        rename_i hc
        exact .poll l active hc.1 hc.2
    | call l o =>
        simp only [App.step] at h
        split at h
        · cases h
        · rename_i a rest htodo
          cases hcall : app.call l a o s.world with
          | error f => simp [hcall, Except.map] at h
          | ok e =>
              simp only [hcall, Except.map, Option.some.injEq, Except.ok.injEq] at h
              subst h
              exact .call l o htodo hcall
    | handled l =>
        simp only [App.step, List.isEmpty_iff] at h
        split at h <;> cases h
        rename_i hc
        exact .handled l hc.1 hc.2
    | swap l =>
        simp only [App.step] at h
        split at h <;> cases h
        rename_i hc
        exact .swap l hc
    | functor l =>
        simp only [App.step, List.isEmpty_iff] at h
        split at h
        · rename_i hc
          split at h <;> cases h
          rename_i cb hcb
          exact .functor l hc.1 hc.2 hcb
        · cases h
    | passed l =>
        simp only [App.step, List.isEmpty_iff] at h
        split at h <;> cases h
        rename_i hc
        exact .passed l hc.1 hc.2.1 hc.2.2
    | thread t =>
        obtain ⟨out, hout, rfl⟩ := map_eq_some_ok.mp h
        exact .thread t hout
    | quit l =>
        simp only [App.step, Option.some.injEq, Except.ok.injEq] at h
        subst h
        exact .quit l
  · intro h
    unfold System.Next
    change app.step label s = some (.ok s')
    cases h <;> simp_all [App.step, Except.map]

/-- Only a call, on a loop's thread or a foreign one, fails. -/
theorem fails_cases {f : Fault} (h : app.system.Fails label s f) :
    (∃ l o a rest, label = .call l o ∧ (s.loops l).todo = a :: rest ∧
      app.call l a o s.world = .error f) ∨
    ∃ t, label = .thread t ∧ app.thread t s.world = some (.error f) := by
  unfold System.Fails at h
  change app.step label s = some (.error f) at h
  cases label with
  | call l o =>
      simp only [App.step] at h
      split at h
      · cases h
      · rename_i a rest htodo
        cases hcall : app.call l a o s.world with
        | ok e => simp [hcall, Except.map] at h
        | error f' =>
            simp only [hcall, Except.map, Option.some.injEq, Except.error.injEq] at h
            subst h
            exact Or.inl ⟨l, o, a, rest, rfl, htodo, hcall⟩
  | thread t =>
      simp only [App.step, Option.map_eq_some_iff] at h
      obtain ⟨out, hout, hmap⟩ := h
      cases out with
      | ok out => cases hmap
      | error f' =>
          cases hmap
          exact Or.inr ⟨t, rfl, hout⟩
  | functor l =>
      simp only [App.step] at h
      split at h
      · split at h <;> cases h
      · cases h
  | quit l => cases h
  | _ =>
      simp only [App.step] at h
      split at h <;> cases h

/-- The step labelled `label` queues a functor on loop `l`. -/
def Queues (app : App L T A F O W) (s : Process L A F W) (l : L) : Label L T A O → Prop
  | .call l' o => ∃ a rest e, (s.loops l').todo = a :: rest ∧
      app.call l' a o s.world = .ok e ∧ queuedTo l e.queued ≠ []
  | .thread t => ∃ out, app.thread t s.world = some (.ok out) ∧ queuedTo l out.2 ≠ []
  | _ => False

end Step

/-! ### One loop of a process -/

section Loop

variable {A F : Type}

/-- The loop with `cbs` queued behind what it has. -/
def EventLoop.enqueue (lp : EventLoop A F) (cbs : List F) : EventLoop A F :=
  { lp with pendingFunctors := lp.pendingFunctors ++ cbs, pushed := lp.pushed ++ cbs }

@[simp] theorem EventLoop.enqueue_nil (lp : EventLoop A F) : lp.enqueue [] = lp := by
  simp [EventLoop.enqueue]

/-- What a step of the process can do to one loop, on which it queues `cbs`. -/
inductive LoopMove (body : F → List A) (lp : EventLoop A F) : List F → EventLoop A F → Prop where
  | queued (cbs : List F) : LoopMove body lp cbs (lp.enqueue cbs)
  | called (cbs : List F) {a : A} {rest : List A} (calls : List A) : lp.todo = a :: rest →
      LoopMove body lp cbs (EventLoop.enqueue { lp with todo := calls ++ rest } cbs)
  | start : lp.phase = .outside → lp.todo = [] →
      LoopMove body lp [] { lp with phase := .test, quit := false }
  | test : lp.phase = .test →
      LoopMove body lp [] { lp with phase := if lp.quit then .outside else .polling }
  | poll (active : List A) : lp.phase = .polling →
      LoopMove body lp [] { lp with phase := .handling, todo := active }
  | handled : lp.phase = .handling → lp.todo = [] →
      LoopMove body lp [] { lp with phase := .swapping }
  | swap : lp.phase = .swapping →
      LoopMove body lp []
        { lp with phase := .calling, functors := lp.pendingFunctors, pendingFunctors := [], i := 0,
                  passStart := lp.executed }
  | functor {cb : F} : lp.phase = .calling → lp.todo = [] → lp.functors[lp.i]? = some cb →
      LoopMove body lp []
        { lp with todo := body cb, i := lp.i + 1, executed := lp.executed ++ [cb] }
  | passed : lp.phase = .calling → lp.todo = [] → lp.functors.length ≤ lp.i →
      LoopMove body lp [] { lp with phase := .test, functors := [], i := 0 }
  | quit : LoopMove body lp [] { lp with quit := true }

variable {L T O W : Type} [DecidableEq L] {app : App L T A F O W} {s s' : Process L A F W}
  {label : Label L T A O}

/-- A step that sets loop `l₀` moves that loop and leaves the others alone. -/
theorem setLoop_loopMove {l₀ : L} {lp : EventLoop A F} {P : List F → Prop}
    (h : LoopMove app.body (s.loops l₀) [] lp) (hP : P []) (l : L) :
    ∃ cbs, LoopMove app.body (s.loops l) cbs ((s.setLoop l₀ lp).loops l) ∧ P cbs := by
  refine ⟨[], ?_, hP⟩
  by_cases hl : l = l₀
  · subst hl
    simpa [Process.setLoop] using h
  · have hsame : LoopMove app.body (s.loops l) [] ((s.loops l).enqueue []) := .queued []
    simpa [Process.setLoop, Function.update_of_ne hl] using hsame

/-- Every step moves every loop in one of the ways above, and queues on it only what it
queues at all. -/
theorem Steps.loopMove (h : Steps app s label s') (l : L) :
    ∃ cbs, LoopMove app.body (s.loops l) cbs (s'.loops l) ∧ (cbs ≠ [] → Queues app s l label) := by
  cases h with
  | start l₀ hph htodo => exact setLoop_loopMove (.start hph htodo) (by simp) l
  | test l₀ hph => exact setLoop_loopMove (.test hph) (by simp) l
  | poll l₀ active hph _ => exact setLoop_loopMove (.poll active hph) (by simp) l
  | handled l₀ hph htodo => exact setLoop_loopMove (.handled hph htodo) (by simp) l
  | swap l₀ hph => exact setLoop_loopMove (.swap hph) (by simp) l
  | functor l₀ hph htodo hcb => exact setLoop_loopMove (.functor hph htodo hcb) (by simp) l
  | passed l₀ hph htodo hlen => exact setLoop_loopMove (.passed hph htodo hlen) (by simp) l
  | quit l₀ => exact setLoop_loopMove .quit (by simp) l
  | @call l₀ o a rest e htodo hcall =>
      refine ⟨queuedTo l e.queued, ?_, fun hne => ⟨a, rest, e, htodo, hcall, hne⟩⟩
      simp only [Process.afterCall, queueAll_apply]
      by_cases hl : l = l₀
      · subst hl
        have hmove : LoopMove app.body (s.loops l) (queuedTo l e.queued) _ :=
          .called (queuedTo l e.queued) e.calls htodo
        simpa [EventLoop.enqueue] using hmove
      · have hmove : LoopMove app.body (s.loops l) (queuedTo l e.queued) _ := .queued _
        simpa [Function.update_of_ne hl, EventLoop.enqueue] using hmove
  | @thread t out hout =>
      refine ⟨queuedTo l out.2, ?_, fun hne => ⟨out, hout, hne⟩⟩
      have hmove : LoopMove app.body (s.loops l) (queuedTo l out.2) _ := .queued _
      simpa [Process.afterThread, queueAll_apply, EventLoop.enqueue] using hmove

/-- Where the calls under way come from: they were under way before, or a call, a functor or
`poll` brought them. -/
theorem Steps.todo_mem (h : Steps app s label s') {l : L} {a : A} (hmem : a ∈ (s'.loops l).todo) :
    a ∈ (s.loops l).todo ∨
      (∃ o a₀ rest e, label = .call l o ∧ (s.loops l).todo = a₀ :: rest ∧
        app.call l a₀ o s.world = .ok e ∧ s' = s.afterCall l rest e ∧ a ∈ e.calls) ∨
      (∃ cb, a ∈ app.body cb) ∨
      ∃ active, label = .poll l active ∧ app.ready l active s.world = true ∧ a ∈ active := by
  have hset : ∀ l₀ lp, a ∈ ((s.setLoop l₀ lp).loops l).todo →
      a ∈ (s.loops l).todo ∨ l = l₀ ∧ a ∈ lp.todo := by
    intro l₀ lp ha
    by_cases hl : l = l₀
    · subst hl
      simp only [Process.setLoop, Function.update_self] at ha
      exact Or.inr ⟨rfl, ha⟩
    · simp only [Process.setLoop, Function.update_of_ne hl] at ha
      exact Or.inl ha
  have hkept : ∀ l₀ lp, a ∈ ((s.setLoop l₀ lp).loops l).todo → lp.todo = (s.loops l₀).todo →
      a ∈ (s.loops l).todo := by
    intro l₀ lp ha hlp
    rcases hset l₀ lp ha with hold | ⟨rfl, hnew⟩
    · exact hold
    · rwa [hlp] at hnew
  cases h with
  | poll l₀ active hph hready =>
      rcases hset l₀ _ hmem with hold | ⟨rfl, ha⟩
      · exact Or.inl hold
      · exact Or.inr (Or.inr (Or.inr ⟨active, rfl, hready, ha⟩))
  | @functor l₀ cb hph htodo hcb =>
      rcases hset l₀ _ hmem with hold | ⟨rfl, ha⟩
      · exact Or.inl hold
      · exact Or.inr (Or.inr (Or.inl ⟨cb, ha⟩))
  | @call l₀ o a₀ rest e htodo hcall =>
      simp only [Process.afterCall, queueAll_apply] at hmem
      by_cases hl : l = l₀
      · subst hl
        simp only [Function.update_self, List.mem_append] at hmem
        rcases hmem with hmem | hmem
        · exact Or.inr (Or.inl ⟨o, a₀, rest, e, rfl, htodo, hcall, rfl, hmem⟩)
        · left
          rw [htodo]
          exact List.mem_cons_of_mem _ hmem
      · simp only [Function.update_of_ne hl] at hmem
        exact Or.inl hmem
  | thread t hthread =>
      simp only [Process.afterThread, queueAll_apply] at hmem
      exact Or.inl hmem
  | start l₀ => exact Or.inl (hkept l₀ _ hmem rfl)
  | test l₀ => exact Or.inl (hkept l₀ _ hmem rfl)
  | handled l₀ => exact Or.inl (hkept l₀ _ hmem rfl)
  | swap l₀ => exact Or.inl (hkept l₀ _ hmem rfl)
  | passed l₀ => exact Or.inl (hkept l₀ _ hmem rfl)
  | quit l₀ => exact Or.inl (hkept l₀ _ hmem rfl)

/-- Where pushed functors come from: a call, or an action of a foreign thread. -/
theorem Steps.pushed (h : Steps app s label s') (l : L) :
    (s'.world = s.world ∧ (s'.loops l).pushed = (s.loops l).pushed) ∨
      (∃ l' o a rest e, (s.loops l').todo = a :: rest ∧ app.call l' a o s.world = .ok e ∧
        s'.world = e.world ∧ (s'.loops l).pushed = (s.loops l).pushed ++ queuedTo l e.queued) ∨
      (∃ t out, app.thread t s.world = some (.ok out) ∧ s'.world = out.1 ∧
        (s'.loops l).pushed = (s.loops l).pushed ++ queuedTo l out.2) := by
  have hset : ∀ l₀ lp, lp.pushed = (s.loops l₀).pushed →
      ((s.setLoop l₀ lp).loops l).pushed = (s.loops l).pushed := by
    intro l₀ lp hlp
    by_cases hl : l = l₀
    · subst hl
      simpa [Process.setLoop] using hlp
    · simp [Process.setLoop, Function.update_of_ne hl]
  cases h with
  | start l₀ => exact Or.inl ⟨rfl, hset l₀ _ rfl⟩
  | test l₀ => exact Or.inl ⟨rfl, hset l₀ _ rfl⟩
  | poll l₀ => exact Or.inl ⟨rfl, hset l₀ _ rfl⟩
  | handled l₀ => exact Or.inl ⟨rfl, hset l₀ _ rfl⟩
  | swap l₀ => exact Or.inl ⟨rfl, hset l₀ _ rfl⟩
  | functor l₀ => exact Or.inl ⟨rfl, hset l₀ _ rfl⟩
  | passed l₀ => exact Or.inl ⟨rfl, hset l₀ _ rfl⟩
  | quit l₀ => exact Or.inl ⟨rfl, hset l₀ _ rfl⟩
  | @call l' o a rest e htodo hcall =>
      refine Or.inr (Or.inl ⟨l', o, a, rest, e, htodo, hcall, rfl, ?_⟩)
      simp only [Process.afterCall, queueAll_apply]
      by_cases hl : l = l'
      · subst hl
        simp
      · simp [Function.update_of_ne hl]
  | @thread t out hout =>
      refine Or.inr (Or.inr ⟨t, out, hout, rfl, ?_⟩)
      simp only [Process.afterThread, queueAll_apply]

end Loop

/-! ### The queue -/

section Order

variable {L T A F O W : Type} [DecidableEq L] {app : App L T A F O W} {s s' : Process L A F W}

/-- What the pushes of a loop have become: executed, in the batch, or still queued. -/
structure QueueInv (lp : EventLoop A F) : Prop where
  split : lp.executed ++ lp.functors.drop lp.i ++ lp.pendingFunctors = lp.pushed
  idle : lp.phase ≠ .calling → lp.functors = [] ∧ lp.i = 0
  index_le : lp.i ≤ lp.functors.length
  pass : lp.phase = .calling → lp.executed = lp.passStart ++ lp.functors.take lp.i

theorem create_queueInv (todo : List A) : QueueInv (EventLoop.create todo : EventLoop A F) := by
  refine ⟨rfl, fun _ => ⟨rfl, rfl⟩, Nat.le_refl _, ?_⟩
  simp [EventLoop.create]

theorem LoopMove.queueInv {body : F → List A} {lp lp' : EventLoop A F} {cbs : List F}
    (h : LoopMove body lp cbs lp') (hq : QueueInv lp) : QueueInv lp' := by
  cases h with
  | queued =>
      refine ⟨?_, hq.idle, hq.index_le, hq.pass⟩
      simp only [EventLoop.enqueue, ← hq.split, List.append_assoc]
  | called =>
      refine ⟨?_, hq.idle, hq.index_le, hq.pass⟩
      simp only [EventLoop.enqueue, ← hq.split, List.append_assoc]
  | start hph =>
      have := hq.idle (by simp [hph])
      exact ⟨hq.split, fun _ => this, hq.index_le, by simp⟩
  | test hph =>
      have := hq.idle (by simp [hph])
      refine ⟨hq.split, fun _ => this, hq.index_le, fun hc => ?_⟩
      simp only at hc
      split at hc <;> cases hc
  | poll _ hph =>
      have := hq.idle (by simp [hph])
      exact ⟨hq.split, fun _ => this, hq.index_le, by simp⟩
  | handled hph =>
      have := hq.idle (by simp [hph])
      exact ⟨hq.split, fun _ => this, hq.index_le, by simp⟩
  | swap hph =>
      -- before the swap no batch is left over, so the queue becomes the whole rest
      obtain ⟨hnil, hzero⟩ := hq.idle (by simp [hph])
      have hsplit := hq.split
      simp only [hnil, List.drop_nil, List.append_nil] at hsplit
      exact ⟨by simpa using hsplit, by simp, Nat.zero_le _, by simp⟩
  | @functor cb hph _ hcb =>
      obtain ⟨hlt, hget⟩ := List.getElem?_eq_some_iff.mp hcb
      have hdrop : lp.functors.drop lp.i = cb :: lp.functors.drop (lp.i + 1) := by
        rw [List.drop_eq_getElem_cons hlt, hget]
      refine ⟨?_, fun hne => absurd hph hne, hlt, fun _ => ?_⟩
      · simp only [← hq.split, hdrop, List.append_assoc, List.cons_append, List.nil_append]
      · simp only [hq.pass hph, List.append_assoc, List.take_add_one, hcb, Option.toList_some]
  | passed hph _ hlen =>
      have hsplit := hq.split
      rw [List.drop_of_length_le hlen] at hsplit
      exact ⟨by simpa using hsplit, fun _ => ⟨rfl, rfl⟩, Nat.le_refl _, by simp⟩
  | quit => exact ⟨hq.split, hq.idle, hq.index_le, hq.pass⟩

theorem reachable_queueInv {ok : Process L A F W → Label L T A O → Prop}
    (h : app.system.ReachableBy ok s) (l : L) : QueueInv (s.loops l) := by
  refine h.invariant (P := fun s => QueueInv (s.loops l)) ?_ ?_
  · intro s hinit
    obtain ⟨todo, hl⟩ := hinit.2 l
    rw [hl]
    exact create_queueInv todo
  · intro s i s' _ _ hq hnext
    obtain ⟨cbs, hmove, -⟩ := (next_iff_steps.mp hnext).loopMove l
    exact hmove.queueInv hq

/-- During a pass nothing but its end changes the batch. -/
theorem LoopMove.batch_fixed {body : F → List A} {lp lp' : EventLoop A F} {cbs : List F}
    (h : LoopMove body lp cbs lp') (hph : lp.phase = .calling) (hph' : lp'.phase = .calling) :
    lp'.functors = lp.functors ∧ lp'.passStart = lp.passStart := by
  cases h <;> simp_all [EventLoop.enqueue]

/-- **Queued work runs once, in order.** In every reachable state the functors executed
so far, then the rest of the batch, then the queue are the pushes in push order. While
a pass runs, its batch is fixed, it has executed a part of that batch from the front and
everything queued since the swap is still in the queue; when no call is left to make,
either the next functor of the batch starts or the whole batch has been executed and the
pass ends. -/
theorem queue_in_order (app : App L T A F O W) (h : app.system.Reachable s) (l : L) :
    (s.loops l).executed ++ (s.loops l).functors.drop (s.loops l).i ++
        (s.loops l).pendingFunctors = (s.loops l).pushed ∧
      ((s.loops l).phase = .calling →
        (s.loops l).executed = (s.loops l).passStart ++ (s.loops l).functors.take (s.loops l).i ∧
        (s.loops l).passStart ++ (s.loops l).functors ++ (s.loops l).pendingFunctors =
          (s.loops l).pushed ∧
        (∀ label s', app.system.Next label s s' → (s'.loops l).phase = .calling →
          (s'.loops l).functors = (s.loops l).functors ∧
            (s'.loops l).passStart = (s.loops l).passStart) ∧
        ((s.loops l).todo = [] →
          (∃ s', app.system.Next (.functor l) s s') ∨
            (s.loops l).executed = (s.loops l).passStart ++ (s.loops l).functors ∧
              ∃ s', app.system.Next (.passed l) s s')) := by
  have hq := reachable_queueInv h l
  refine ⟨hq.split, fun hph => ⟨hq.pass hph, ?_, ?_, ?_⟩⟩
  · have hsplit := hq.split
    rw [hq.pass hph, List.append_assoc (s.loops l).passStart, List.take_append_drop] at hsplit
    exact hsplit
  · intro label s' hnext hph'
    obtain ⟨cbs, hmove, -⟩ := (next_iff_steps.mp hnext).loopMove l
    exact hmove.batch_fixed hph hph'
  · intro htodo
    cases hcb : (s.loops l).functors[(s.loops l).i]? with
    | some cb => exact Or.inl ⟨_, next_iff_steps.mpr (.functor l hph htodo hcb)⟩
    | none =>
        have hlen := List.getElem?_eq_none_iff.mp hcb
        have hall := hq.pass hph
        rw [List.take_of_length_le hlen] at hall
        exact Or.inr ⟨hall, _, next_iff_steps.mpr (.passed l hph htodo hlen)⟩

end Order

/-! ### Functors of user code on one loop -/

/-- What a functor of user code calls on its own loop. -/
inductive LoopCall where
  | queueInLoop (cb : Nat)
  | runInLoop (cb : Nat)
deriving DecidableEq, Repr

/-- One loop that runs numbered functors; `prog` is what each of them calls. Foreign
threads queue any of them at any time. -/
def functorApp (prog : Nat → List LoopCall) : App Unit Nat LoopCall Nat Unit Unit where
  init _ _ := True
  body := prog
  ready _ _ _ := true
  call l a _ w :=
    match a with
    | .queueInLoop cb => .ok { world := w, queued := [(l, cb)] }
    | .runInLoop cb =>
        .ok { world := w, calls := (runInLoop prog l l cb).1, queued := (runInLoop prog l l cb).2 }
  thread cb w := some (.ok (w, [((), cb)]))

/-- A newly constructed loop whose thread calls `loop()` next. -/
def functorStart : Process Unit LoopCall Nat Unit := ⟨(), fun _ => EventLoop.create []⟩

theorem functorStart_init (prog : Nat → List LoopCall) :
    (functorApp prog).system.init functorStart :=
  ⟨trivial, fun _ => ⟨[], rfl⟩⟩

/-- Functor 0 runs functor 1, which queues functor 2, while a foreign thread queues
functor 3: the pass runs functor 0 alone, and 2 and 3 wait in push order. -/
theorem queue_in_order_nested :
    ∃ s, (functorApp fun cb => [[.runInLoop 1], [.queueInLoop 2]].getD cb []).system.Reachable s ∧
      (s.loops ()).executed = [0] ∧ (s.loops ()).pendingFunctors = [2, 3] ∧
      (s.loops ()).pushed = [0, 2, 3] := by
  obtain ⟨s, hs, hp⟩ := System.exists_reachable_of_replay
    (functorApp fun cb => [[.runInLoop 1], [.queueInLoop 2]].getD cb []).system
    [.start (), .test (), .poll () [], .thread 0, .handled (), .swap (), .functor (), .call () (),
      .call () (), .thread 3, .passed ()]
    functorStart
    (fun s => (s.loops ()).executed == [0] && (s.loops ()).pendingFunctors == [2, 3] &&
      (s.loops ()).functors == [])
    (functorStart_init _) (by decide)
  have hsplit := (queue_in_order _ hs ()).1
  simp only [Bool.and_eq_true, beq_iff_eq] at hp
  obtain ⟨⟨hex, hpend⟩, hfun⟩ := hp
  rw [hex, hpend, hfun, List.drop_nil] at hsplit
  exact ⟨s, hs, hex, hpend, hsplit.symm⟩

/-! ### Wakeups -/

/-- The loop sits in `epoll_wait` with a functor queued and no wakeup to come. -/
def Starved {A F : Type} (lp : EventLoop A F) : Prop :=
  lp.phase = .polling ∧ lp.pendingFunctors ≠ [] ∧ lp.wakeupReadable = false

/-- A foreign thread queues a functor while the loop sits in `epoll_wait`: nothing makes
the call return. -/
theorem queued_functor_starves :
    ∃ s, (functorApp fun _ => []).system.Reachable s ∧ Starved (s.loops ()) := by
  obtain ⟨s, hs, hp⟩ := System.exists_reachable_of_replay
    (functorApp fun _ => []).system
    [.start (), .test (), .thread 0] functorStart
    (fun s => (s.loops ()).phase == .polling && (s.loops ()).pendingFunctors == [0] &&
      !(s.loops ()).wakeupReadable)
    (functorStart_init _) (by decide)
  simp only [Bool.and_eq_true, beq_iff_eq, Bool.not_eq_true'] at hp
  obtain ⟨⟨hph, hpend⟩, hwake⟩ := hp
  exact ⟨s, hs, hph, by simp [hpend], hwake⟩

section Wakeup

variable {L T A F O W : Type} [DecidableEq L] {s : Process L A F W}

/-- The step queues functors only on loops that are between the return of `epoll_wait`
and the swap of `doPendingFunctors`. -/
def QueuesBeforeSwap (app : App L T A F O W) (s : Process L A F W) (label : Label L T A O) : Prop :=
  ∀ l, Queues app s l label → (s.loops l).phase = .handling ∨ (s.loops l).phase = .swapping

/-- From the swap to the return of `epoll_wait` the queue stays empty. -/
theorem LoopMove.queue_empty {body : F → List A} {lp lp' : EventLoop A F} {cbs : List F}
    (h : LoopMove body lp cbs lp')
    (hcbs : cbs ≠ [] → lp.phase = .handling ∨ lp.phase = .swapping)
    (hempty : lp.phase ≠ .handling → lp.phase ≠ .swapping → lp.pendingFunctors = []) :
    lp'.phase ≠ .handling → lp'.phase ≠ .swapping → lp'.pendingFunctors = [] := by
  have hnone : lp.phase ≠ .handling → lp.phase ≠ .swapping → cbs = [] := by
    intro h₁ h₂
    by_contra hne
    rcases hcbs hne with hph | hph
    · exact h₁ hph
    · exact h₂ hph
  cases h with
  | queued =>
      intro h₁ h₂
      simp [EventLoop.enqueue, hempty h₁ h₂, hnone h₁ h₂]
  | called =>
      intro h₁ h₂
      simp [EventLoop.enqueue, hempty h₁ h₂, hnone h₁ h₂]
  | start hph => exact fun _ _ => hempty (by simp [hph]) (by simp [hph])
  | test hph => exact fun _ _ => hempty (by simp [hph]) (by simp [hph])
  | poll => simp
  | handled => simp
  | swap => exact fun _ _ => rfl
  | functor => exact hempty
  | passed hph => exact fun _ _ => hempty (by simp [hph]) (by simp [hph])
  | quit => exact hempty

/-- **No lost wakeup, as far as it goes.** In every run whose steps queue functors only
between the return of `epoll_wait` and the swap, no loop ever sits in `epoll_wait` with a
functor queued and no wakeup to come. -/
theorem no_lost_wakeup_if_queued_before_swap (app : App L T A F O W)
    (h : app.system.ReachableBy (QueuesBeforeSwap app) s) (l : L) : ¬ Starved (s.loops l) := by
  have hempty : (s.loops l).phase ≠ .handling → (s.loops l).phase ≠ .swapping →
      (s.loops l).pendingFunctors = [] := by
    refine h.invariant (P := fun s => (s.loops l).phase ≠ .handling →
      (s.loops l).phase ≠ .swapping → (s.loops l).pendingFunctors = []) ?_ ?_
    · intro s hinit _ _
      obtain ⟨todo, hl⟩ := hinit.2 l
      rw [hl]
      rfl
    · intro s i s' _ hok hq hnext
      obtain ⟨cbs, hmove, hcbs⟩ := (next_iff_steps.mp hnext).loopMove l
      exact hmove.queue_empty (fun hne => hok l (hcbs hne)) hq
  rintro ⟨hph, hne, -⟩
  exact hne (hempty (by simp [hph]) (by simp [hph]))

end Wakeup

/-- The loop thread queues a functor while it handles events; the functor has run when
the loop is back in `epoll_wait`. -/
theorem no_lost_wakeup_handling :
    ∃ s, (functorApp fun _ => []).system.ReachableBy (QueuesBeforeSwap (functorApp fun _ => [])) s ∧
      (s.loops ()).phase = .polling ∧ (s.loops ()).executed = [7] ∧ ¬ Starved (s.loops ()) := by
  have hbefore : ∀ (label : Label Unit Nat LoopCall Unit) (s : Process Unit LoopCall Nat Unit),
      (match label with
        | .call l _ => (s.loops l).phase == .handling
        | .thread _ => false
        | _ => true) = true → QueuesBeforeSwap (functorApp fun _ => []) s label := by
    intro label s htest l hq
    cases label with
    | call l' o => exact Or.inl (by simpa using htest)
    | _ => simp_all [Queues]
  obtain ⟨s, hs, hp⟩ := System.exists_reachableBy_of_replay
    (functorApp fun _ => []).system
    (fun s label => match label with
      | .call l _ => (s.loops l).phase == .handling
      | .thread _ => false
      | _ => true)
    [.start (), .test (), .poll () [.queueInLoop 7], .call () (), .handled (), .swap (),
      .functor (), .passed (), .test ()]
    functorStart
    (fun s => (s.loops ()).phase == .polling && (s.loops ()).executed == [7])
    (functorStart_init _) (fun label _ s _ => hbefore label s) (by decide)
  simp only [Bool.and_eq_true, beq_iff_eq] at hp
  exact ⟨s, hs, hp.1, hp.2, no_lost_wakeup_if_queued_before_swap _ hs ()⟩

end Reactor
