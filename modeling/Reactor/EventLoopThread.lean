import Reactor.EventLoop

/-!
# A loop in a thread of its own (`EventLoopThread.h`, `EventLoopThread.cpp`)

`threadFunc` constructs a loop, runs the init callback, publishes `loop_` and calls `loop()`;
when that returns it clears `loop_` and the loop is gone. The owner, on its own thread, calls
`startLoop` and later destroys the object: set `exiting_`, read `loop_`, call `quit()`, join.
Whoever has a pointer to the loop may call `quit()` too.

* `threadSystem` - the two threads, interleaved at every access to shared data.
* `quit_is_lost` - `loop()` clears `_quit` on entry, and `quit()` does not wake a loop that sits
  in `epoll_wait`.
* `quit_heard` - a request made at any other time is not lost.
-/

namespace Reactor

open Reactor.Lib

/-- Where `threadFunc` stands. -/
inductive ThreadStage where
  | notStarted
  /-- the loop is constructed, `callback_` runs -/
  | initializing
  /-- `loop_` is set, `loop()` not yet entered -/
  | published
  /-- `loop()` was entered -/
  | looping
  /-- `loop_` is cleared and the loop destroyed -/
  | finished
deriving DecidableEq, Repr

/-- Where the owner stands: the object is constructed, `startLoop` waits for `loop_` and
returns, the destructor has set `exiting_`, has found `loop_` set, waits in `join`, is done. -/
inductive OwnerStage where
  | constructed
  | waiting
  | started
  | exiting
  | quitting
  | joining
  | done
deriving DecidableEq, Repr

/-- An `EventLoopThread` with its loop and what that runs. `quitCalled` records that `quit()`
was called on the published loop. -/
structure EventLoopThread (A F W : Type) where
  proc : Process Unit A F W
  loop_ : Bool
  exiting_ : Bool
  stage : ThreadStage
  owner : OwnerStage
  quitCalled : Bool

/-- The steps of the two threads; `run` is a step of the loop, of what it runs, or a `quit()`
of someone who has the pointer. -/
inductive ThreadLabel (T A O : Type) where
  | startLoop
  | startLoopReturns
  | publish
  | run (label : Label Unit T A O)
  | loopReturned
  | destroy
  | readLoop
  | quit
  | join

namespace EventLoopThread

variable {T A F O W : Type}

/-- The constructor. -/
def create (proc : Process Unit A F W) : EventLoopThread A F W :=
  { proc := proc, loop_ := false, exiting_ := false, stage := .notStarted, owner := .constructed
    quitCalled := false }

/-- `threadFunc` can make the step: calls of the init callback before `loop()`, one call of
`loop()`; anyone else while the loop is there. -/
def canRun (s : EventLoopThread A F W) : Label Unit T A O → Bool
  | .start _ => s.stage = .published
  | .call _ _ => s.stage = .initializing || s.stage = .looping
  | .thread _ => s.stage = .initializing || s.stage = .published || s.stage = .looping
  | .quit _ => s.stage = .initializing || s.stage = .published || s.stage = .looping
  | _ => s.stage = .looping

/-- What a step of the loop means to the thread. -/
def afterRun (s : EventLoopThread A F W) (label : Label Unit T A O) (proc : Process Unit A F W) :
    EventLoopThread A F W :=
  match label with
  | .start _ => { s with proc := proc, stage := .looping }
  | .quit _ => { s with proc := proc, quitCalled := s.quitCalled || s.loop_ }
  | _ => { s with proc := proc }

def step (app : App Unit T A F O W) (label : ThreadLabel T A O) (s : EventLoopThread A F W) :
    Option (Exec (EventLoopThread A F W)) :=
  match label with
  | .startLoop =>
      match s.owner with
      | .constructed => some (.ok { s with stage := .initializing, owner := .waiting })
      | .started => some (.error (.assertion .startLoop_started))
      | _ => none
  | .startLoopReturns =>
      if s.owner = .waiting ∧ s.loop_ then some (.ok { s with owner := .started }) else none
  | .publish =>
      if s.stage = .initializing ∧ (s.proc.loops ()).todo.isEmpty then
        some (.ok { s with stage := .published, loop_ := true })
      else none
  | .run label =>
      if s.canRun label then (app.step label s.proc).map (·.map (s.afterRun label)) else none
  | .loopReturned =>
      if s.stage = .looping ∧ (s.proc.loops ()).phase = .outside then
        some (.ok { s with stage := .finished, loop_ := false })
      else none
  | .destroy =>
      if s.owner = .constructed ∨ s.owner = .started then
        some (.ok { s with exiting_ := true, owner := .exiting })
      else none
  | .readLoop =>
      if s.owner = .exiting then
        some (.ok { s with owner := if s.loop_ then .quitting else .done })
      else none
  | .quit =>
      if s.owner = .quitting then
        -- `loop_` is read again for the call
        if s.loop_ then
          some (.ok { s with
            proc := s.proc.setLoop () { s.proc.loops () with quit := true }
            owner := .joining, quitCalled := true })
        else some (.error .badAccess)
      else none
  | .join =>
      if s.owner = .joining ∧ s.stage = .finished then some (.ok { s with owner := .done })
      else none

end EventLoopThread

section System

variable {T A F O W : Type}

/-- The runs of an `EventLoopThread` whose loop runs `app`. -/
def threadSystem (app : App Unit T A F O W) :
    System (EventLoopThread A F W) (ThreadLabel T A O) Fault where
  init s := ∃ proc, app.system.init proc ∧ s = .create proc
  step := EventLoopThread.step app

/-- The loop is blocked in `epoll_wait` and nothing is there to wake it. -/
def EventLoopThread.Asleep (s : EventLoopThread A F W) : Prop :=
  (s.proc.loops ()).phase = .polling ∧ (s.proc.loops ()).wakeupReadable = false

/-- The loop stands at `while (!_quit)` and will start another iteration. -/
def EventLoopThread.GoesOn (s : EventLoopThread A F W) : Prop :=
  (s.proc.loops ()).phase = .test ∧ (s.proc.loops ()).quit = false

/-- `quit()` is called on the published loop only when `loop()` has been entered and does not
sit in `epoll_wait`. -/
def QuitsInTime (s : EventLoopThread A F W) : ThreadLabel T A O → Prop
  | .run (.quit _) => s.loop_ = true → s.stage = .looping ∧ (s.proc.loops ()).phase ≠ .polling
  | .quit => s.stage = .looping ∧ (s.proc.loops ()).phase ≠ .polling
  | _ => True

/-- What the request leaves behind: `_quit` stays set and the loop does not wait. -/
structure Heard (s : EventLoopThread A F W) : Prop where
  quit : (s.proc.loops ()).quit = true
  phase : (s.proc.loops ()).phase ≠ .polling
  stage : s.stage = .looping ∨ s.stage = .finished

variable {app : App Unit T A F O W} {s s' : EventLoopThread A F W} {label : ThreadLabel T A O}

/-- A step of the loop other than entering it keeps the request. -/
theorem Steps.heard {p p' : Process Unit A F W} {label : Label Unit T A O}
    (h : Steps app p label p') (hstart : ∀ l, label ≠ .start l) (hquit : (p.loops ()).quit = true)
    (hph : (p.loops ()).phase ≠ .polling) :
    (p'.loops ()).quit = true ∧ (p'.loops ()).phase ≠ .polling := by
  cases h with
  | start l => exact absurd rfl (hstart l)
  | test l => simp [Process.setLoop, hquit]
  | poll l active hpoll => exact absurd hpoll hph
  | handled l => simp [Process.setLoop, hquit]
  | swap l => simp [Process.setLoop, hquit]
  | functor l => simp [Process.setLoop, hquit, hph]
  | passed l => simp [Process.setLoop, hquit]
  | quit l => simp [Process.setLoop, hph]
  | call l o => simp [Process.afterCall, queueAll_apply, hquit, hph]
  | thread t => simp [Process.afterThread, queueAll_apply, hquit, hph]

/-- A request on the published loop has been heard, and before `startLoop` there is none. -/
structure QuitInv (s : EventLoopThread A F W) : Prop where
  fresh : s.owner = .constructed → s.stage = .notStarted
  heard : s.quitCalled = true → Heard s

/-- What the owner's thread does besides `quit()` keeps the request. -/
theorem QuitInv.owner (h : QuitInv s) {owner : OwnerStage} (howner : owner ≠ .constructed)
    (exiting : Bool) : QuitInv { s with exiting_ := exiting, owner := owner } := by
  refine ⟨fun heq => absurd heq howner, fun hcalled => ?_⟩
  have hheard := h.heard hcalled
  exact ⟨hheard.quit, hheard.phase, hheard.stage⟩

theorem QuitInv.run {label : Label Unit T A O} {p : Process Unit A F W} (h : QuitInv s)
    (hok : QuitsInTime s (.run label : ThreadLabel T A O)) (hcan : s.canRun label = true)
    (hstep : Steps app s.proc label p) : QuitInv (s.afterRun label p) := by
  have hkeep : (∀ l, label ≠ .start l) → (∀ l, label ≠ .quit l) →
      QuitInv { s with proc := p } := by
    intro hstart hquit
    refine ⟨h.fresh, fun hcalled => ?_⟩
    have hh := h.heard hcalled
    obtain ⟨hq, hph⟩ := hstep.heard hstart hh.quit hh.phase
    exact ⟨hq, hph, hh.stage⟩
  cases label with
  | start l =>
      have hpub : s.stage = .published := by simpa [EventLoopThread.canRun] using hcan
      constructor
      · intro howner
        exact absurd ((h.fresh howner).symm.trans hpub) (by simp)
      · intro hcalled
        rcases (h.heard hcalled).stage with hs | hs
        · cases hs.symm.trans hpub
        · cases hs.symm.trans hpub
  | quit l =>
      cases hstep
      constructor
      · exact h.fresh
      · intro hcalled
        have hloop : s.stage = .looping ∧ (s.proc.loops ()).phase ≠ .polling ∨ Heard s := by
          rcases Bool.or_eq_true_iff.mp hcalled with hc | hc
          · exact Or.inr (h.heard hc)
          · exact Or.inl (hok hc)
        rcases hloop with ⟨hs, hph⟩ | hh
        · exact ⟨by simp [EventLoopThread.afterRun, Process.setLoop],
            by simpa [EventLoopThread.afterRun, Process.setLoop] using hph, Or.inl hs⟩
        · exact ⟨by simp [EventLoopThread.afterRun, Process.setLoop],
            by simpa [EventLoopThread.afterRun, Process.setLoop] using hh.phase, hh.stage⟩
  | test l => exact hkeep (by simp) (by simp)
  | poll l active => exact hkeep (by simp) (by simp)
  | call l o => exact hkeep (by simp) (by simp)
  | handled l => exact hkeep (by simp) (by simp)
  | swap l => exact hkeep (by simp) (by simp)
  | functor l => exact hkeep (by simp) (by simp)
  | passed l => exact hkeep (by simp) (by simp)
  | thread t => exact hkeep (by simp) (by simp)

theorem QuitInv.step (h : QuitInv s) (hok : QuitsInTime s label)
    (hnext : (threadSystem app).Next label s s') : QuitInv s' := by
  change EventLoopThread.step app label s = some (.ok s') at hnext
  cases label with
  | startLoop =>
      simp only [EventLoopThread.step] at hnext
      split at hnext <;> cases hnext
      rename_i howner
      constructor
      · simp
      · intro hcalled
        have hstage := (h.heard hcalled).stage
        simp [h.fresh howner] at hstage
  | startLoopReturns =>
      simp only [EventLoopThread.step] at hnext
      split at hnext <;> cases hnext
      exact h.owner (by simp) s.exiting_
  | publish =>
      simp only [EventLoopThread.step] at hnext
      split at hnext <;> cases hnext
      rename_i hc
      constructor
      · intro howner
        exact absurd ((h.fresh howner).symm.trans hc.1) (by simp)
      · intro hcalled
        have hstage := (h.heard hcalled).stage
        simp [hc.1] at hstage
  | run label =>
      simp only [EventLoopThread.step] at hnext
      split at hnext
      · rename_i hcan
        obtain ⟨p, hstep, rfl⟩ := map_eq_some_ok.mp hnext
        exact h.run hok hcan (next_iff_steps.mp hstep)
      · cases hnext
  | loopReturned =>
      simp only [EventLoopThread.step] at hnext
      split at hnext <;> cases hnext
      rename_i hc
      constructor
      · intro howner
        exact absurd ((h.fresh howner).symm.trans hc.1) (by simp)
      · intro hcalled
        exact ⟨(h.heard hcalled).quit, (h.heard hcalled).phase, Or.inr rfl⟩
  | destroy =>
      simp only [EventLoopThread.step] at hnext
      split at hnext <;> cases hnext
      exact h.owner (by simp) true
  | readLoop =>
      simp only [EventLoopThread.step] at hnext
      split at hnext <;> cases hnext
      refine h.owner ?_ s.exiting_
      split <;> simp
  | quit =>
      simp only [EventLoopThread.step] at hnext
      split at hnext
      · split at hnext <;> cases hnext
        refine ⟨by simp, fun _ => ⟨by simp [Process.setLoop], ?_, Or.inl hok.1⟩⟩
        simpa [Process.setLoop] using hok.2
      · cases hnext
  | join =>
      simp only [EventLoopThread.step] at hnext
      split at hnext <;> cases hnext
      exact h.owner (by simp) s.exiting_

/-- **A request made in time is heard.** In every run in which `quit()` is called on the
published loop only while `loop()` is past its entry and not in `epoll_wait`: once it was
called, the loop never sleeps in `epoll_wait` and never starts another iteration, and while the
destructor waits in `join` the loop still has the request. -/
theorem quit_heard (h : (threadSystem app).ReachableBy QuitsInTime s)
    (hcalled : s.quitCalled = true) :
    ¬ s.Asleep ∧ ¬ s.GoesOn ∧ (s.proc.loops ()).quit = true := by
  have hinv : QuitInv s := by
    refine h.invariant ?_ ?_
    · rintro s ⟨proc, -, rfl⟩
      exact ⟨fun _ => rfl, nofun⟩
    · intro s label s' _ hok hinv hnext
      exact hinv.step hok hnext
  have hh := hinv.heard hcalled
  refine ⟨fun hsleep => hh.phase hsleep.1, fun hon => ?_, hh.quit⟩
  cases hon.2.symm.trans hh.quit

end System

/-! ### Concrete runs -/

/-- A thread whose loop runs numbered functors. -/
def threadStart : EventLoopThread LoopCall Nat Unit := .create functorStart

theorem threadStart_init : (threadSystem (functorApp fun _ => [])).init threadStart :=
  ⟨_, functorStart_init _, rfl⟩

/-- The two ways to lose a request: the destructor runs between the publication of `loop_` and
the entry of `loop()`, which clears `_quit`; or it runs while the loop sits in `epoll_wait`,
which `quit()` does not end. Either way the destructor waits in `join` for a loop asleep. -/
theorem quit_is_lost :
    (∃ s, (threadSystem (functorApp fun _ => [])).Reachable s ∧ s.quitCalled = true ∧
      s.owner = .joining ∧ s.GoesOn) ∧
    ∃ s, (threadSystem (functorApp fun _ => [])).Reachable s ∧ s.quitCalled = true ∧
      s.owner = .joining ∧ s.Asleep := by
  constructor
  · obtain ⟨s, hs, hp⟩ := System.exists_reachable_of_replay
      (threadSystem (functorApp fun _ => []))
      [.startLoop, .publish, .startLoopReturns, .destroy, .readLoop, .quit, .run (.start ())]
      threadStart
      (fun s => s.quitCalled && s.owner == .joining && (s.proc.loops ()).phase == .test &&
        !(s.proc.loops ()).quit)
      threadStart_init (by decide)
    simp only [Bool.and_eq_true, beq_iff_eq, Bool.not_eq_true'] at hp
    exact ⟨s, hs, hp.1.1.1, hp.1.1.2, hp.1.2, hp.2⟩
  · obtain ⟨s, hs, hp⟩ := System.exists_reachable_of_replay
      (threadSystem (functorApp fun _ => []))
      [.startLoop, .publish, .startLoopReturns, .run (.start ()), .run (.test ()), .destroy,
        .readLoop, .quit]
      threadStart
      (fun s => s.quitCalled && s.owner == .joining && (s.proc.loops ()).phase == .polling &&
        !(s.proc.loops ()).wakeupReadable)
      threadStart_init (by decide)
    simp only [Bool.and_eq_true, beq_iff_eq, Bool.not_eq_true'] at hp
    exact ⟨s, hs, hp.1.1.1, hp.1.1.2, hp.1.2, hp.2⟩

/-- The destructor runs while the loop handles events: the loop ends its iteration and leaves,
and `join` returns. -/
theorem quit_heard_handling :
    ∃ s, (threadSystem (functorApp fun _ => [])).ReachableBy QuitsInTime s ∧
      s.owner = .done ∧ s.stage = .finished ∧ s.quitCalled = true ∧ ¬ s.Asleep ∧ ¬ s.GoesOn := by
  have hintime : ∀ (label : ThreadLabel Nat LoopCall Unit) (s : EventLoopThread LoopCall Nat Unit),
      (match label with
        | .quit => s.stage == .looping && (s.proc.loops ()).phase != .polling
        | .run (.quit _) => false
        | _ => true) = true → QuitsInTime s label := by
    intro label s htest
    cases label with
    | quit => simpa [QuitsInTime] using htest
    | run label =>
        cases label with
        | quit l => simp at htest
        | _ => exact trivial
    | _ => exact trivial
  obtain ⟨s, hs, hp⟩ := System.exists_reachableBy_of_replay
    (threadSystem (functorApp fun _ => []))
    (fun s label => match label with
      | .quit => s.stage == .looping && (s.proc.loops ()).phase != .polling
      | .run (.quit _) => false
      | _ => true)
    [.startLoop, .publish, .startLoopReturns, .run (.start ()), .run (.test ()),
      .run (.poll () []), .destroy, .readLoop, .quit, .run (.handled ()), .run (.swap ()),
      .run (.passed ()), .run (.test ()), .loopReturned, .join]
    threadStart
    (fun s => s.owner == .done && s.stage == .finished && s.quitCalled)
    threadStart_init (fun label _ s _ => hintime label s) (by decide)
  simp only [Bool.and_eq_true, beq_iff_eq] at hp
  obtain ⟨hawake, hends, -⟩ := quit_heard hs hp.2
  exact ⟨s, hs, hp.1.1, hp.1.2, hp.2, hawake, hends⟩

end Reactor
