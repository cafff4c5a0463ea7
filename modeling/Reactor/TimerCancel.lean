import Reactor.LoopWork
import Reactor.TimerQueue

/-!
# Adding and cancelling timers from any thread (`TimerQueue::addTimer`, `TimerQueue::cancel`)

`addTimer` on a foreign thread creates the timer, queues `addTimerInLoop` and returns the id at
once. `cancel` runs `cancelInLoop` at once on the loop's own thread and queues it from any
other one. A queued functor runs after what was queued before it, so only a `cancel` on the
loop's own thread can come before the `addTimerInLoop` it is about.

* `timerApp` - the loop, its user code and the foreign threads.
* `cancel_overtakes_add` - then the timer is inserted after it was cancelled.
* `cancel_wins` - in runs without that, a timer is gone for good once its `cancelInLoop` has
  run.
-/

namespace Reactor

open Reactor.Lib

/-- The calls on the loop's thread; `cancel` is called by user code. -/
inductive TimerAct where
  | addTimerInLoop (addr : Nat)
  | cancelInLoop (timerId : ActiveTimer)
  | cancel (timerId : ActiveTimer)
  | userCode
deriving DecidableEq, Repr

inductive TimerFunctor where
  | addTimerInLoop (addr : Nat)
  | cancelInLoop (timerId : ActiveTimer)
  | userCode
deriving DecidableEq, Repr

/-- The actions of foreign threads: thread `t` is in `addTimer` and has created the timer, then
queues the functor and returns; some thread calls `cancel`; some functor of the user is queued. -/
inductive TimerThread where
  | newTimer (t addr : Nat) (expiration interval : Int)
  | queueAdd (t : Nat)
  | cancel (timerId : ActiveTimer)
  | queueInLoop

/-- What the clock says, and what user code cancels. -/
structure TimerOracle where
  clock : Int
  calls : List ActiveTimer

/-- The queue, the timer each thread has created and not queued yet, the ids that `addTimer`
has returned, those that `cancel` was called for, and those that `cancelInLoop` has run for. -/
structure TimerWorld where
  queue : TimerQueue
  threads : Nat → Option ActiveTimer
  returned : List ActiveTimer
  requested : List ActiveTimer
  cancelled : List ActiveTimer

namespace TimerWorld

/-- The constructor. -/
def create : TimerWorld := ⟨.create, fun _ => none, [], [], []⟩

/-- One call on the loop's thread. User code has only the ids that were returned. -/
def call (w : TimerWorld) (o : TimerOracle) :
    TimerAct → Exec (Effect Unit TimerAct TimerFunctor TimerWorld)
  | .addTimerInLoop addr => do
      let q ← w.queue.addTimerInLoop false addr o.clock
      .ok { world := { w with queue := q } }
  | .cancelInLoop timerId => do
      let q ← w.queue.cancelInLoop false timerId
      .ok { world := { w with queue := q, cancelled := w.cancelled ++ [timerId] } }
  | .cancel timerId =>
      if timerId ∈ w.returned then
        .ok { world := { w with requested := w.requested ++ [timerId] }
              calls := [.cancelInLoop timerId] }
      else .ok { world := w }
  | .userCode => .ok { world := w, calls := o.calls.map .cancel }

def thread (w : TimerWorld) :
    TimerThread → Option (Exec (TimerWorld × List (Unit × TimerFunctor)))
  | .newTimer t addr expiration interval =>
      if (w.threads t).isSome then none
      else (w.queue.newTimer addr expiration interval).map fun q =>
        .ok ({ w with
          queue := q
          threads := Function.update w.threads t (some (addr, w.queue.numCreated + 1)) }, [])
  | .queueAdd t =>
      (w.threads t).map fun timerId =>
        .ok ({ w with threads := Function.update w.threads t none
                      returned := w.returned ++ [timerId] },
          [((), .addTimerInLoop timerId.1)])
  | .cancel timerId =>
      if timerId ∈ w.returned then
        some (.ok ({ w with requested := w.requested ++ [timerId] }, [((), .cancelInLoop timerId)]))
      else none
  | .queueInLoop => some (.ok (w, [((), .userCode)]))

end TimerWorld

def TimerFunctor.body : TimerFunctor → List TimerAct
  | .addTimerInLoop addr => [.addTimerInLoop addr]
  | .cancelInLoop timerId => [.cancelInLoop timerId]
  | .userCode => [.userCode]

/-- A loop with a timer queue. The events it handles run user code; the timerfd's own event
is not among them. -/
def timerApp : App Unit TimerThread TimerAct TimerFunctor TimerOracle TimerWorld where
  init w loops := w = .create ∧ loops () = EventLoop.create []
  body := TimerFunctor.body
  ready _ active _ := active.all (· = .userCode)
  call _ a o w := w.call o a
  thread t w := w.thread t

abbrev TimerProcess := Process Unit TimerAct TimerFunctor TimerWorld

abbrev TimerStep := Label Unit TimerThread TimerAct TimerOracle

/-- No `cancel` on the loop's own thread comes before the `addTimerInLoop` of its timer. -/
def NotOvertaking (q : TimerQueue) (work : List TimerAct) : Prop :=
  ∀ timerId tail, work = .cancel timerId :: tail → q.Exists timerId →
    .addTimerInLoop timerId.1 ∉ tail

/-- The next call on the loop's thread is not such a `cancel`. -/
def CancelsAfterAdd (s : TimerProcess) : TimerStep → Prop
  | .call _ _ => NotOvertaking s.world.queue (s.work timerApp ())
  | _ => True

/-! ### The invariant -/

/-- What two calls to come have to do with each other: no timer is added after it is cancelled,
and none is added twice. -/
def Apart (q : TimerQueue) : TimerAct → TimerAct → Prop
  | .cancelInLoop timerId, .addTimerInLoop addr => addr = timerId.1 → ¬ q.Exists timerId
  | .addTimerInLoop addr, .addTimerInLoop addr' => addr ≠ addr'
  | _, _ => True

/-- Calls stay apart when no id that is cancelled gets a timer. -/
theorem Apart.mono {q q' : TimerQueue} {a b : TimerAct} (h : Apart q a b)
    (hexists : ∀ timerId, a = .cancelInLoop timerId → q'.Exists timerId → q.Exists timerId) :
    Apart q' a b := by
  cases a with
  | cancelInLoop timerId =>
      cases b with
      | addTimerInLoop addr => exact fun haddr hex => h haddr (hexists timerId rfl hex)
      | _ => trivial
  | addTimerInLoop addr => cases b <;> exact h
  | _ => trivial

/-- Where the timers are: held by a thread in `addTimer`, to be added, or active. -/
structure CancelInv (w : TimerWorld) (work : List TimerAct) : Prop where
  agree : w.queue.SetsAgree
  placed : ∀ addr timer, w.queue.heap addr = some timer →
    (∃ t, w.threads t = some (addr, timer.sequence)) ∨ .addTimerInLoop addr ∈ work ∨
      (addr, timer.sequence) ∈ w.queue.activeTimers
  waiting : ∀ addr, .addTimerInLoop addr ∈ work → (∃ timer, w.queue.heap addr = some timer) ∧
    ∀ sequence, (addr, sequence) ∉ w.queue.activeTimers
  held : ∀ t timerId, w.threads t = some timerId → w.queue.Exists timerId ∧
    timerId ∉ w.returned ∧ .addTimerInLoop timerId.1 ∉ work ∧
    (∀ sequence, (timerId.1, sequence) ∉ w.queue.activeTimers) ∧
    ∀ t' timerId', w.threads t' = some timerId' → timerId'.1 = timerId.1 → t' = t
  created : ∀ addr timer, w.queue.heap addr = some timer → timer.sequence ≤ w.queue.numCreated
  returned : ∀ timerId ∈ w.returned, timerId.2 ≤ w.queue.numCreated
  apart : work.Pairwise (Apart w.queue)
  cancels : ∀ timerId, .cancelInLoop timerId ∈ work → timerId ∈ w.returned
  requested : ∀ timerId ∈ w.requested, .cancelInLoop timerId ∈ work ∨ timerId ∈ w.cancelled
  cancelled : ∀ timerId ∈ w.cancelled, timerId ∈ w.returned ∧ ¬ w.queue.Exists timerId

section Invariant

variable {w : TimerWorld} {work tail : List TimerAct}

theorem create_cancelInv : CancelInv .create [] where
  agree := TimerQueue.create_setsAgree
  placed := by simp [TimerWorld.create, TimerQueue.create]
  waiting := by simp
  held := by simp [TimerWorld.create]
  created := by simp [TimerWorld.create, TimerQueue.create]
  returned := by simp [TimerWorld.create]
  apart := List.Pairwise.nil
  cancels := by simp
  requested := by simp [TimerWorld.create]
  cancelled := by simp [TimerWorld.create]

/-- Calls that neither add nor cancel come and go. -/
theorem CancelInv.of_mem {work' : List TimerAct} (h : CancelInv w work)
    (hapart : work'.Pairwise (Apart w.queue))
    (hadd : ∀ addr, .addTimerInLoop addr ∈ work' ↔ .addTimerInLoop addr ∈ work)
    (hcancel : ∀ timerId, .cancelInLoop timerId ∈ work' ↔ .cancelInLoop timerId ∈ work) :
    CancelInv w work' where
  agree := h.agree
  placed addr timer hheap := by
    rw [hadd]
    exact h.placed addr timer hheap
  waiting addr hmem := h.waiting addr ((hadd addr).mp hmem)
  held t timerId ht := by
    rw [hadd]
    exact h.held t timerId ht
  created := h.created
  returned := h.returned
  apart := hapart
  cancels timerId hmem := h.cancels timerId ((hcancel timerId).mp hmem)
  requested timerId hmem := by
    rw [hcancel]
    exact h.requested timerId hmem
  cancelled := h.cancelled

/-- Calls of user code, which concern no timer yet. -/
def TimerAct.isUser : TimerAct → Bool
  | .userCode => true
  | .cancel _ => true
  | _ => false

theorem apart_of_isUser {a : TimerAct} (ha : a.isUser = true) (q : TimerQueue) (b : TimerAct) :
    Apart q a b ∧ Apart q b a := by
  cases a with
  | userCode => exact ⟨trivial, by cases b <;> trivial⟩
  | cancel timerId => exact ⟨trivial, by cases b <;> trivial⟩
  | _ => cases ha

/-- User code comes to be called, before or after the other calls. -/
theorem CancelInv.user (h : CancelInv w work) (before after : List TimerAct)
    (hbefore : ∀ a ∈ before, a.isUser = true) (hafter : ∀ a ∈ after, a.isUser = true) :
    CancelInv w (before ++ work ++ after) := by
  have hmem : ∀ a, a.isUser = false → (a ∈ before ++ work ++ after ↔ a ∈ work) := by
    intro a ha
    have hnot : ∀ acts : List TimerAct, (∀ b ∈ acts, b.isUser = true) → a ∉ acts := by
      intro acts hacts hin
      cases ha.symm.trans (hacts a hin)
    simp [hnot before hbefore, hnot after hafter]
  apply h.of_mem
  · rw [List.pairwise_append, List.pairwise_append]
    refine ⟨⟨?_, h.apart, ?_⟩, ?_, ?_⟩
    · exact List.pairwise_of_forall_mem_list fun a ha b _ => (apart_of_isUser (hbefore a ha) _ b).1
    · exact fun a ha b _ => (apart_of_isUser (hbefore a ha) _ b).1
    · exact List.pairwise_of_forall_mem_list fun a ha b _ => (apart_of_isUser (hafter a ha) _ b).1
    · exact fun a _ b hb => (apart_of_isUser (hafter b hb) _ a).2
  · exact fun addr => hmem _ rfl
  · exact fun timerId => hmem _ rfl

/-- The timer at the head of the calls to come is added. -/
theorem CancelInv.add {addr : Nat} {q : TimerQueue} {clock : Int}
    (h : CancelInv w (.addTimerInLoop addr :: tail))
    (hadd : w.queue.addTimerInLoop false addr clock = .ok q) :
    CancelInv { w with queue := q } tail := by
  obtain ⟨⟨timer, hheap⟩, hinactive⟩ := h.waiting addr (by simp)
  obtain ⟨q', hadd', hagree, hsame, hactive⟩ :=
    (h.agree.addTimerInLoop hheap hinactive clock :
      ∃ q', w.queue.addTimerInLoop false addr clock = _ ∧ _)
  obtain ⟨timer', -, heq⟩ := TimerQueue.addTimerInLoop_eq hadd
  cases hadd.symm.trans hadd'
  have hnum : q.numCreated = w.queue.numCreated := by rw [heq]
  have hexists : ∀ timerId, q.Exists timerId ↔ w.queue.Exists timerId := by
    intro timerId
    rw [TimerQueue.Exists, hsame]
    rfl
  have hpair := List.pairwise_cons.mp h.apart
  refine ⟨hagree, ?_, ?_, ?_, ?_, ?_, ?_, fun id hmem => h.cancels id (List.mem_cons_of_mem _ hmem),
    ?_, ?_⟩
  · intro addr' timer' hheap'
    simp only [hsame] at hheap'
    simp only [hactive, Finset.mem_insert]
    rcases h.placed addr' timer' hheap' with ht | hmem | hmem
    · exact Or.inl ht
    · rcases List.mem_cons.mp hmem with hmem | hmem
      · cases hmem
        cases hheap.symm.trans hheap'
        exact Or.inr (Or.inr (Or.inl rfl))
      · exact Or.inr (Or.inl hmem)
    · exact Or.inr (Or.inr (Or.inr hmem))
  · intro addr' hmem
    have hne : addr ≠ addr' := hpair.1 _ hmem
    obtain ⟨hex, hin⟩ := h.waiting addr' (List.mem_cons_of_mem _ hmem)
    refine ⟨by simpa only [hsame] using hex, fun sequence ha => ?_⟩
    simp only [hactive, Finset.mem_insert, Prod.mk.injEq] at ha
    rcases ha with ⟨ha, -⟩ | ha
    · exact hne ha.symm
    · exact hin sequence ha
  · intro t timerId ht
    obtain ⟨hex, hret, hnot, hin, honce⟩ := h.held t timerId ht
    refine ⟨(hexists timerId).mpr hex, hret, fun hmem => hnot (List.mem_cons_of_mem _ hmem),
      fun sequence ha => ?_, honce⟩
    simp only [hactive, Finset.mem_insert, Prod.mk.injEq] at ha
    rcases ha with ⟨ha, -⟩ | ha
    · rw [ha] at hnot
      exact hnot List.mem_cons_self
    · exact hin sequence ha
  · intro addr' timer' hheap'
    simp only [hsame] at hheap'
    simp only [hnum]
    exact h.created addr' timer' hheap'
  · intro timerId hmem
    simp only [hnum]
    exact h.returned timerId hmem
  · exact hpair.2.imp fun hab => hab.mono fun timerId _ => (hexists timerId).mp
  · intro timerId hmem
    rcases h.requested timerId hmem with hmem | hmem
    · exact Or.inl (by simpa using hmem)
    · exact Or.inr hmem
  · intro timerId hmem
    rw [hexists]
    exact h.cancelled timerId hmem

/-- The timer at the head of the calls to come is cancelled: if it is still there, it is
active, and is deleted. -/
theorem CancelInv.cancel {timerId : ActiveTimer} {q : TimerQueue}
    (h : CancelInv w (.cancelInLoop timerId :: tail))
    (hcancel : w.queue.cancelInLoop false timerId = .ok q) :
    CancelInv { w with queue := q, cancelled := w.cancelled ++ [timerId] } tail := by
  obtain ⟨q', hcancel', hagree, hactive, hkeep⟩ :=
    (h.agree.cancelInLoop timerId : ∃ q', w.queue.cancelInLoop false timerId = _ ∧ _)
  cases hcancel.symm.trans hcancel'
  have hret := h.cancels timerId (by simp)
  have hpair := List.pairwise_cons.mp h.apart
  have heq := TimerQueue.cancelInLoop_eq hcancel
  have hnum : q.numCreated = w.queue.numCreated := by
    rcases heq with ⟨-, _, -, heq⟩ | ⟨-, heq⟩ <;> rw [heq]
  have hsub : ∀ addr timer, q.heap addr = some timer → w.queue.heap addr = some timer :=
    fun addr timer hheap => TimerQueue.cancelInLoop_heap hcancel hheap
  have hsubset : ∀ id, id ∈ q.activeTimers → id ∈ w.queue.activeTimers := by
    intro id hid
    rw [hactive] at hid
    exact Finset.mem_of_mem_erase hid
  have hexists : ∀ id, q.Exists id → w.queue.Exists id := by
    rintro id ⟨timer, hheap, hseq⟩
    exact ⟨timer, hsub _ _ hheap, hseq⟩
  have hgone : ¬ q.Exists timerId := by
    rintro ⟨timer, hheap, hseq⟩
    have hheap' := hsub _ _ hheap
    rcases h.placed _ _ hheap' with ⟨t, ht⟩ | hmem | hmem
    · rw [hseq] at ht
      exact (h.held t timerId ht).2.1 hret
    · rcases List.mem_cons.mp hmem with hmem | hmem
      · cases hmem
      · exact hpair.1 _ hmem rfl ⟨timer, hheap', hseq⟩
    · rw [hseq] at hmem
      rcases heq with ⟨-, _, -, heq⟩ | ⟨hnot, -⟩
      · rw [heq] at hheap
        simp at hheap
      · exact hnot hmem
  have hstays : ∀ addr, (∀ sequence, (addr, sequence) ∉ w.queue.activeTimers) →
      ∀ timer, w.queue.heap addr = some timer → q.heap addr = some timer :=
    fun addr hin timer hheap => (hkeep addr hin).trans hheap
  refine ⟨hagree, ?_, ?_, ?_, ?_, ?_, ?_, fun id hmem => h.cancels id (List.mem_cons_of_mem _ hmem),
    ?_, ?_⟩
  · intro addr timer hheap
    rcases h.placed addr timer (hsub _ _ hheap) with ht | hmem | hmem
    · exact Or.inl ht
    · exact Or.inr (Or.inl (by simpa using hmem))
    · refine Or.inr (Or.inr ?_)
      rw [hactive, Finset.mem_erase]
      refine ⟨fun heq => ?_, hmem⟩
      subst heq
      exact hgone ⟨timer, hheap, rfl⟩
  · intro addr hmem
    obtain ⟨⟨timer, hheap⟩, hin⟩ := h.waiting addr (List.mem_cons_of_mem _ hmem)
    exact ⟨⟨timer, hstays addr hin timer hheap⟩, fun sequence ha => hin sequence (hsubset _ ha)⟩
  · intro t id ht
    obtain ⟨⟨timer, hheap, hseq⟩, hnret, hnot, hin, honce⟩ := h.held t id ht
    exact ⟨⟨timer, hstays _ hin timer hheap, hseq⟩, hnret,
      fun hmem => hnot (List.mem_cons_of_mem _ hmem), fun sequence ha => hin sequence (hsubset _ ha),
      honce⟩
  · intro addr timer hheap
    simp only [hnum]
    exact h.created addr timer (hsub _ _ hheap)
  · intro id hmem
    simp only [hnum]
    exact h.returned id hmem
  · exact hpair.2.imp fun hab => hab.mono fun timerId _ => hexists timerId
  · intro id hmem
    rcases h.requested id hmem with hmem | hmem
    · rcases List.mem_cons.mp hmem with hmem | hmem
      · cases hmem
        exact Or.inr (by simp)
      · exact Or.inl hmem
    · exact Or.inr (List.mem_append_left _ hmem)
  · intro id hmem
    rcases List.mem_append.mp hmem with hmem | hmem
    · exact ⟨(h.cancelled id hmem).1, fun hex => (h.cancelled id hmem).2 (hexists id hex)⟩
    · rw [List.mem_singleton.mp hmem]
      exact ⟨hret, hgone⟩

/-- A foreign thread creates a timer: no id with its number was returned before. -/
theorem CancelInv.newTimer {t addr : Nat} {expiration interval : Int} {q : TimerQueue}
    (h : CancelInv w work) (hidle : w.threads t = none)
    (hnew : w.queue.newTimer addr expiration interval = some q) :
    CancelInv { w with
      queue := q
      threads := Function.update w.threads t (some (addr, w.queue.numCreated + 1)) } work := by
  obtain ⟨hagree, hactive, -, hinactive, -⟩ := h.agree.newTimer hnew
  have hexists : ∀ id, id.2 ≤ w.queue.numCreated → q.Exists id → w.queue.Exists id := by
    rintro id hle ⟨timer, hheap, hseq⟩
    rcases TimerQueue.newTimer_heap_cases hnew hheap with ⟨-, rfl⟩ | hheap
    · simp only at hseq
      omega
    · exact ⟨timer, hheap, hseq⟩
  obtain ⟨-, -, -, rfl⟩ := TimerQueue.newTimer_eq hnew
  refine ⟨hagree, ?_, ?_, ?_, ?_, ?_, ?_, h.cancels, h.requested, ?_⟩
  · intro addr' timer hheap
    rcases TimerQueue.newTimer_heap_cases hnew hheap with ⟨rfl, rfl⟩ | hheap
    · exact Or.inl ⟨t, by simp⟩
    · rcases h.placed addr' timer hheap with ⟨t', ht'⟩ | hmem
      · refine Or.inl ⟨t', ?_⟩
        have hne : t' ≠ t := by
          rintro rfl
          cases hidle.symm.trans ht'
        simpa only [Function.update_of_ne hne] using ht'
      · exact Or.inr hmem
  · intro addr' hmem
    obtain ⟨⟨timer, hheap⟩, hin⟩ := h.waiting addr' hmem
    exact ⟨⟨timer, TimerQueue.newTimer_heap hnew hheap⟩, hin⟩
  · intro t' id ht'
    have hwait : .addTimerInLoop addr ∉ work := by
      intro hmem
      obtain ⟨⟨timer, hheap⟩, -⟩ := h.waiting addr hmem
      exact TimerQueue.newTimer_ne hnew hheap rfl
    have hfresh : ∀ t' id, w.threads t' = some id → id.1 ≠ addr := by
      intro t₁ id₁ h₁
      obtain ⟨⟨timer, hheap, -⟩, -⟩ := h.held t₁ id₁ h₁
      exact TimerQueue.newTimer_ne hnew hheap
    by_cases heq : t' = t
    · subst heq
      simp only [Function.update_self, Option.some.injEq] at ht'
      subst ht'
      refine ⟨⟨_, Function.update_self .., rfl⟩, fun hmem => ?_, hwait, hinactive, ?_⟩
      · have := h.returned _ hmem
        simp only at this
        omega
      · intro t'' id' ht'' haddr
        by_contra hne
        simp only [Function.update_of_ne hne] at ht''
        exact hfresh t'' id' ht'' haddr
    · simp only [Function.update_of_ne heq] at ht'
      obtain ⟨⟨timer, hheap, hseq⟩, hnret, hnot, hin, honce⟩ := h.held t' id ht'
      refine ⟨⟨timer, TimerQueue.newTimer_heap hnew hheap, hseq⟩, hnret, hnot, hin, ?_⟩
      intro t'' id' ht'' haddr
      by_cases heq' : t'' = t
      · subst heq'
        simp only [Function.update_self, Option.some.injEq] at ht''
        subst ht''
        exact absurd haddr.symm (hfresh t' id ht')
      · simp only [Function.update_of_ne heq'] at ht''
        exact honce t'' id' ht'' haddr
  · intro addr' timer hheap
    rcases TimerQueue.newTimer_heap_cases hnew hheap with ⟨-, rfl⟩ | hheap
    · exact Nat.le_refl _
    · exact Nat.le_succ_of_le (h.created addr' timer hheap)
  · intro id hmem
    exact Nat.le_succ_of_le (h.returned id hmem)
  · refine h.apart.imp_of_mem fun {a b} ha _ hab => hab.mono ?_
    rintro timerId rfl
    exact hexists timerId (h.returned timerId (h.cancels timerId ha))
  · intro id hmem
    obtain ⟨hret, hgone⟩ := h.cancelled id hmem
    exact ⟨hret, fun hex => hgone (hexists id (h.returned id hret) hex)⟩

/-- The timer's functor is queued and its id returned: no `cancelInLoop` before it is about
this timer. -/
theorem CancelInv.queueAdd {t : Nat} {timerId : ActiveTimer} (h : CancelInv w work)
    (ht : w.threads t = some timerId) :
    CancelInv { w with threads := Function.update w.threads t none
                       returned := w.returned ++ [timerId] }
      (work ++ [.addTimerInLoop timerId.1]) := by
  obtain ⟨hex, hnret, hnot, hin, honce⟩ := h.held t timerId ht
  obtain ⟨timer, hheap, hseq⟩ := (h.held t timerId ht).1
  refine ⟨h.agree, ?_, ?_, ?_, h.created, ?_, ?_, ?_, ?_, ?_⟩
  · intro addr' timer' hheap'
    rcases h.placed addr' timer' hheap' with ⟨t', ht'⟩ | hmem | hmem
    · by_cases heq : t' = t
      · subst heq
        cases ht.symm.trans ht'
        exact Or.inr (Or.inl (by simp))
      · exact Or.inl ⟨t', by simpa only [Function.update_of_ne heq] using ht'⟩
    · exact Or.inr (Or.inl (List.mem_append_left _ hmem))
    · exact Or.inr (Or.inr hmem)
  · intro addr' hmem
    rcases List.mem_append.mp hmem with hmem | hmem
    · exact h.waiting addr' hmem
    · cases List.mem_singleton.mp hmem
      exact ⟨⟨timer, hheap⟩, hin⟩
  · intro t' id ht'
    have hne : t' ≠ t := by
      rintro rfl
      simp at ht'
    simp only [Function.update_of_ne hne] at ht'
    obtain ⟨hex', hnret', hnot', hin', honce'⟩ := h.held t' id ht'
    have haddr : timerId.1 ≠ id.1 := fun haddr => hne (honce t' id ht' haddr.symm)
    refine ⟨hex', ?_, ?_, hin', ?_⟩
    · simp only [List.mem_append, List.mem_singleton, not_or]
      exact ⟨hnret', fun heq => haddr (by rw [heq])⟩
    · simp only [List.mem_append, List.mem_singleton, TimerAct.addTimerInLoop.injEq, not_or]
      exact ⟨hnot', fun heq => haddr heq.symm⟩
    · intro t'' id' ht'' haddr'
      have hne' : t'' ≠ t := by
        rintro rfl
        simp at ht''
      simp only [Function.update_of_ne hne'] at ht''
      exact honce' t'' id' ht'' haddr'
  · intro id hmem
    rcases List.mem_append.mp hmem with hmem | hmem
    · exact h.returned id hmem
    · rw [List.mem_singleton.mp hmem, ← hseq]
      exact h.created _ _ hheap
  · rw [List.pairwise_append]
    refine ⟨h.apart, List.pairwise_singleton _ _, ?_⟩
    intro a ha b hb
    rw [List.mem_singleton.mp hb]
    cases a with
    | addTimerInLoop addr =>
        rintro rfl
        exact hnot ha
    | cancelInLoop id =>
        intro haddr hexists
        -- the id of a `cancelInLoop` was returned, this one was not
        obtain rfl : timerId = id := hex.eq_of_addr hexists haddr
        exact hnret (h.cancels timerId ha)
    | cancel id => trivial
    | userCode => trivial
  · intro id hmem
    rcases List.mem_append.mp hmem with hmem | hmem
    · exact List.mem_append_left _ (h.cancels id hmem)
    · cases List.mem_singleton.mp hmem
  · intro id hmem
    rcases h.requested id hmem with hmem | hmem
    · exact Or.inl (List.mem_append_left _ hmem)
    · exact Or.inr hmem
  · intro id hmem
    exact ⟨List.mem_append_left _ (h.cancelled id hmem).1, (h.cancelled id hmem).2⟩

/-- `cancel` is called: its `cancelInLoop` runs next on the loop's own thread, where the timer
is not to be added any more, and is queued from any other. -/
theorem CancelInv.request {timerId : ActiveTimer} {work' : List TimerAct} (h : CancelInv w work)
    (hret : timerId ∈ w.returned) (hapart : work'.Pairwise (Apart w.queue))
    (hmem : ∀ a, a ∈ work' ↔ a = .cancelInLoop timerId ∨ a ∈ work) :
    CancelInv { w with requested := w.requested ++ [timerId] } work' where
  agree := h.agree
  placed addr timer hheap := by
    rcases h.placed addr timer hheap with ht | hadd | hactive
    · exact Or.inl ht
    · exact Or.inr (Or.inl ((hmem _).mpr (Or.inr hadd)))
    · exact Or.inr (Or.inr hactive)
  waiting addr hadd := by
    rcases (hmem _).mp hadd with hadd | hadd
    · cases hadd
    · exact h.waiting addr hadd
  held t id ht := by
    obtain ⟨hex, hnret, hnot, hin, honce⟩ := h.held t id ht
    refine ⟨hex, hnret, fun hadd => ?_, hin, honce⟩
    rcases (hmem _).mp hadd with hadd | hadd
    · cases hadd
    · exact hnot hadd
  created := h.created
  returned := h.returned
  apart := hapart
  cancels id hid := by
    rcases (hmem _).mp hid with hid | hid
    · cases hid
      exact hret
    · exact h.cancels id hid
  requested id hid := by
    rw [hmem]
    rcases List.mem_append.mp hid with hid | hid
    · rcases h.requested id hid with hid | hid
      · exact Or.inl (Or.inr hid)
      · exact Or.inr hid
    · rw [List.mem_singleton.mp hid]
      exact Or.inl (Or.inl rfl)
  cancelled := h.cancelled

/-- A call keeps the invariant, unless it is a `cancel` before the `addTimerInLoop` of its
timer. -/
theorem CancelInv.called {a : TimerAct} {o : TimerOracle}
    {e : Effect Unit TimerAct TimerFunctor TimerWorld} (h : CancelInv w (a :: tail))
    (hok : NotOvertaking w.queue (a :: tail)) (hcall : w.call o a = .ok e) :
    CancelInv e.world (e.calls ++ tail) ∧ e.queued = [] := by
  have hpair := List.pairwise_cons.mp h.apart
  cases a with
  | addTimerInLoop addr =>
      simp only [TimerWorld.call, bind_eq_ok, Except.ok.injEq] at hcall
      obtain ⟨q, hadd, rfl⟩ := hcall
      exact ⟨h.add hadd, rfl⟩
  | cancelInLoop timerId =>
      simp only [TimerWorld.call, bind_eq_ok, Except.ok.injEq] at hcall
      obtain ⟨q, hcancel, rfl⟩ := hcall
      exact ⟨h.cancel hcancel, rfl⟩
  | cancel timerId =>
      have htail : CancelInv w tail := h.of_mem hpair.2 (by simp) (by simp)
      simp only [TimerWorld.call] at hcall
      split at hcall
      · rename_i hret
        cases hcall
        refine ⟨htail.request hret (List.pairwise_cons.mpr ⟨?_, hpair.2⟩) (by simp), rfl⟩
        intro b hb
        cases b with
        | addTimerInLoop addr =>
            rintro rfl hex
            exact hok timerId tail rfl hex hb
        | _ => trivial
      · cases hcall
        exact ⟨htail, rfl⟩
  | userCode =>
      have htail : CancelInv w tail := h.of_mem hpair.2 (by simp) (by simp)
      cases hcall
      refine ⟨?_, rfl⟩
      have huser := htail.user (o.calls.map .cancel) [] ?_ ?_
      · simpa using huser
      · intro a ha
        obtain ⟨id, -, rfl⟩ := List.mem_map.mp ha
        rfl
      · simp

/-- An action of a foreign thread keeps the invariant. -/
theorem CancelInv.threaded {t : TimerThread} {out : TimerWorld × List (Unit × TimerFunctor)}
    (h : CancelInv w work) (hthread : w.thread t = some (.ok out)) :
    CancelInv out.1 (work ++ (queuedTo () out.2).flatMap timerApp.body) := by
  cases t with
  | newTimer t addr expiration interval =>
      simp only [TimerWorld.thread] at hthread
      split at hthread
      · cases hthread
      · rename_i hidle
        simp only [Option.map_eq_some_iff] at hthread
        obtain ⟨q, hnew, hout⟩ := hthread
        cases hout
        simp only [queuedTo_nil, List.flatMap_nil, List.append_nil]
        exact h.newTimer (by simpa using hidle) hnew
  | queueAdd t =>
      simp only [TimerWorld.thread, Option.map_eq_some_iff] at hthread
      obtain ⟨timerId, ht, hout⟩ := hthread
      cases hout
      exact h.queueAdd ht
  | cancel timerId =>
      simp only [TimerWorld.thread] at hthread
      split at hthread
      · rename_i hret
        cases hthread
        refine h.request hret ?_ ?_
        · rw [List.pairwise_append]
          refine ⟨h.apart, List.pairwise_singleton _ _, ?_⟩
          intro a _ b hb
          rw [List.mem_singleton.mp hb]
          cases a <;> trivial
        · intro a
          rw [List.mem_append, or_comm]
          exact or_congr_left List.mem_singleton
      · cases hthread
  | queueInLoop =>
      cases hthread
      exact h.user [] [.userCode] (by simp) (by simp [TimerAct.isUser])

/-- Every step keeps the invariant, unless it is a `cancel` on the loop's own thread before the
`addTimerInLoop` of its timer. -/
theorem Progress.cancelInv {w w' : TimerWorld} {work work' : Unit → List TimerAct}
    {label : TimerStep} (h : Progress timerApp w work label w' work')
    (hok : ∀ l o, label = .call l o → NotOvertaking w.queue (work ()))
    (hinv : CancelInv w (work ())) : CancelInv w' (work' ()) := by
  cases h with
  | silent => exact hinv
  | @poll l active cbs work' hready hqueue hwork _ =>
      cases l
      have huser : ∀ a ∈ active, a = .userCode := by
        simpa [timerApp] using hready
      have hinv' := hinv.user active []
        (fun a ha => by rw [huser a ha]; rfl) (by simp)
      rw [hwork]
      simpa using hinv'
  | @call l o a tail e work' htodo hcall hwork _ =>
      cases l
      have hnot := hok () o rfl
      rw [htodo] at hinv hnot
      obtain ⟨hinv', hqueued⟩ := hinv.called hnot hcall
      rw [hwork, hqueued]
      simpa using hinv'
  | @thread t out work' hthread hwork =>
      rw [hwork]
      exact hinv.threaded hthread

end Invariant

/-- **A cancel wins, unless it overtakes.** In every run in which no `cancel` on the loop's own
thread comes while the `addTimerInLoop` of its timer is still to run: once the functors queued
before and by a `cancel` have run, its `cancelInLoop` has run; and a timer whose `cancelInLoop`
has run is active no more, has no entry in `_timers` and is not going to be inserted, now or in
any later state. What is still found at its address is another timer. -/
theorem cancel_wins {s : TimerProcess} (h : timerApp.system.ReachableBy CancelsAfterAdd s) :
    (∀ timerId ∈ s.world.requested, .cancelInLoop timerId ∉ s.work timerApp () →
      timerId ∈ s.world.cancelled) ∧
    ∀ timerId ∈ s.world.cancelled,
      timerId ∉ s.world.queue.activeTimers ∧
      (∀ expiration, toLex (expiration, timerId.1) ∈ s.world.queue.timers →
        ∃ timer, s.world.queue.heap timerId.1 = some timer ∧ timer.sequence ≠ timerId.2) ∧
      (.addTimerInLoop timerId.1 ∈ s.work timerApp () →
        ∃ timer, s.world.queue.heap timerId.1 = some timer ∧ timer.sequence ≠ timerId.2) := by
  have hinv : CancelInv s.world (s.work timerApp ()) := by
    refine progress_invariant (P := fun w work => CancelInv w (work ())) h ?_ ?_
    · rintro s ⟨⟨hw, hloop⟩, -⟩
      have hwork : s.work timerApp () = [] := by rw [Process.work, hloop]; rfl
      rw [hw, hwork]
      exact create_cancelInv
    · intro s label w' work' _ hok hinv hprog
      refine hprog.cancelInv ?_ hinv
      rintro l o rfl
      exact hok
  constructor
  · intro timerId hreq hrun
    exact (hinv.requested timerId hreq).resolve_left hrun
  · intro timerId hmem
    obtain ⟨-, hgone⟩ := hinv.cancelled timerId hmem
    have hother : ∀ timer, s.world.queue.heap timerId.1 = some timer →
        ∃ timer, s.world.queue.heap timerId.1 = some timer ∧ timer.sequence ≠ timerId.2 :=
      fun timer hheap => ⟨timer, hheap, fun hseq => hgone ⟨timer, hheap, hseq⟩⟩
    refine ⟨fun hactive => ?_, fun expiration hentry => ?_, fun hadd => ?_⟩
    · obtain ⟨timer, hheap, hseq⟩ := hinv.agree.active timerId.1 timerId.2 hactive
      exact hgone ⟨timer, hheap, hseq⟩
    · obtain ⟨timer, hheap, -⟩ := (hinv.agree.timers _ _).mp hentry
      exact hother timer hheap
    · obtain ⟨⟨timer, hheap⟩, -⟩ := hinv.waiting _ hadd
      exact hother timer hheap

/-! ### Concrete runs -/

/-- A loop with an empty queue. -/
def timerStart : TimerProcess := ⟨.create, fun _ => EventLoop.create []⟩

theorem timerStart_init : timerApp.system.init timerStart := ⟨⟨rfl, rfl⟩, fun _ => ⟨[], rfl⟩⟩

/-- Thread 1 adds a timer and hands its id to user code on the loop's thread, which cancels it
before the loop gets to the queued functor: nothing is found, and the timer is added after
that. -/
theorem cancel_overtakes_add :
    ∃ s : TimerProcess, timerApp.system.Reachable s ∧ (8, 1) ∈ s.world.requested ∧
      s.work timerApp () = [] ∧ (8, 1) ∈ s.world.queue.activeTimers ∧
      toLex (100, 8) ∈ s.world.queue.timers := by
  obtain ⟨s, hs, hp⟩ := System.exists_reachable_of_replay timerApp.system
    [.start (), .test (), .thread (.newTimer 1 8 100 0), .thread (.queueAdd 1),
      .poll () [.userCode], .call () ⟨0, [(8, 1)]⟩, .call () ⟨0, []⟩, .call () ⟨0, []⟩,
      .handled (), .swap (), .functor (), .call () ⟨0, []⟩, .passed ()]
    timerStart
    (fun s => decide ((8, 1) ∈ s.world.requested ∧ s.work timerApp () = [] ∧
      (8, 1) ∈ s.world.queue.activeTimers ∧ toLex (100, 8) ∈ s.world.queue.timers))
    timerStart_init (by decide +kernel)
  exact ⟨s, hs, by simpa using hp⟩

/-- A test for runs whose calls are all `addTimerInLoop` or `cancelInLoop` of that timer. -/
def addsOrCancels (s : TimerProcess) : TimerStep → Bool
  | .call _ _ => decide ((s.work timerApp ()).head? = some (.addTimerInLoop 8) ∨
      (s.work timerApp ()).head? = some (.cancelInLoop (8, 1)))
  | _ => true

theorem addsOrCancels_cancelsAfterAdd {label : TimerStep} {s : TimerProcess}
    (htest : addsOrCancels s label = true) : CancelsAfterAdd s label := by
  cases label with
  | call l o =>
      intro timerId tail hwork
      simp [addsOrCancels, hwork] at htest
  | _ => exact trivial

/-- The same timer cancelled by another thread: the functors run in the order of the calls, and
the timer is gone. -/
theorem cancel_wins_queued :
    ∃ s : TimerProcess, timerApp.system.ReachableBy CancelsAfterAdd s ∧
      (8, 1) ∈ s.world.requested ∧ s.work timerApp () = [] ∧
      (8, 1) ∉ s.world.queue.activeTimers := by
  obtain ⟨s, hs, hp⟩ := System.exists_reachableBy_of_replay timerApp.system addsOrCancels
    [.start (), .test (), .thread (.newTimer 1 8 100 0), .thread (.queueAdd 1),
      .thread (.cancel (8, 1)), .poll () [], .handled (), .swap (), .functor (), .call () ⟨0, []⟩,
      .functor (), .call () ⟨0, []⟩, .passed ()]
    timerStart
    (fun s => decide ((8, 1) ∈ s.world.requested ∧ s.work timerApp () = []))
    timerStart_init (fun _ _ _ _ => addsOrCancels_cancelsAfterAdd) (by decide +kernel)
  simp only [decide_eq_true_eq] at hp
  obtain ⟨hrun, hgone⟩ := cancel_wins hs
  exact ⟨s, hs, hp.1, hp.2, (hgone (8, 1) (hrun (8, 1) hp.1 (by simp [hp.2]))).1⟩

end Reactor
