import Reactor.Lib.Transition
import Reactor.Basic

/-!
# Timers (`TimerQueue.h`, `TimerQueue.cpp`, `Timer.h`, `TimerId.h`)

A `std::set` is a finite set with the order of its elements: `_timers` is ordered by
expiration and then by address, `_activeTimers` by address and sequence number. Timers are
objects on the heap, named by their address; an allocation returns any address that is not
in use. A `Timestamp` is a number of microseconds.

`getExpired` copies the timers that are due out of `_timers` and erases them from
`_activeTimers`, but leaves them in `_timers`.

* `TimerQueue.SetsAgree` - the two sets describe the same timers.
* `expired_timer_breaks_sets` - one timer that is due fails `getExpired`'s assertion.
* `timer_sets_agree` - as long as no timer is due when `handleRead` looks, the sets agree
  after every operation and no assertion fails.
-/

namespace Reactor

open Reactor.Lib

/-- `UINTPTR_MAX`, the address in `getExpired`'s sentry. -/
def uintptrMax : Nat := 2 ^ 64 - 1

/-- A timer; the interval in microseconds. What its callback does is up to the
environment. -/
structure Timer where
  expiration : Int
  interval : Int
  sequence : Nat
deriving DecidableEq, Repr

/-- `std::pair<Timestamp, Timer*>`, ordered by its operator. -/
abbrev TimerEntry := Int ×ₗ Nat

instance TimerEntry.instIsTrans : IsTrans TimerEntry (· ≤ ·) := inferInstance

instance TimerEntry.instAntisymm : Std.Antisymm (α := TimerEntry) (· ≤ ·) := inferInstance

instance TimerEntry.instTotal : Std.Total (α := TimerEntry) (· ≤ ·) := inferInstance

/-- `std::pair<Timer*, int64_t>`; also a `TimerId`. -/
abbrev ActiveTimer := Nat × Nat

structure Timespec where
  sec : Int
  nsec : Int
deriving DecidableEq, Repr

/-- The queue, the heap of its timers and `Timer::_s_numCreated`. `timerfd` is the last
value given to `timerfd_settime`, with the clock it was computed at. -/
structure TimerQueue where
  timers : Finset TimerEntry
  activeTimers : Finset ActiveTimer
  callingExpiredTimers : Bool
  cancelingTimers : Finset ActiveTimer
  heap : Nat → Option Timer
  numCreated : Nat
  timerfd : Option (Int × Timespec)

/-- What user code calls on the loop's thread. The address is the one `new Timer` returns,
`clock` is what `Timestamp::now()` returns. -/
inductive TimerCall where
  | addTimer (addr : Nat) (expiration interval clock : Int)
  | cancel (timerId : ActiveTimer)
deriving DecidableEq, Repr

def howMuchTimeFromNow (expiration clock : Int) : Timespec :=
  let microseconds := if expiration - clock < 100 then 100 else expiration - clock
  ⟨microseconds.tdiv 1000000, microseconds.tmod 1000000 * 1000⟩

namespace TimerQueue

/-- The constructor. -/
def create : TimerQueue :=
  { timers := ∅, activeTimers := ∅, callingExpiredTimers := false, cancelingTimers := ∅
    heap := fun _ => none, numCreated := 0, timerfd := none }

/-- A pointer is dereferenced. -/
def deref (q : TimerQueue) (addr : Nat) : Exec Timer :=
  match q.heap addr with
  | some timer => .ok timer
  | none => .error .badAccess

/-- `new Timer` at `addr`, an address that is free and leaves room for the object. -/
def newTimer (q : TimerQueue) (addr : Nat) (expiration interval : Int) : Option TimerQueue :=
  if q.heap addr = none ∧ 0 < addr ∧ addr < uintptrMax then
    some { q with
      heap := Function.update q.heap addr (some ⟨expiration, interval, q.numCreated + 1⟩)
      numCreated := q.numCreated + 1 }
  else none

def resetTimerfd (q : TimerQueue) (expiration clock : Int) : TimerQueue :=
  { q with timerfd := some (clock, howMuchTimeFromNow expiration clock) }

/-- `assert(_timers.size() == _activeTimers.size())`. -/
def checkSizes (ndebug : Bool) (q : TimerQueue) (a : Assertion) : Exec Unit :=
  checkUnless ndebug (q.timers.card = q.activeTimers.card) a

def insert (ndebug : Bool) (q : TimerQueue) (addr : Nat) : Exec (Bool × TimerQueue) := do
  checkSizes ndebug q .insert_sizes
  let timer ← q.deref addr
  let earliestChanged := match q.timers.sort.head? with
    | none => true
    | some e => decide (timer.expiration < (ofLex e).1)
  let entry : TimerEntry := toLex (timer.expiration, addr)
  let active : ActiveTimer := (addr, timer.sequence)
  checkUnless ndebug (entry ∉ q.timers) .insert_timers
  checkUnless ndebug (active ∉ q.activeTimers) .insert_activeTimers
  let q' := { q with timers := Insert.insert entry q.timers
                     activeTimers := Insert.insert active q.activeTimers }
  checkSizes ndebug q' .insert_sizes
  .ok (earliestChanged, q')

def addTimerInLoop (ndebug : Bool) (q : TimerQueue) (addr : Nat) (clock : Int) :
    Exec TimerQueue := do
  let (earliestChanged, q') ← q.insert ndebug addr
  if earliestChanged then
    let timer ← q'.deref addr
    .ok (q'.resetTimerfd timer.expiration clock)
  else .ok q'

def cancelInLoop (ndebug : Bool) (q : TimerQueue) (timerId : ActiveTimer) : Exec TimerQueue := do
  checkSizes ndebug q .cancelInLoop_sizes
  let q' ← (if timerId ∈ q.activeTimers then do
      let timer ← q.deref timerId.1
      let entry : TimerEntry := toLex (timer.expiration, timerId.1)
      let n := if entry ∈ q.timers then 1 else 0
      checkUnless ndebug (n = 1) .cancelInLoop_erased
      .ok { q with timers := q.timers.erase entry
                   heap := Function.update q.heap timerId.1 none -- delete
                   activeTimers := q.activeTimers.erase timerId }
    else if q.callingExpiredTimers then
      .ok { q with cancelingTimers := Insert.insert timerId q.cancelingTimers }
    else .ok q)
  checkSizes ndebug q' .cancelInLoop_sizes
  .ok q'

/-- The loop of `getExpired` over the copied entries. -/
def eraseExpired (ndebug : Bool) : List TimerEntry → TimerQueue → Exec TimerQueue
  | [], q => .ok q
  | e :: rest, q => do
      let timer ← q.deref (ofLex e).2
      let active : ActiveTimer := ((ofLex e).2, timer.sequence)
      let n := if active ∈ q.activeTimers then 1 else 0
      checkUnless ndebug (n = 1) .getExpired_erased
      eraseExpired ndebug rest { q with activeTimers := q.activeTimers.erase active }

def getExpired (ndebug : Bool) (q : TimerQueue) (now : Int) :
    Exec (List TimerEntry × TimerQueue) := do
  checkSizes ndebug q .getExpired_sizes
  let sentry : TimerEntry := toLex (now, uintptrMax)
  let expired := q.timers.sort.takeWhile (· < sentry)
  let fromEnd := q.timers.sort.dropWhile (· < sentry)
  checkUnless ndebug (∀ e ∈ fromEnd.head?, now < (ofLex e).1) .getExpired_end
  let q' ← eraseExpired ndebug expired q
  checkSizes ndebug q' .getExpired_sizes
  .ok (expired, q')

/-- A call of user code; there is none if the address is not available. -/
def call (ndebug : Bool) (q : TimerQueue) : TimerCall → Option (Exec TimerQueue)
  | .addTimer addr expiration interval clock =>
      (q.newTimer addr expiration interval).map fun q' => q'.addTimerInLoop ndebug addr clock
  | .cancel timerId => some (q.cancelInLoop ndebug timerId)

def runCalls (ndebug : Bool) : List TimerCall → TimerQueue → Option (Exec TimerQueue)
  | [], q => some (.ok q)
  | c :: rest, q =>
      match q.call ndebug c with
      | none => none
      | some (.error f) => some (.error f)
      | some (.ok q') => runCalls ndebug rest q'

/-- `run()` of every expired timer; `callback` is what they call. -/
def runExpired (ndebug : Bool) (callback : Nat → List TimerCall) :
    List TimerEntry → TimerQueue → Option (Exec TimerQueue)
  | [], q => some (.ok q)
  | e :: rest, q =>
      match q.deref (ofLex e).2 with
      | .error f => some (.error f)
      | .ok _ =>
          match runCalls ndebug (callback (ofLex e).2) q with
          | none => none
          | some (.error f) => some (.error f)
          | some (.ok q') => runExpired ndebug callback rest q'

def handleRead (ndebug : Bool) (q : TimerQueue) (now : Int) (callback : Nat → List TimerCall) :
    Option (Exec TimerQueue) :=
  match q.getExpired ndebug now with
  | .error f => some (.error f)
  | .ok (expired, q') =>
      (runExpired ndebug callback expired
        { q' with callingExpiredTimers := true, cancelingTimers := ∅ }).map fun r =>
          r.map fun q'' => { q'' with callingExpiredTimers := false }
          -- reset(expired,now) is commented out

end TimerQueue

/-! ### What the operations do -/

namespace TimerQueue

/-- The timer of the id exists. -/
def Exists (q : TimerQueue) (timerId : ActiveTimer) : Prop :=
  ∃ timer, q.heap timerId.1 = some timer ∧ timer.sequence = timerId.2

variable {q q' : TimerQueue} {addr addr' : Nat} {timer : Timer} {ndebug : Bool}

/-- Two ids of existing timers at one address are one id. -/
theorem Exists.eq_of_addr {a b : ActiveTimer} (ha : q.Exists a) (hb : q.Exists b)
    (haddr : a.1 = b.1) : a = b := by
  obtain ⟨timer, hheap, hseq⟩ := ha
  obtain ⟨timer', hheap', hseq'⟩ := hb
  rw [haddr, hheap'] at hheap
  cases hheap
  exact Prod.ext haddr (hseq.symm.trans hseq')

theorem newTimer_eq {expiration interval : Int}
    (h : q.newTimer addr expiration interval = some q') :
    q.heap addr = none ∧ 0 < addr ∧ addr < uintptrMax ∧
      q' = { q with
        heap := Function.update q.heap addr (some ⟨expiration, interval, q.numCreated + 1⟩)
        numCreated := q.numCreated + 1 } := by
  unfold newTimer at h
  split at h <;> cases h
  rename_i hfree
  exact ⟨hfree.1, hfree.2.1, hfree.2.2, rfl⟩

/-- An allocation does not return an address that is in use. -/
theorem newTimer_ne {expiration interval : Int}
    (hnew : q.newTimer addr expiration interval = some q') (hheap : q.heap addr' = some timer) :
    addr' ≠ addr := by
  rintro rfl
  cases (newTimer_eq hnew).1.symm.trans hheap

theorem newTimer_heap {expiration interval : Int}
    (hnew : q.newTimer addr expiration interval = some q') (hheap : q.heap addr' = some timer) :
    q'.heap addr' = some timer := by
  have hne := newTimer_ne hnew hheap
  obtain ⟨-, -, -, rfl⟩ := newTimer_eq hnew
  simpa only [Function.update_of_ne hne] using hheap

theorem newTimer_heap_cases {expiration interval : Int}
    (hnew : q.newTimer addr expiration interval = some q') (hheap : q'.heap addr' = some timer) :
    (addr' = addr ∧ timer = ⟨expiration, interval, q.numCreated + 1⟩) ∨
      q.heap addr' = some timer := by
  obtain ⟨-, -, -, rfl⟩ := newTimer_eq hnew
  simp only [Function.update_apply] at hheap
  split at hheap
  · rename_i heq
    cases hheap
    exact Or.inl ⟨heq, rfl⟩
  · exact Or.inr hheap

/-- The first entry of `_timers` is later than `expiration`, or there is none. -/
def Earliest (q : TimerQueue) (expiration : Int) : Prop :=
  ∀ e ∈ q.timers.sort.head?, expiration < (ofLex e).1

instance (q : TimerQueue) (expiration : Int) : Decidable (q.Earliest expiration) :=
  inferInstanceAs (Decidable (∀ e ∈ q.timers.sort.head?, expiration < (ofLex e).1))

theorem insert_eq {r : Bool × TimerQueue} (h : q.insert ndebug addr = .ok r) :
    ∃ timer, q.heap addr = some timer ∧ r = (decide (q.Earliest timer.expiration),
      { q with timers := Insert.insert (toLex (timer.expiration, addr)) q.timers
               activeTimers := Insert.insert (addr, timer.sequence) q.activeTimers }) := by
  simp only [insert, bind_eq_ok, Except.ok.injEq] at h
  obtain ⟨-, -, timer, hderef, -, -, -, -, -, -, rfl⟩ := h
  have hheap : q.heap addr = some timer := by
    unfold deref at hderef
    split at hderef <;> cases hderef
    assumption
  refine ⟨timer, hheap, ?_⟩
  congr 1
  cases hhead : q.timers.sort.head? <;> simp [Earliest, hhead]

/-- `addTimerInLoop` puts the timer into both sets, and arms the timerfd if it is the first. -/
theorem addTimerInLoop_eq {clock : Int} (h : q.addTimerInLoop ndebug addr clock = .ok q') :
    ∃ timer, q.heap addr = some timer ∧
      q' = { q with
        timers := Insert.insert (toLex (timer.expiration, addr)) q.timers
        activeTimers := Insert.insert (addr, timer.sequence) q.activeTimers
        timerfd := if q.Earliest timer.expiration then
            some (clock, howMuchTimeFromNow timer.expiration clock)
          else q.timerfd } := by
  simp only [addTimerInLoop, bind_eq_ok] at h
  obtain ⟨r, hins, h⟩ := h
  obtain ⟨timer, hheap, rfl⟩ := insert_eq hins
  refine ⟨timer, hheap, ?_⟩
  by_cases hfirst : q.Earliest timer.expiration
  · simp only [hfirst, decide_true, if_true, deref, hheap, ok_bind, Except.ok.injEq] at h
    subst h
    simp only [hfirst, if_true]
    rfl
  · simp only [hfirst, decide_false, Bool.false_eq_true, if_false, Except.ok.injEq] at h
    subst h
    simp only [hfirst, if_false]

/-- `cancelInLoop` deletes an active timer, and otherwise notes the id while timers run. -/
theorem cancelInLoop_eq {timerId : ActiveTimer} (h : q.cancelInLoop ndebug timerId = .ok q') :
    (timerId ∈ q.activeTimers ∧ ∃ timer, q.heap timerId.1 = some timer ∧
      q' = { q with
        timers := q.timers.erase (toLex (timer.expiration, timerId.1))
        heap := Function.update q.heap timerId.1 none
        activeTimers := q.activeTimers.erase timerId }) ∨
    (timerId ∉ q.activeTimers ∧
      q' = { q with
        cancelingTimers := if q.callingExpiredTimers then Insert.insert timerId q.cancelingTimers
          else q.cancelingTimers }) := by
  simp only [cancelInLoop, bind_eq_ok, Except.ok.injEq] at h
  obtain ⟨-, -, q₁, h, -, -, rfl⟩ := h
  by_cases hactive : timerId ∈ q.activeTimers
  · simp only [if_pos hactive, bind_eq_ok, Except.ok.injEq] at h
    obtain ⟨timer, hderef, -, -, rfl⟩ := h
    have hheap : q.heap timerId.1 = some timer := by
      unfold deref at hderef
      split at hderef <;> cases hderef
      assumption
    exact Or.inl ⟨hactive, timer, hheap, rfl⟩
  · simp only [if_neg hactive] at h
    refine Or.inr ⟨hactive, ?_⟩
    split at h
    · rename_i hcalling
      cases h
      simp only [hcalling, if_true]
    · rename_i hcalling
      cases h
      rw [if_neg hcalling]

/-- A cancel makes no timer. -/
theorem cancelInLoop_heap {timerId : ActiveTimer} (h : q.cancelInLoop ndebug timerId = .ok q')
    (hheap : q'.heap addr = some timer) : q.heap addr = some timer := by
  rcases cancelInLoop_eq h with ⟨-, _, -, rfl⟩ | ⟨-, rfl⟩
  · simp only [Function.update_apply] at hheap
    split at hheap
    · cases hheap
    · exact hheap
  · exact hheap

end TimerQueue

/-! ### Runs of a queue -/

/-- The queue, and the timers that other threads have created but not added yet. -/
structure TimerState where
  queue : TimerQueue
  created : Finset Nat

/-- The operations: a thread's `addTimer` creates a timer, the loop's thread adds one that
was created, user code calls the queue, the timerfd is readable. -/
inductive TimerLabel where
  | newTimer (addr : Nat) (expiration interval : Int)
  | addTimerInLoop (addr : Nat) (clock : Int)
  | call (c : TimerCall)
  | handleRead (now : Int) (callback : Nat → List TimerCall)

def TimerState.step (ndebug : Bool) : TimerLabel → TimerState → Option (Exec TimerState)
  | .newTimer addr expiration interval, s =>
      (s.queue.newTimer addr expiration interval).map fun q =>
        .ok ⟨q, insert addr s.created⟩
  | .addTimerInLoop addr clock, s =>
      if addr ∈ s.created then
        some ((s.queue.addTimerInLoop ndebug addr clock).map fun q => ⟨q, s.created.erase addr⟩)
      else none
  | .call c, s => (s.queue.call ndebug c).map fun r => r.map fun q => ⟨q, s.created⟩
  | .handleRead now callback, s =>
      (s.queue.handleRead ndebug now callback).map fun r => r.map fun q => ⟨q, s.created⟩

def timerSystem (ndebug : Bool) : System TimerState TimerLabel Fault where
  init s := s = ⟨.create, ∅⟩
  step := TimerState.step ndebug

/-- What an operation that returns does. -/
inductive TimerSteps (ndebug : Bool) (s : TimerState) : TimerLabel → TimerState → Prop where
  | newTimer {addr : Nat} {expiration interval : Int} {q : TimerQueue}
      (hnew : s.queue.newTimer addr expiration interval = some q) :
      TimerSteps ndebug s (.newTimer addr expiration interval) ⟨q, insert addr s.created⟩
  | addTimerInLoop {addr : Nat} {clock : Int} {q : TimerQueue} (hmem : addr ∈ s.created)
      (hadd : s.queue.addTimerInLoop ndebug addr clock = .ok q) :
      TimerSteps ndebug s (.addTimerInLoop addr clock) ⟨q, s.created.erase addr⟩
  | call {c : TimerCall} {q : TimerQueue} (hcall : s.queue.call ndebug c = some (.ok q)) :
      TimerSteps ndebug s (.call c) ⟨q, s.created⟩
  | handleRead {now : Int} {callback : Nat → List TimerCall} {q : TimerQueue}
      (hread : s.queue.handleRead ndebug now callback = some (.ok q)) :
      TimerSteps ndebug s (.handleRead now callback) ⟨q, s.created⟩

theorem TimerState.steps {ndebug : Bool} {label : TimerLabel} {s s' : TimerState}
    (hstep : s.step ndebug label = some (.ok s')) : TimerSteps ndebug s label s' := by
  cases label with
  | newTimer addr expiration interval =>
      simp only [TimerState.step, Option.map_eq_some_iff] at hstep
      obtain ⟨q, hnew, heq⟩ := hstep
      cases heq
      exact .newTimer hnew
  | addTimerInLoop addr clock =>
      simp only [TimerState.step] at hstep
      split at hstep
      · rename_i hmem
        cases hadd : s.queue.addTimerInLoop ndebug addr clock with
        | error f => simp [hadd, Except.map] at hstep
        | ok q =>
            rw [hadd] at hstep
            cases hstep
            exact .addTimerInLoop hmem hadd
      · cases hstep
  | call c =>
      obtain ⟨q, hcall, rfl⟩ := map_eq_some_ok.mp hstep
      exact .call hcall
  | handleRead now callback =>
      obtain ⟨q, hread, rfl⟩ := map_eq_some_ok.mp hstep
      exact .handleRead hread

/-! ### The two sets -/

namespace TimerQueue

/-- The two sets describe the same timers: an entry is in `_timers` exactly if it is the
expiration and the address of an active timer, and every active timer exists. -/
structure SetsAgree (q : TimerQueue) : Prop where
  timers : ∀ expiration addr, toLex (expiration, addr) ∈ q.timers ↔
    ∃ timer, q.heap addr = some timer ∧ (addr, timer.sequence) ∈ q.activeTimers ∧
      expiration = timer.expiration
  active : ∀ addr sequence, (addr, sequence) ∈ q.activeTimers →
    ∃ timer, q.heap addr = some timer ∧ timer.sequence = sequence

section Agree

variable {q q' : TimerQueue} {addr : Nat} {timer : Timer} {ndebug : Bool}

theorem create_setsAgree : create.SetsAgree where
  timers := by simp [create]
  active := by simp [create]

theorem SetsAgree.card_eq (h : q.SetsAgree) : q.timers.card = q.activeTimers.card := by
  symm
  refine Finset.card_nbij
    (fun a => toLex ((q.heap a.1).elim 0 Timer.expiration, a.1)) ?_ ?_ ?_
  · rintro ⟨addr, sequence⟩ ha
    obtain ⟨timer, hheap, rfl⟩ := h.active addr sequence ha
    exact (h.timers _ _).mpr ⟨timer, hheap, ha, by simp [hheap]⟩
  · -- the address determines the sequence number
    rintro ⟨addr, sequence⟩ ha ⟨addr', sequence'⟩ ha' heq
    have haddr : addr = addr' := (Prod.mk.inj (toLex.injective heq)).2
    subst haddr
    obtain ⟨timer, hheap, rfl⟩ := h.active addr sequence ha
    obtain ⟨timer', hheap', rfl⟩ := h.active addr sequence' ha'
    cases hheap.symm.trans hheap'
    rfl
  · intro e he
    obtain ⟨timer, hheap, hactive, hexp⟩ := (h.timers (ofLex e).1 (ofLex e).2).mp he
    refine ⟨((ofLex e).2, timer.sequence), hactive, ?_⟩
    simp only [hheap, Option.elim_some, ← hexp]
    rfl

theorem SetsAgree.checkSizes (h : q.SetsAgree) (a : Assertion) :
    checkSizes ndebug q a = .ok () := checkUnless_of h.card_eq

/-- The sets say nothing about the object of a timer that is not active. -/
theorem SetsAgree.setHeap (h : q.SetsAgree)
    (hinactive : ∀ sequence, (addr, sequence) ∉ q.activeTimers) (x : Option Timer) :
    SetsAgree { q with heap := Function.update q.heap addr x } := by
  constructor
  · intro expiration addr'
    rw [h.timers]
    by_cases ha : addr' = addr
    · subst ha
      simp [hinactive]
    · simp [Function.update_of_ne ha]
  · intro addr' sequence ha'
    have hne : addr' ≠ addr := by
      rintro rfl
      exact hinactive sequence ha'
    simp only [Function.update_of_ne hne]
    exact h.active addr' sequence ha'

/-- The sets say nothing about an address that is not in use. -/
theorem SetsAgree.newTimer (h : q.SetsAgree) {expiration interval : Int}
    (hnew : q.newTimer addr expiration interval = some q') :
    q'.SetsAgree ∧ q'.activeTimers = q.activeTimers ∧
      (∃ timer, q'.heap addr = some timer) ∧ (∀ sequence, (addr, sequence) ∉ q'.activeTimers) ∧
      ∀ addr', (∃ timer, q.heap addr' = some timer) → ∃ timer, q'.heap addr' = some timer := by
  have hinactive : ∀ sequence, (addr, sequence) ∉ q.activeTimers := by
    intro sequence ha
    obtain ⟨timer, hheap, -⟩ := h.active addr sequence ha
    exact newTimer_ne hnew hheap rfl
  obtain ⟨-, -, -, rfl⟩ := newTimer_eq hnew
  have hset := h.setHeap hinactive (some ⟨expiration, interval, q.numCreated + 1⟩)
  refine ⟨⟨hset.timers, hset.active⟩, rfl, ⟨_, Function.update_self ..⟩, hinactive, ?_⟩
  rintro addr' ⟨timer, hheap⟩
  exact ⟨timer, newTimer_heap hnew hheap⟩

/-- `insert` of a timer that exists and is not active adds it to both sets. -/
theorem SetsAgree.insert (h : q.SetsAgree) (hheap : q.heap addr = some timer)
    (hinactive : ∀ sequence, (addr, sequence) ∉ q.activeTimers) :
    ∃ r, q.insert ndebug addr = .ok r ∧ r.2.SetsAgree ∧ r.2.heap = q.heap ∧
      r.2.activeTimers = Insert.insert (addr, timer.sequence) q.activeTimers := by
  have hentry : (toLex (timer.expiration, addr) : TimerEntry) ∉ q.timers := by
    intro hmem
    obtain ⟨timer', hheap', hactive, -⟩ := (h.timers _ _).mp hmem
    exact hinactive _ hactive
  have hagree : SetsAgree { q with
      timers := Insert.insert (toLex (timer.expiration, addr)) q.timers
      activeTimers := Insert.insert (addr, timer.sequence) q.activeTimers } := by
    constructor
    · intro expiration addr'
      rw [Finset.mem_insert, h.timers]
      by_cases ha : addr' = addr
      · subst ha
        simp [hheap, hinactive]
      · simp [ha]
    · intro addr' sequence ha'
      rcases Finset.mem_insert.mp ha' with heq | ha'
      · cases heq
        exact ⟨timer, hheap, rfl⟩
      · exact h.active addr' sequence ha'
  simp only [TimerQueue.insert, h.checkSizes, deref, hheap, checkUnless_of hentry,
    checkUnless_of (hinactive timer.sequence), hagree.checkSizes, ok_bind]
  exact ⟨_, rfl, hagree, rfl, rfl⟩

theorem SetsAgree.addTimerInLoop (h : q.SetsAgree) (hheap : q.heap addr = some timer)
    (hinactive : ∀ sequence, (addr, sequence) ∉ q.activeTimers) (clock : Int) :
    ∃ q', q.addTimerInLoop ndebug addr clock = .ok q' ∧ q'.SetsAgree ∧ q'.heap = q.heap ∧
      q'.activeTimers = Insert.insert (addr, timer.sequence) q.activeTimers := by
  have hinsert : ∃ r, q.insert ndebug addr = .ok r ∧ _ := h.insert hheap hinactive
  obtain ⟨⟨earliestChanged, q'⟩, hins, hagree, hheap', hactive⟩ := hinsert
  unfold TimerQueue.addTimerInLoop
  rw [hins, ok_bind]
  cases earliestChanged with
  | false => exact ⟨q', rfl, hagree, hheap', hactive⟩
  | true =>
      have hderef : q'.deref addr = .ok timer := by
        have hsame : q'.heap addr = some timer := by rw [hheap', hheap]
        rw [deref, hsame]
      simp only [if_true, hderef, ok_bind]
      exact ⟨_, rfl, ⟨hagree.timers, hagree.active⟩, hheap', hactive⟩

/-- `cancelInLoop` takes an active timer out of both sets and deletes it, and leaves the
sets alone otherwise. -/
theorem SetsAgree.cancelInLoop (h : q.SetsAgree) (timerId : ActiveTimer) :
    ∃ q', q.cancelInLoop ndebug timerId = .ok q' ∧ q'.SetsAgree ∧
      q'.activeTimers = q.activeTimers.erase timerId ∧
      ∀ addr, (∀ sequence, (addr, sequence) ∉ q.activeTimers) → q'.heap addr = q.heap addr := by
  unfold TimerQueue.cancelInLoop
  rw [h.checkSizes, ok_bind]
  by_cases hactive : timerId ∈ q.activeTimers
  · obtain ⟨addr, sequence⟩ := timerId
    obtain ⟨timer, hheap, rfl⟩ := h.active addr sequence hactive
    have hentry : (toLex (timer.expiration, addr) : TimerEntry) ∈ q.timers :=
      (h.timers _ _).mpr ⟨timer, hheap, hactive, rfl⟩
    have hagree : SetsAgree { q with
        timers := q.timers.erase (toLex (timer.expiration, addr))
        heap := Function.update q.heap addr none
        activeTimers := q.activeTimers.erase (addr, timer.sequence) } := by
      have hother : ∀ sequence, (addr, sequence) ∉ q.activeTimers.erase (addr, timer.sequence) := by
        intro sequence hmem
        obtain ⟨hne, hmem⟩ := Finset.mem_erase.mp hmem
        obtain ⟨timer', hheap', rfl⟩ := h.active addr sequence hmem
        cases hheap.symm.trans hheap'
        exact hne rfl
      constructor
      · intro expiration addr'
        rw [Finset.mem_erase, h.timers]
        by_cases ha : addr' = addr
        · subst ha
          simp [hheap, hactive]
        · simp [ha]
      · intro addr' sequence ha'
        have hne : addr' ≠ addr := by
          rintro rfl
          exact hother sequence ha'
        simp only [Function.update_of_ne hne]
        exact h.active addr' sequence (Finset.mem_of_mem_erase ha')
    simp only [if_pos hactive, deref, hheap, if_pos hentry, checkUnless_of trivial, ok_bind,
      hagree.checkSizes]
    refine ⟨_, rfl, hagree, rfl, fun addr' hother => ?_⟩
    have hne : addr' ≠ addr := by
      rintro rfl
      exact hother _ hactive
    exact Function.update_of_ne hne _ _
  · rw [if_neg hactive]
    have herase : q.activeTimers = q.activeTimers.erase timerId :=
      (Finset.erase_eq_of_notMem hactive).symm
    by_cases hcalling : q.callingExpiredTimers = true
    · have hagree : SetsAgree { q with
          cancelingTimers := Insert.insert timerId q.cancelingTimers } := ⟨h.timers, h.active⟩
      simp only [if_pos hcalling, ok_bind, hagree.checkSizes]
      exact ⟨_, rfl, hagree, herase, fun _ _ => rfl⟩
    · simp only [if_neg hcalling, ok_bind, h.checkSizes]
      exact ⟨_, rfl, h, herase, fun _ _ => rfl⟩

/-- When no timer is due, `getExpired` takes nothing out. -/
theorem SetsAgree.getExpired (h : q.SetsAgree) {now : Int}
    (hnone : ∀ e ∈ q.timers, now < (ofLex e).1) : q.getExpired ndebug now = .ok ([], q) := by
  have hlt : ∀ e ∈ q.timers.sort, ¬ e < (toLex (now, uintptrMax) : TimerEntry) := by
    intro e he hlt
    have hle := hnone e ((Finset.mem_sort _).mp he)
    rcases Prod.Lex.lt_iff.mp hlt with hlt | ⟨heq, -⟩
    · exact absurd hlt (by simpa using hle.le)
    · exact absurd heq (by simpa using hle.ne')
  -- the first timer is not due, so `lower_bound` is `begin()`
  have hbegin : q.timers.sort.takeWhile (· < (toLex (now, uintptrMax) : TimerEntry)) = [] ∧
      q.timers.sort.dropWhile (· < (toLex (now, uintptrMax) : TimerEntry)) = q.timers.sort := by
    cases hsort : q.timers.sort with
    | nil => exact ⟨rfl, rfl⟩
    | cons e rest =>
        have he := hlt e (by simp [hsort])
        simp [he]
  have hend : ∀ e ∈ q.timers.sort.head?, now < (ofLex e).1 := fun e he =>
    hnone e ((Finset.mem_sort _).mp (List.mem_of_mem_head? he))
  unfold TimerQueue.getExpired
  rw [h.checkSizes, ok_bind]
  simp only [hbegin.1, hbegin.2, checkUnless_of hend, ok_bind, eraseExpired, h.checkSizes]

end Agree

end TimerQueue

/-! ### Whole runs -/

/-- The sets agree, and the timers that other threads have created exist and are in neither
set. -/
structure TimerInv (s : TimerState) : Prop where
  agree : s.queue.SetsAgree
  created : ∀ addr ∈ s.created, (∃ timer, s.queue.heap addr = some timer) ∧
    ∀ sequence, (addr, sequence) ∉ s.queue.activeTimers

/-- No timer is due when `handleRead` looks. -/
def NoneDue (s : TimerState) : TimerLabel → Prop
  | .handleRead now _ => ∀ e ∈ s.queue.timers, now < (ofLex e).1
  | _ => True

section Runs

variable {s s' : TimerState} {label : TimerLabel} {ndebug : Bool}

/-- Every operation that can be performed while no timer is due returns, and keeps the
invariant. -/
theorem TimerInv.step (h : TimerInv s) (hnone : NoneDue s label) {r : Exec TimerState}
    (hstep : s.step ndebug label = some r) : ∃ s', r = .ok s' ∧ TimerInv s' := by
  cases label with
  | newTimer addr expiration interval =>
      simp only [TimerState.step, Option.map_eq_some_iff] at hstep
      obtain ⟨q, hnew, rfl⟩ := hstep
      obtain ⟨hagree, hactive, hexists, hinactive, hkeep⟩ := h.agree.newTimer hnew
      refine ⟨_, rfl, hagree, fun addr' hmem => ?_⟩
      rcases Finset.mem_insert.mp hmem with rfl | hmem
      · exact ⟨hexists, hinactive⟩
      · exact ⟨hkeep addr' (h.created addr' hmem).1, by rw [hactive]; exact (h.created addr' hmem).2⟩
  | addTimerInLoop addr clock =>
      simp only [TimerState.step] at hstep
      split at hstep
      · rename_i hmem
        obtain ⟨⟨timer, hheap⟩, hinactive⟩ := h.created addr hmem
        obtain ⟨q, hadd, hagree, hsame, hactive⟩ := h.agree.addTimerInLoop hheap hinactive clock
        rw [hadd] at hstep
        cases hstep
        refine ⟨_, rfl, hagree, fun addr' hmem' => ?_⟩
        obtain ⟨hne, hmem'⟩ := Finset.mem_erase.mp hmem'
        obtain ⟨hexists, hinactive'⟩ := h.created addr' hmem'
        refine ⟨by rw [hsame]; exact hexists, fun sequence hin => ?_⟩
        rw [hactive, Finset.mem_insert] at hin
        rcases hin with hin | hin
        · exact hne (Prod.mk.inj hin).1
        · exact hinactive' sequence hin
      · cases hstep
  | call c =>
      cases c with
      | addTimer addr expiration interval clock =>
          simp only [TimerState.step, TimerQueue.call, Option.map_eq_some_iff] at hstep
          obtain ⟨_, ⟨q, hnew, rfl⟩, rfl⟩ := hstep
          obtain ⟨hagree, hactive, ⟨timer, hheap⟩, hinactive, hkeep⟩ := h.agree.newTimer hnew
          obtain ⟨q', hadd, hagree', hsame, hactive'⟩ :=
            hagree.addTimerInLoop hheap hinactive clock
          rw [hadd]
          refine ⟨_, rfl, hagree', fun addr' hmem => ?_⟩
          obtain ⟨hexists, hinactive'⟩ := h.created addr' hmem
          refine ⟨by rw [hsame]; exact hkeep addr' hexists, fun sequence hin => ?_⟩
          rw [hactive', Finset.mem_insert, hactive] at hin
          rcases hin with hin | hin
          · -- the address was free before, and this timer existed
            obtain ⟨timer', hheap'⟩ := hexists
            exact TimerQueue.newTimer_ne hnew hheap' (Prod.mk.inj hin).1
          · exact hinactive' sequence hin
      | cancel timerId =>
          simp only [TimerState.step, TimerQueue.call, Option.map_some, Option.some.injEq] at hstep
          subst hstep
          obtain ⟨q, hcancel, hagree, hactive, hkeep⟩ := h.agree.cancelInLoop timerId
          rw [hcancel]
          refine ⟨_, rfl, hagree, fun addr hmem => ?_⟩
          obtain ⟨hexists, hinactive⟩ := h.created addr hmem
          refine ⟨by rw [hkeep addr hinactive]; exact hexists, fun sequence hin => ?_⟩
          rw [hactive] at hin
          exact hinactive sequence (Finset.mem_of_mem_erase hin)
  | handleRead now callback =>
      have hexp : s.queue.getExpired ndebug now = .ok ([], s.queue) := h.agree.getExpired hnone
      simp only [TimerState.step, TimerQueue.handleRead, hexp, TimerQueue.runExpired,
        Option.map_some, Option.some.injEq] at hstep
      subst hstep
      exact ⟨_, rfl, ⟨h.agree.timers, h.agree.active⟩, h.created⟩

end Runs

/-- What `getExpired` is for: it takes the timers that are due out of both sets and returns
them in ascending order. -/
def TimerQueue.TakesExpired (q : TimerQueue) (now : Int) : Prop :=
  ∃ expired q', q.getExpired false now = .ok (expired, q') ∧
    expired = (q.timers.filter fun e => (ofLex e).1 ≤ now).sort ∧
    q'.timers = q.timers.filter (fun e => now < (ofLex e).1) ∧
    q'.activeTimers = q.activeTimers.filter fun a =>
      ∀ timer ∈ q.heap a.1, now < timer.expiration

theorem TimerQueue.eraseExpired_timers {ndebug : Bool} {expired : List TimerEntry}
    {q q' : TimerQueue} (h : eraseExpired ndebug expired q = .ok q') : q'.timers = q.timers := by
  induction expired generalizing q with
  | nil =>
      cases h
      rfl
  | cons e rest ih =>
      simp only [eraseExpired, bind_eq_ok] at h
      obtain ⟨timer, -, -, -, h⟩ := h
      have htimers := ih h
      exact htimers

/-- `getExpired` does what it is for exactly when there is nothing to do. -/
theorem TimerQueue.SetsAgree.takesExpired_iff {q : TimerQueue} (h : q.SetsAgree) (now : Int) :
    q.TakesExpired now ↔ ∀ e ∈ q.timers, now < (ofLex e).1 := by
  constructor
  · rintro ⟨expired, q', hget, -, htimers, -⟩
    have hsame : q'.timers = q.timers := by
      simp only [TimerQueue.getExpired, bind_eq_ok, Except.ok.injEq, Prod.mk.injEq] at hget
      obtain ⟨-, -, -, -, q₁, herase, -, -, -, rfl⟩ := hget
      exact eraseExpired_timers herase
    intro e he
    rw [← hsame, htimers] at he
    exact (Finset.mem_filter.mp he).2
  · intro hnone
    refine ⟨[], q, h.getExpired hnone, ?_, ?_, ?_⟩
    · have hempty : (q.timers.filter fun e => (ofLex e).1 ≤ now) = ∅ := by
        rw [Finset.filter_eq_empty_iff]
        exact fun e he => not_le.mpr (hnone e he)
      rw [hempty, Finset.sort_empty]
    · rw [Finset.filter_true_of_mem hnone]
    · symm
      refine Finset.filter_true_of_mem fun a ha timer htimer => ?_
      obtain ⟨timer', hheap, hseq⟩ := h.active a.1 a.2 ha
      cases hheap.symm.trans htimer
      have hentry : (toLex (timer.expiration, a.1) : TimerEntry) ∈ q.timers :=
        (h.timers _ _).mpr ⟨timer, hheap, by rw [hseq]; exact ha, rfl⟩
      exact hnone _ hentry

/-- **The two sets of the timer queue.** In every run in which no timer is due when
`handleRead` looks, after every operation an entry is in `_timers` exactly if it is the
expiration and the address of a timer in `_activeTimers`; no assertion fails in the next
operation either, and `getExpired` takes exactly the timers that are due out of both sets
as long as there are none. -/
theorem timer_sets_agree {s : TimerState} (h : (timerSystem false).ReachableBy NoneDue s) :
    (∀ expiration addr, toLex (expiration, addr) ∈ s.queue.timers ↔
        ∃ timer, s.queue.heap addr = some timer ∧
          (addr, timer.sequence) ∈ s.queue.activeTimers ∧ expiration = timer.expiration) ∧
      (∀ addr sequence, (addr, sequence) ∈ s.queue.activeTimers →
        ∃ timer, s.queue.heap addr = some timer ∧ timer.sequence = sequence) ∧
      s.queue.timers.card = s.queue.activeTimers.card ∧
      (∀ label fault, NoneDue s label → ¬ (timerSystem false).Fails label s fault) ∧
      ∀ now, s.queue.TakesExpired now ↔ ∀ e ∈ s.queue.timers, now < (ofLex e).1 := by
  have hinv : TimerInv s := by
    refine h.invariant (P := TimerInv) ?_ ?_
    · rintro s rfl
      exact ⟨TimerQueue.create_setsAgree, by simp⟩
    · intro s label s' _ hnone hinv hnext
      obtain ⟨s'', heq, hinv'⟩ := hinv.step hnone hnext
      cases heq
      exact hinv'
  refine ⟨hinv.agree.timers, hinv.agree.active, hinv.agree.card_eq, ?_,
    hinv.agree.takesExpired_iff⟩
  intro label fault hnone hfail
  obtain ⟨s', heq, -⟩ := hinv.step hnone hfail
  cases heq

/-- One timer that is due when the timerfd fires: it is erased from `_activeTimers` only, and
the assertion at the end of `getExpired` fails. -/
theorem expired_timer_breaks_sets :
    ∃ s, (timerSystem false).Reachable s ∧
      (timerSystem false).Fails (.handleRead 200 fun _ => []) s (.assertion .getExpired_sizes) := by
  obtain ⟨s, hs, hp⟩ := System.exists_reachable_of_replay (timerSystem false)
    [.call (.addTimer 8 100 0 0)] ⟨.create, ∅⟩
    (fun s => (timerSystem false).fault (.handleRead 200 fun _ => []) s ==
      some (.assertion .getExpired_sizes))
    rfl (by decide +kernel)
  exact ⟨s, hs, System.fails_of_fault (by simpa using hp)⟩

/-- A timer is added and another one cancelled, and the timerfd fires early: the sets
agree. -/
theorem timer_sets_agree_early :
    ∃ s, (timerSystem false).ReachableBy NoneDue s ∧ s.queue.activeTimers = {(8, 1)} ∧
      s.queue.timers.card = 1 ∧ s.queue.TakesExpired 99 := by
  have hok : ∀ label ∈ [TimerLabel.call (.addTimer 8 100 0 0), .call (.addTimer 16 100 0 0),
      .call (.cancel (16, 2)), .handleRead 99 fun _ => []], ∀ s,
      (match label with
        | .handleRead now _ => decide (∀ e ∈ s.queue.timers, now < (ofLex e).1)
        | _ => true) = true → NoneDue s label := by
    intro label _ s htest
    cases label with
    | handleRead now callback => simpa [NoneDue] using htest
    | _ => exact trivial
  obtain ⟨s, hs, hp⟩ := System.exists_reachableBy_of_replay (timerSystem false) _ _
    ⟨.create, ∅⟩
    (fun s => decide (s.queue.activeTimers = {(8, 1)} ∧ ∀ e ∈ s.queue.timers, 99 < (ofLex e).1))
    rfl (fun label hlabel s _ => hok label hlabel s) (by decide +kernel)
  simp only [decide_eq_true_eq] at hp
  obtain ⟨-, -, hcard, -, htakes⟩ := timer_sets_agree hs
  exact ⟨s, hs, hp.1, by rw [hcard, hp.1]; rfl, (htakes 99).mpr hp.2⟩

end Reactor
