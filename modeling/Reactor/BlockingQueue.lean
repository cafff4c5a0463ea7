import Reactor.Basic
import Reactor.Lib.Monitor

/-!
# Blocking queues and the latch (`BlockingQueue.h`, `BoundedBlockingQueue.h`, `CountDownLatch.cc`)

Three monitors. Any number of threads call `put` and `take`, or `wait` and `countDown`, in any
order; a thread that must wait sleeps on `notEmpty_`, `notFull_` or `condition_`, with spurious
wakeups, and a newcomer may get the mutex before a thread that was woken.

* `blockingQueue_correct`, `boundedBlockingQueue_correct` - elements come out once each and in the
  order of their `put`, and no sleeping thread is forgotten.
* `countDownLatch_correct` - `wait` returns after the last `countDown`, and everyone is woken.
-/

namespace Reactor

open Reactor.Lib

/-! ### The queues -/

/-- The condition variables of a queue. -/
inductive QueueCondition where
  | notEmpty_
  | notFull_
deriving DecidableEq, Repr

/-- The assertions behind the `while` loops of the queues. -/
inductive QueueAssertion where
  | take_empty
  | put_full
deriving DecidableEq, Repr

/-- A queue, with what was ever put into it and taken out of it, in order. -/
structure Queue (α : Type) where
  queue_ : List α
  produced : List α
  consumed : List α
deriving DecidableEq, Repr

inductive QueueOp (α : Type) where
  | put (x : α)
  | take
deriving DecidableEq, Repr

namespace Queue

variable {α : Type}

/-- `queue_.full()`: a `std::deque` never is. -/
def full (capacity : Option Nat) (s : Queue α) : Bool :=
  match capacity with
  | none => false
  | some maxSize => s.queue_.length == maxSize

def push (x : α) (s : Queue α) : Queue α :=
  { s with queue_ := s.queue_ ++ [x], produced := s.produced ++ [x] }

/-- `queue_.front()` and `queue_.pop_front()`. -/
def pop (s : Queue α) : Except QueueAssertion (Queue α) :=
  match s.queue_ with
  | [] => .error .take_empty
  | front :: rest => .ok { s with queue_ := rest, consumed := s.consumed ++ [front] }

/-- The two queues differ in the container: the bounded one has a capacity, makes `put` wait for
room and has `take` tell the producers. -/
def cond (capacity : Option Nat) : QueueOp α → Option QueueCondition
  | .put _ => capacity.map fun _ => .notFull_
  | .take => some .notEmpty_

/-- The conditions of the `while` loops. -/
def blocked (capacity : Option Nat) : QueueOp α → Queue α → Bool
  | .put _, s => s.full capacity
  | .take, s => s.queue_.isEmpty

/-- The bodies behind the loops. -/
def act (capacity : Option Nat) : QueueOp α → Queue α → Except QueueAssertion (Queue α)
  | .put x, s => if s.full capacity then .error .put_full else .ok (s.push x)
  | .take, s => s.pop

def signal (capacity : Option Nat) : QueueOp α → Signal QueueCondition
  | .put _ => .one .notEmpty_
  | .take => if capacity.isSome then .one .notFull_ else .none

@[simps]
def monitor (capacity : Option Nat) :
    Monitor (Queue α) QueueCondition (QueueOp α) QueueAssertion where
  enter _ s := some s
  locks _ _ := true
  cond := cond capacity
  blocked := blocked capacity
  act := act capacity
  signal op _ := signal capacity op

def create : Queue α := { queue_ := [], produced := [], consumed := [] }

end Queue

/-- `BlockingQueue<T>`. -/
def BlockingQueue (α : Type) : Monitor (Queue α) QueueCondition (QueueOp α) QueueAssertion :=
  Queue.monitor none

/-- `BoundedBlockingQueue<T>` over a circular buffer of `maxSize` elements. -/
def BoundedBlockingQueue (α : Type) (maxSize : Nat) :
    Monitor (Queue α) QueueCondition (QueueOp α) QueueAssertion :=
  Queue.monitor (some maxSize)

namespace Queue

variable {α : Type} {capacity : Option Nat} {s : Queue α}

/-- What is in the queue is what was put and not yet taken, and it fits. -/
structure Fifo (capacity : Option Nat) (s : Queue α) : Prop where
  order : s.produced = s.consumed ++ s.queue_
  fits : ∀ maxSize, capacity = some maxSize → s.queue_.length ≤ maxSize

/-- How many more elements fit. -/
def room (capacity : Option Nat) (s : Queue α) : ℕ∞ :=
  match capacity with
  | none => ⊤
  | some maxSize => (maxSize - s.queue_.length : Nat)

theorem pop_eq_ok {s' : Queue α} (h : s.pop = .ok s') : ∃ front rest,
    s.queue_ = front :: rest ∧
    s' = { s with queue_ := rest, consumed := s.consumed ++ [front] } := by
  unfold pop at h
  split at h
  · cases h
  · rename_i front rest hq
    cases h
    exact ⟨front, rest, hq, rfl⟩

theorem act_put_eq_ok {x : α} {s' : Queue α} (h : act capacity (.put x) s = .ok s') :
    s' = s.push x := by
  simp only [act] at h
  split at h
  · cases h
  · cases h
    rfl

@[simp] theorem waitsOn_put_notEmpty (x : α) :
    (monitor capacity).waitsOn .notEmpty_ (.put x) = false := by
  cases capacity <;> simp [Monitor.waitsOn, cond]

@[simp] theorem waitsOn_take (c : QueueCondition) :
    (monitor capacity).waitsOn c (.take : QueueOp α) = decide (QueueCondition.notEmpty_ = c) := by
  simp [Monitor.waitsOn, cond]

@[simp] theorem waitsOn_put_notFull (maxSize : Nat) (x : α) :
    (monitor (some maxSize)).waitsOn .notFull_ (.put x) = true := by
  simp [Monitor.waitsOn, cond]

theorem keeps_fifo (capacity : Option Nat) :
    (monitor capacity).Keeps (· = (create : Queue α)) fun s _ => s.Fifo capacity where
  init := by
    rintro _ rfl
    exact ⟨rfl, fun _ _ => Nat.zero_le _⟩
  enter := by
    intro op s s' ops hs henter _
    cases henter
    exact hs
  pass := by
    intro op s s' ops _ _ hlocks
    cases hlocks
  act := by
    intro op s s' ops hs hfree hact
    cases op with
    | put x =>
        rw [act_put_eq_ok hact]
        refine ⟨by simp [push, hs.order], ?_⟩
        rintro maxSize rfl
        have hlen := hs.fits maxSize rfl
        have hne : s.queue_.length ≠ maxSize := by simpa [blocked, full] using hfree
        simp only [push, List.length_append, List.length_singleton]
        omega
    | take =>
        obtain ⟨front, rest, hq, rfl⟩ := pop_eq_ok hact
        refine ⟨by simp [hs.order, hq], fun maxSize hcap => ?_⟩
        have hlen := hs.fits maxSize hcap
        simp only [hq, List.length_cons] at hlen
        exact (Nat.le_succ _).trans hlen

/-- The elements that wait in the queue are what `take` can go through for. -/
theorem counts_notEmpty (capacity : Option Nat) :
    (monitor capacity).Counts (fun (s : Queue α) _ => s.Fifo capacity) .notEmpty_
      fun s => (s.queue_.length : ℕ∞) where
  enter := by
    intro op s s' ops _ henter
    cases henter
    exact le_rfl
  blocked := by
    intro op s ops _ hop hblocked
    cases op with
    | put x => simp at hop
    | take => simpa [blocked] using hblocked
  act := by
    intro op s s' ops _ _ hact
    cases op with
    | put x =>
        rw [act_put_eq_ok hact]
        simp [push, signal, Monitor.worth, Monitor.uses]
    | take =>
        obtain ⟨front, rest, hq, rfl⟩ := pop_eq_ok hact
        simp [hq, Monitor.uses]

/-- The room that is left is what `put` can go through for. -/
theorem counts_notFull (capacity : Option Nat) :
    (monitor capacity).Counts (fun (s : Queue α) _ => s.Fifo capacity) .notFull_
      (room capacity) where
  enter := by
    intro op s s' ops _ henter
    cases henter
    exact le_rfl
  blocked := by
    intro op s ops _ hop hblocked
    cases op with
    | put x =>
        cases capacity with
        | none => simp [blocked, full] at hblocked
        | some maxSize =>
            have hlen : s.queue_.length = maxSize := by simpa [blocked, full] using hblocked
            simp [room, hlen]
    | take => simp at hop
  act := by
    intro op s s' ops hs hfree hact
    cases capacity with
    | none => simp [room]
    | some maxSize =>
        have hlen := hs.fits maxSize rfl
        cases op with
        | put x =>
            have hne : s.queue_.length ≠ maxSize := by simpa [blocked, full] using hfree
            have hroom : maxSize - (s.queue_.length + 1) + 1 ≤ maxSize - s.queue_.length := by
              omega
            rw [act_put_eq_ok hact]
            simp only [room, push, Monitor.uses, List.length_append, List.length_singleton,
              waitsOn_put_notFull, if_true]
            exact le_add_right (by exact_mod_cast hroom)
        | take =>
            obtain ⟨front, rest, hq, rfl⟩ := pop_eq_ok hact
            have hroom : maxSize - rest.length ≤ maxSize - (rest.length + 1) + 1 := by omega
            have hworth : Monitor.worth .notFull_ ((monitor (some maxSize)).signal .take s) = 1 := by
              simp [signal, Monitor.worth]
            rw [hworth]
            simp only [room, hq, Monitor.uses, waitsOn_take, List.length_cons, reduceCtorEq,
              decide_false, Bool.false_eq_true, if_false]
            exact_mod_cast hroom

/-- The assertions behind the loops hold. -/
theorem never_fails (capacity : Option Nat) {s : Monitor.State (Queue α) (QueueOp α)}
    (h : ((monitor capacity).system (· = create)).Reachable s)
    {label : Monitor.Label (QueueOp α)} {e : QueueAssertion} :
    ¬ ((monitor capacity).system (· = (create : Queue α))).Fails label s e := by
  refine (keeps_fifo capacity).never_fails ?_ h
  intro op s ops e _ hfree hact
  cases op with
  | put x =>
      have hroom : s.full capacity = false := hfree
      simp [act, hroom] at hact
  | take =>
      have hsome : s.queue_ ≠ [] := by simpa [blocked] using hfree
      cases hq : s.queue_ with
      | nil => exact hsome hq
      | cons front rest => simp [act, pop, hq] at hact

end Queue

section Results

variable {α : Type} {s : Monitor.State (Queue α) (QueueOp α)}

/-- **`BlockingQueue`.** In every run of any number of threads: what was put is what was taken,
in the same order, followed by what is in the queue; only `take` sleeps, and while one does, the
queue holds no more elements than there are threads woken to take them; no assertion fails. -/
theorem blockingQueue_correct (h : ((BlockingQueue α).system (· = Queue.create)).Reachable s) :
    s.shared.produced = s.shared.consumed ++ s.shared.queue_ ∧
    (∀ op ∈ s.pending, op = .take) ∧
    (s.waiting ≠ [] → s.shared.queue_.length ≤ s.woken.length) ∧
    ∀ label e, ¬ ((BlockingQueue α).system (· = Queue.create)).Fails label s e := by
  have htake : ∀ op ∈ s.pending, op = .take := by
    intro op hop
    obtain ⟨a, hblocked⟩ := Monitor.blocked_of_pending h hop
    cases op with
    | put x => simp [BlockingQueue, Queue.blocked, Queue.full] at hblocked
    | take => rfl
  refine ⟨((Queue.keeps_fifo none).reachable h).order, htake, ?_,
    fun _ _ => Queue.never_fails none h⟩
  intro hwait
  have hawake := (Queue.counts_notEmpty none).no_lost_wakeup (Queue.keeps_fifo none) h
  obtain ⟨op, hop⟩ := List.exists_mem_of_ne_nil _ hwait
  have hsleeps : 0 < (Queue.monitor none).count .notEmpty_ s.waiting := by
    refine List.countP_pos_iff.mpr ⟨op, hop, ?_⟩
    rw [htake op (by simp [Monitor.State.pending, hop])]
    simp
  exact (ENat.natCast_le_natCast.mp (hawake hsleeps)).trans List.countP_le_length

/-- **`BoundedBlockingQueue`.** In every run of any number of threads: what was put is what was
taken, in the same order, followed by what is in the queue, which never holds more than `maxSize`
elements; while a `take` sleeps, every element has a woken `take` of its own, and while a `put`
sleeps, so has every free place; producers and consumers never all sleep; no assertion fails. -/
theorem boundedBlockingQueue_correct {maxSize : Nat}
    (h : ((BoundedBlockingQueue α maxSize).system (· = Queue.create)).Reachable s) :
    s.shared.produced = s.shared.consumed ++ s.shared.queue_ ∧
    s.shared.queue_.length ≤ maxSize ∧
    (BoundedBlockingQueue α maxSize).Awake .notEmpty_ (fun q => q.queue_.length) s ∧
    (BoundedBlockingQueue α maxSize).Awake .notFull_ (fun q => (maxSize - q.queue_.length : Nat)) s ∧
    (0 < maxSize → s.woken = [] → .take ∈ s.waiting → ∀ x, .put x ∉ s.waiting) ∧
    ∀ label e, ¬ ((BoundedBlockingQueue α maxSize).system (· = Queue.create)).Fails label s e := by
  have hkeeps := (Queue.keeps_fifo (some maxSize)).reachable h
  have hempty := (Queue.counts_notEmpty (some maxSize)).no_lost_wakeup (Queue.keeps_fifo _) h
  have hfull := (Queue.counts_notFull (some maxSize)).no_lost_wakeup (Queue.keeps_fifo _) h
  refine ⟨hkeeps.order, hkeeps.fits maxSize rfl, hempty, hfull, ?_,
    fun _ _ => Queue.never_fails _ h⟩
  intro hpos hnone htake x hput
  -- nobody is on the way, so the queue is empty and full
  have hnoElement := hempty (List.countP_pos_iff.mpr ⟨_, htake, by simp⟩)
  have hnoRoom := hfull (List.countP_pos_iff.mpr ⟨_, hput, by simp⟩)
  rw [hnone] at hnoElement hnoRoom
  have hlen : s.shared.queue_.length ≤ 0 := ENat.natCast_le_natCast.mp hnoElement
  have hroom : maxSize - s.shared.queue_.length ≤ 0 := ENat.natCast_le_natCast.mp hnoRoom
  omega

/-- Two consumers sleep, one element is put: one of them is on its way to it. -/
theorem blockingQueue_hands_over :
    ∃ s, ((BlockingQueue Nat).system (· = Queue.create)).Reachable s ∧ s.waiting = [.take] ∧
      s.shared.queue_ = [7] ∧ s.shared.queue_.length ≤ s.woken.length := by
  obtain ⟨s, hs, hp⟩ := System.exists_reachable_of_replay
    ((BlockingQueue Nat).system (· = Queue.create))
    [.call .take, .lock 0 0, .call .take, .lock 0 0, .call (.put 7), .lock 0 0]
    ⟨Queue.create, [], [], []⟩
    (fun s => s.waiting == [.take] && s.shared.queue_ == [7]) ⟨rfl, rfl, rfl, rfl⟩
    (by decide)
  simp only [Bool.and_eq_true, beq_iff_eq] at hp
  exact ⟨s, hs, hp.1, hp.2, (blockingQueue_correct hs).2.2.1 (by simp [hp.1])⟩

/-- Two producers meet a full queue; a consumer takes the element and wakes one of them. -/
theorem boundedBlockingQueue_hands_over :
    ∃ s, ((BoundedBlockingQueue Nat 1).system (· = Queue.create)).Reachable s ∧
      s.waiting = [.put 9] ∧ s.shared.consumed = [7] ∧ s.shared.queue_.length ≤ 1 ∧
      s.shared.produced = s.shared.consumed ++ s.shared.queue_ := by
  obtain ⟨s, hs, hp⟩ := System.exists_reachable_of_replay
    ((BoundedBlockingQueue Nat 1).system (· = Queue.create))
    [.call (.put 7), .call (.put 8), .call (.put 9), .lock 0 0, .lock 0 0, .lock 0 0,
      .call .take, .lock 0 0]
    ⟨Queue.create, [], [], []⟩
    (fun s => s.waiting == [.put 9] && s.shared.consumed == [7]) ⟨rfl, rfl, rfl, rfl⟩ (by decide)
  simp only [Bool.and_eq_true, beq_iff_eq] at hp
  have hcorrect := boundedBlockingQueue_correct hs
  exact ⟨s, hs, hp.1, hp.2, hcorrect.2.1, hcorrect.1⟩

end Results

/-! ### The latch -/

/-- A latch, with how often `countDown` was called and how many `wait`s have returned. `count_` is
an `int`: `countDown` overflows at the least one. -/
structure CountDownLatch where
  count_ : Int
  downs : Nat
  returned : Nat
deriving DecidableEq, Repr

inductive LatchOp where
  | wait
  | countDown
deriving DecidableEq, Repr

namespace CountDownLatch

/-- The least `int`. -/
def intMin : Int := -2 ^ 31

def create (count : Int) : CountDownLatch := { count_ := count, downs := 0, returned := 0 }

def cond : LatchOp → Option Unit
  | .wait => some ()
  | .countDown => none

def blocked : LatchOp → CountDownLatch → Bool
  | .wait, s => 0 < s.count_
  | .countDown, _ => false

def act : LatchOp → CountDownLatch → Exec CountDownLatch
  | .wait, s => .ok { s with returned := s.returned + 1 }
  | .countDown, s =>
      if s.count_ ≤ intMin then .error .overflow
      else .ok { s with count_ := s.count_ - 1, downs := s.downs + 1 }

/-- `notifyAll` when the count comes to zero. -/
def signal : LatchOp → CountDownLatch → Signal Unit
  | .wait, _ => .none
  | .countDown, s => if s.count_ - 1 = 0 then .all () else .none

@[simps]
def monitor : Monitor CountDownLatch Unit LatchOp Fault where
  enter _ s := some s
  locks _ _ := true
  cond := cond
  blocked := blocked
  act := act
  signal := signal

/-- The count is what is left of the initial one, and nobody got through before. -/
structure Counted (count : Int) (s : CountDownLatch) : Prop where
  left : s.count_ = count - s.downs
  opened : 0 < s.returned → count ≤ s.downs

/-- Nobody gets through a latch that is closed, and anyone through an open one. -/
def avail (s : CountDownLatch) : ℕ∞ := if 0 < s.count_ then 0 else ⊤

theorem act_countDown_eq_ok {s s' : CountDownLatch} (h : act .countDown s = .ok s') :
    s' = { s with count_ := s.count_ - 1, downs := s.downs + 1 } := by
  simp only [act] at h
  split at h
  · cases h
  · cases h
    rfl

theorem act_eq_error {op : LatchOp} {s : CountDownLatch} {f : Fault} (h : act op s = .error f) :
    f = .overflow ∧ s.count_ ≤ intMin := by
  cases op with
  | wait => cases h
  | countDown =>
      simp only [act] at h
      split at h
      · rename_i hleast
        cases h
        exact ⟨rfl, hleast⟩
      · cases h

theorem keeps_counted (count : Int) :
    monitor.Keeps (· = create count) fun s _ => s.Counted count where
  init := by
    rintro _ rfl
    exact ⟨by simp [create], by simp [create]⟩
  enter := by
    intro op s s' ops hs henter _
    cases henter
    exact hs
  pass := by
    intro op s s' ops _ _ hlocks
    cases hlocks
  act := by
    intro op s s' ops hs hfree hact
    cases op with
    | wait =>
        cases hact
        have hopen : s.count_ ≤ 0 := by simpa [blocked] using hfree
        have hcount := hs.left
        exact ⟨hcount, fun _ => by dsimp only; omega⟩
    | countDown =>
        rw [act_countDown_eq_ok hact]
        have hcount := hs.left
        refine ⟨by dsimp only; push_cast; omega, fun hpos => ?_⟩
        have hopened := hs.opened hpos
        push_cast
        omega

theorem counts_condition (count : Int) :
    monitor.Counts (fun s _ => s.Counted count) () avail where
  enter := by
    intro op s s' ops _ henter
    cases henter
    exact le_rfl
  blocked := by
    intro op s ops _ hop hblocked
    cases op with
    | wait =>
        have hclosed : 0 < s.count_ := by simpa [blocked] using hblocked
        simp [avail, hclosed]
    | countDown => simp [blocked] at hblocked
  act := by
    intro op s s' ops _ hfree hact
    cases op with
    | wait =>
        have hopen : ¬ 0 < s.count_ := by simpa [blocked] using hfree
        simp [avail, hopen]
    | countDown =>
        rw [act_countDown_eq_ok hact]
        have huses : monitor.uses () .countDown = 0 := rfl
        by_cases hlast : s.count_ - 1 = 0
        · simp [signal, hlast, Monitor.worth]
        · by_cases hclosed : 0 < s.count_
          · have hstill : 1 < s.count_ := by omega
            simp [avail, hstill, huses]
          · simp [avail, hclosed]

end CountDownLatch

/-- **`CountDownLatch`.** In every run of any number of threads on a latch of any count: no
`wait` returns before `countDown` was called that often, and from then on no thread sleeps in
`wait` unless it was woken. A step fails only by the overflow of `count_`, after 2^31 calls of
`countDown` too many. -/
theorem countDownLatch_correct {count : Int} {s : Monitor.State CountDownLatch LatchOp}
    (h : (CountDownLatch.monitor.system (· = .create count)).Reachable s) :
    s.shared.count_ = count - s.shared.downs ∧
    (0 < s.shared.returned → count ≤ s.shared.downs) ∧
    (s.waiting ≠ [] → s.shared.downs < count) ∧
    ∀ label f, (CountDownLatch.monitor.system (· = .create count)).Fails label s f →
      f = .overflow ∧ count + 2 ^ 31 ≤ s.shared.downs := by
  have hcounted := (CountDownLatch.keeps_counted count).reachable h
  have hcount := hcounted.left
  have hfails : ∀ label f, (CountDownLatch.monitor.system (· = .create count)).Fails label s f →
      f = .overflow ∧ count + 2 ^ 31 ≤ s.shared.downs := by
    intro label f hfails
    obtain ⟨op, rest, -, -, hact⟩ := Monitor.fails_of_step (M := CountDownLatch.monitor) hfails
    have herr : CountDownLatch.act op s.shared = .error f := hact
    obtain ⟨hf, hleast⟩ := CountDownLatch.act_eq_error herr
    refine ⟨hf, ?_⟩
    unfold CountDownLatch.intMin at hleast
    omega
  refine ⟨hcounted.left, hcounted.opened, fun hwait => ?_, hfails⟩
  obtain ⟨op, hop⟩ := List.exists_mem_of_ne_nil _ hwait
  have hpending : op ∈ s.pending := by simp [Monitor.State.pending, hop]
  obtain ⟨a, hblocked⟩ := Monitor.blocked_of_pending h hpending
  have hsleeps : 0 < CountDownLatch.monitor.count () s.waiting := by
    refine List.countP_pos_iff.mpr ⟨op, hop, ?_⟩
    cases op with
    | wait => rfl
    | countDown => simp [CountDownLatch.blocked] at hblocked
  have hawake := (CountDownLatch.counts_condition count).no_lost_wakeup
    (CountDownLatch.keeps_counted count) h hsleeps
  by_cases hclosed : 0 < s.shared.count_
  · omega
  · simp [CountDownLatch.avail, hclosed] at hawake

/-- Two threads wait for two `countDown`s; after the first they still sleep, after the second
one of them is through. -/
theorem countDownLatch_opens :
    ∃ s, (CountDownLatch.monitor.system (· = .create 2)).Reachable s ∧ s.shared.returned = 1 ∧
      (2 : Int) ≤ s.shared.downs := by
  obtain ⟨s, hs, hp⟩ := System.exists_reachable_of_replay
    (CountDownLatch.monitor.system (· = .create 2))
    [.call .wait, .lock 0 0, .call .countDown, .lock 0 0, .call .wait, .lock 0 0,
      .call .countDown, .lock 0 0, .resume 1 0]
    ⟨.create 2, [], [], []⟩ (fun s => s.shared.returned == 1) ⟨rfl, rfl, rfl, rfl⟩ (by decide)
  have hreturned : s.shared.returned = 1 := by simpa using hp
  exact ⟨s, hs, hreturned, (countDownLatch_correct hs).2.1 (by omega)⟩

end Reactor
