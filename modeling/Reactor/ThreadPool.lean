import Reactor.BlockingQueue

/-!
# The thread pool (`ThreadPool.h`, `ThreadPool.cc`)

A monitor with two condition variables and worker threads. `run` queues a task, or executes it
when there are no workers; a worker tests `running_` without the mutex, calls `take` and executes
what it gets; `stop` clears `running_`, wakes every worker and joins them. Between a worker's test
of `running_` and its `take` the other threads go on. `stop` is called once at most, since
`Thread::join` asserts that it is the first, and the tasks end.

* `threadPool_tasks` - every accepted task is queued, being executed or executed, once, and tasks
  are begun in the order of acceptance.
* `threadPool_wakes` - no sleeping worker or producer is forgotten.
* `threadPool_stops` - after `stop` every worker returns, with at most one more task begun by each.
-/

namespace Reactor

open Reactor.Lib

/-- Where a worker stands in `runInThread`: before the test of `running_`, behind it or in `take`,
executing a task, returned. -/
inductive Worker (τ : Type) where
  | ready
  | taking
  | executing (task : τ)
  | returned
deriving DecidableEq, Repr

/-- `assert(!isFull())` in `run`. -/
inductive PoolAssertion where
  | run_full
deriving DecidableEq, Repr

/-- A pool after `start`, with its history: whether `stop` was called; the tasks `run` queued, those
a worker took and those it finished, in order; those `run` executed itself; those taken after
`stop` had cleared `running_`, each with the worker. -/
structure ThreadPool (τ : Type) where
  maxQueueSize_ : Nat
  running_ : Bool
  queue_ : List τ
  threads_ : List (Worker τ)
  stopCalled : Bool
  accepted : List τ
  begun : List τ
  finished : List τ
  direct : List τ
  late : List (Nat × τ)
deriving DecidableEq, Repr

/-- The calls of `run` and `stop`, and what worker `i` does: `take`, the end of a task, the end of
its loop. -/
inductive PoolOp (τ : Type) where
  | run (task : τ)
  | stop
  | take (i : Nat)
  | finish (i : Nat)
  | leave (i : Nat)
deriving DecidableEq, Repr

namespace Worker

variable {τ : Type}

def isTaking : Worker τ → Bool
  | .taking => true
  | _ => false

/-- The task in execution. -/
def task : Worker τ → Option τ
  | .executing task => some task
  | _ => none

/-- How many more steps a worker makes after `stop`, at most. -/
def rank : Worker τ → Nat
  | .taking => 3
  | .executing _ => 2
  | .ready => 1
  | .returned => 0

end Worker

namespace ThreadPool

variable {τ : Type}

/-- `setMaxQueueSize(maxQueueSize)` and `start(numThreads)` on a new pool. -/
def start (maxQueueSize numThreads : Nat) : ThreadPool τ :=
  { maxQueueSize_ := maxQueueSize, running_ := true, queue_ := []
    threads_ := List.replicate numThreads .ready, stopCalled := false
    accepted := [], begun := [], finished := [], direct := [], late := [] }

def isFull (s : ThreadPool τ) : Bool :=
  0 < s.maxQueueSize_ && s.maxQueueSize_ ≤ s.queue_.length

/-- The tasks in execution. -/
def executing (s : ThreadPool τ) : List τ := s.threads_.filterMap Worker.task

@[simps]
def setWorker (i : Nat) (w : Worker τ) (s : ThreadPool τ) : ThreadPool τ :=
  { s with threads_ := s.threads_.set i w }

/-- What happens without the mutex: the test of `threads_`, `while (running_)`, the task itself. -/
def enter : PoolOp τ → ThreadPool τ → Option (ThreadPool τ)
  | .run task, s =>
      if s.threads_.isEmpty then some { s with direct := s.direct ++ [task] } else some s
  | .stop, s => if s.stopCalled then none else some { s with stopCalled := true }
  | .take i, s =>
      match s.threads_[i]? with
      | some .ready => if s.running_ then some (s.setWorker i .taking) else none
      | _ => none
  | .finish i, s =>
      match s.threads_[i]? with
      | some (.executing task) =>
          some { s.setWorker i .ready with finished := s.finished ++ [task] }
      | _ => none
  | .leave i, s =>
      match s.threads_[i]? with
      | some .ready => if s.running_ then none else some (s.setWorker i .returned)
      | _ => none

/-- Whether the mutex comes next. -/
def locks : PoolOp τ → ThreadPool τ → Bool
  | .run _, s => !s.threads_.isEmpty
  | .stop, _ => true
  | .take _, _ => true
  | .finish _, _ => false
  | .leave _, _ => false

def cond : PoolOp τ → Option QueueCondition
  | .run _ => some .notFull_
  | .take _ => some .notEmpty_
  | _ => none

/-- The conditions of the `while` loops. -/
def blocked : PoolOp τ → ThreadPool τ → Bool
  | .run _, s => s.isFull
  | .take _, s => s.queue_.isEmpty && s.running_
  | _, _ => false

def act : PoolOp τ → ThreadPool τ → Except PoolAssertion (ThreadPool τ)
  | .run task, s =>
      if s.isFull then .error .run_full
      else .ok { s with queue_ := s.queue_ ++ [task], accepted := s.accepted ++ [task] }
  | .stop, s => .ok { s with running_ := false }
  | .take i, s =>
      match s.queue_ with
      -- an empty task, which `runInThread` skips
      | [] => .ok (s.setWorker i .ready)
      | task :: rest =>
          .ok { s.setWorker i (.executing task) with
            queue_ := rest
            begun := s.begun ++ [task]
            late := if s.running_ then s.late else s.late ++ [(i, task)] }
  | .finish _, s => .ok s
  | .leave _, s => .ok s

def signal : PoolOp τ → ThreadPool τ → Signal QueueCondition
  | .run _, _ => .one .notEmpty_
  | .stop, _ => .all .notEmpty_
  | .take _, s => if !s.queue_.isEmpty && 0 < s.maxQueueSize_ then .one .notFull_ else .none
  | _, _ => .none

@[simps]
def monitor : Monitor (ThreadPool τ) QueueCondition (PoolOp τ) PoolAssertion where
  enter := enter
  locks := locks
  cond := cond
  blocked := blocked
  act := act
  signal := signal

/-- The runs of a pool of `numThreads` workers. -/
def system (τ : Type) (maxQueueSize numThreads : Nat) :
    System (Monitor.State (ThreadPool τ) (PoolOp τ)) (Monitor.Label (PoolOp τ)) PoolAssertion :=
  monitor.system (· = start maxQueueSize numThreads)

/-! ### The invariant -/

/-- The operation is worker `i`'s call of `take`. -/
def isTake (i : Nat) : PoolOp τ → Bool
  | .take j => i = j
  | _ => false

/-- How many of worker `i`'s calls of `take` are under way. -/
def calls (i : Nat) (ops : Multiset (PoolOp τ)) : Nat := ops.countP (isTake i · = true)

/-- Worker `i` is in `take`. -/
def inTake (s : ThreadPool τ) (i : Nat) : Bool := s.threads_[i]?.any Worker.isTaking

/-- How many tasks worker `i` took after `stop`. -/
def lates (s : ThreadPool τ) (i : Nat) : Nat := (s.late.map Prod.fst).count i

/-- What holds whatever the threads do: `numThreads` and `maxQueueSize` are those given, the
history explains the queue and the workers, only a pool with workers is waited for, a worker is in
`take` exactly while its call is under way, and one that took a task late will not take again. -/
structure Sound (maxQueueSize numThreads : Nat) (s : ThreadPool τ) (ops : Multiset (PoolOp τ)) :
    Prop where
  bound : s.maxQueueSize_ = maxQueueSize
  size : s.threads_.length = numThreads
  order : s.accepted = s.begun ++ s.queue_
  done : s.begun.Perm (s.finished ++ s.executing)
  fits : 0 < maxQueueSize → s.queue_.length ≤ maxQueueSize
  workers : ∀ task, .run task ∈ ops → 0 < numThreads
  calls : ∀ i, calls i ops = (s.inTake i).toNat
  early : s.running_ = true → s.late = []
  late : s.late.map Prod.snd <:+ s.begun
  once : ∀ i, s.lates i + (s.inTake i).toNat ≤ 1
  own : ∀ p ∈ s.late, p.1 < numThreads
  alone : numThreads = 0 → s.accepted = []

variable {maxQueueSize numThreads i : Nat} {s s' : ThreadPool τ} {ops : Multiset (PoolOp τ)}
  {w w' : Worker τ}

theorem executing_perm (h : s.threads_[i]? = some w) :
    s.executing.Perm (w.task.toList ++ (s.threads_.eraseIdx i).filterMap Worker.task) := by
  have hperm := (Monitor.perm_of_getElem? h).filterMap Worker.task
  cases w <;> exact hperm

theorem executing_setWorker (h : s.threads_[i]? = some w') :
    (s.setWorker i w).executing.Perm
      (w.task.toList ++ (s.threads_.eraseIdx i).filterMap Worker.task) := by
  obtain ⟨hlt, -⟩ := List.getElem?_eq_some_iff.mp h
  have hperm := (List.set_perm_cons_eraseIdx hlt w).filterMap Worker.task
  cases w <;> exact hperm

theorem inTake_setWorker (h : s.threads_[i]? = some w') (j : Nat) :
    (s.setWorker i w).inTake j = if i = j then w.isTaking else s.inTake j := by
  obtain ⟨hlt, -⟩ := List.getElem?_eq_some_iff.mp h
  simp only [inTake, setWorker, List.getElem?_set, hlt, if_true]
  split <;> rfl

@[simp] theorem calls_zero (i : Nat) : calls i (0 : Multiset (PoolOp τ)) = 0 := rfl

@[simp] theorem calls_cons (j : Nat) (op : PoolOp τ) :
    calls j (op ::ₘ ops) = calls j ops + (isTake j op).toNat := by
  rw [calls, Multiset.countP_cons]
  cases isTake j op <;> rfl

/-- A worker that moves and the call that begins or ends with it. -/
theorem calls_setWorker {ops' : Multiset (PoolOp τ)} (h : s.threads_[i]? = some w')
    (hcalls : ∀ j, calls j ops = (s.inTake j).toNat)
    (hsame : ∀ j, i ≠ j → calls j ops' = calls j ops)
    (hown : calls i ops' + w'.isTaking.toNat =
      calls i ops + w.isTaking.toNat) (j : Nat) :
    calls j ops' = ((s.setWorker i w).inTake j).toNat := by
  rw [inTake_setWorker h]
  split
  · rename_i hij
    subst hij
    have hold : s.inTake i = w'.isTaking := by simp [inTake, h]
    have hcall := hcalls i
    rw [hold] at hcall
    omega
  · rename_i hij
    rw [hsame j hij, hcalls j]

theorem Sound.size_setWorker (hs : Sound maxQueueSize numThreads s ops) (i : Nat) (w : Worker τ) :
    (s.setWorker i w).threads_.length = numThreads := by
  rw [setWorker_threads_, List.length_set, hs.size]

/-- A worker that moves between stages without a task. -/
theorem Sound.done_move (hs : Sound maxQueueSize numThreads s ops)
    (h : s.threads_[i]? = some w') (hw' : w'.task = none) (hw : w.task = none) :
    s.begun.Perm (s.finished ++ (s.setWorker i w).executing) := by
  have hold := executing_perm h
  have hnew := executing_setWorker (w := w) h
  rw [hw'] at hold
  rw [hw] at hnew
  exact hs.done.trans ((hold.trans hnew.symm).append_left s.finished)

/-- A worker that moves out of `take`, or elsewhere, is not in `take` more than before. -/
theorem lates_setWorker (h : s.threads_[i]? = some w') (hw : w.isTaking = false)
    (honce : ∀ j, s.lates j + (s.inTake j).toNat ≤ 1) (j : Nat) :
    s.lates j + ((s.setWorker i w).inTake j).toNat ≤ 1 := by
  rw [inTake_setWorker h, hw]
  split
  · exact (Nat.add_le_add_left (Nat.zero_le _) _).trans (honce j)
  · exact honce j

/-- A worker that passed the test, and `run` and `stop` before the mutex. -/
theorem Sound.enter {op : PoolOp τ} (hs : Sound maxQueueSize numThreads s ops)
    (h : enter op s = some s') (hlocks : locks op s = true) :
    Sound maxQueueSize numThreads s' (op ::ₘ ops) := by
  have hworkers : ∀ op : PoolOp τ, (∀ task, op ≠ .run task) →
      ∀ task, .run task ∈ op ::ₘ ops → 0 < numThreads := by
    intro op hop task hmem
    rcases Multiset.mem_cons.mp hmem with rfl | hmem
    · exact absurd rfl (hop task)
    · exact hs.workers task hmem
  cases op with
  | run task =>
      have hthreads : s.threads_ ≠ [] := by simpa [locks] using hlocks
      simp only [ThreadPool.enter, List.isEmpty_iff, hthreads, if_false] at h
      cases h
      exact { hs with
        workers := fun _ _ => hs.size ▸ List.length_pos_iff.mpr hthreads
        calls := fun i => (calls_cons i (.run task)).trans (hs.calls i) }
  | stop =>
      simp only [ThreadPool.enter] at h
      split at h <;> cases h
      exact { hs with
        workers := hworkers .stop nofun
        calls := fun i => (calls_cons i .stop).trans (hs.calls i) }
  | take i =>
      simp only [ThreadPool.enter] at h
      split at h
      · rename_i hready
        split at h <;> cases h
        rename_i hrunning
        refine { hs with
          size := hs.size_setWorker i .taking, done := hs.done_move hready rfl rfl
          workers := hworkers _ nofun, calls := calls_setWorker hready hs.calls ?_ ?_, once := ?_ }
        · intro j hij
          have hji : j ≠ i := fun h => hij h.symm
          simp [isTake, hji]
        · simp [isTake, Worker.isTaking]
        · intro j
          have hnone : (s.setWorker i .taking).lates j = 0 := by
            simp [lates, setWorker, hs.early hrunning]
          rw [hnone, Nat.zero_add]
          exact Bool.toNat_le _
      · cases h
  | finish i => cases hlocks
  | leave i => cases hlocks

/-- A worker without the mutex, and `run` without workers. -/
theorem Sound.pass {op : PoolOp τ} (hs : Sound maxQueueSize numThreads s ops)
    (h : ThreadPool.enter op s = some s') (hlocks : locks op s = false) :
    Sound maxQueueSize numThreads s' ops := by
  cases op with
  | run task =>
      simp only [ThreadPool.enter] at h
      split at h
      · cases h
        exact { hs with }
      · cases h
        exact hs
  | stop => cases hlocks
  | take i => cases hlocks
  | finish i =>
      simp only [ThreadPool.enter] at h
      split at h
      · rename_i task hbusy
        cases h
        refine { hs with
          size := hs.size_setWorker i .ready, done := ?_
          calls := calls_setWorker hbusy hs.calls (fun _ _ => rfl) rfl
          once := lates_setWorker hbusy rfl hs.once }
        have hnew : (s.setWorker i .ready).executing.Perm
            ((s.threads_.eraseIdx i).filterMap Worker.task) := executing_setWorker hbusy
        change s.begun.Perm ((s.finished ++ [task]) ++ (s.setWorker i .ready).executing)
        rw [List.append_assoc]
        exact hs.done.trans
          (((executing_perm hbusy).trans (hnew.symm.cons task)).append_left s.finished)
      · cases h
  | leave i =>
      simp only [ThreadPool.enter] at h
      split at h
      · rename_i hready
        split at h <;> cases h
        exact { hs with
          size := hs.size_setWorker i .returned
          done := hs.done_move hready rfl rfl
          calls := calls_setWorker hready hs.calls (fun _ _ => rfl) rfl
          once := lates_setWorker hready rfl hs.once }
      · cases h

/-- A call of `take` that goes through is that of a worker which stands there. -/
theorem Sound.worker_taking (hs : Sound maxQueueSize numThreads s (.take i ::ₘ ops)) :
    s.threads_[i]? = some .taking := by
  have hcall := hs.calls i
  rw [calls_cons] at hcall
  have htake : s.inTake i = true := by
    cases h : s.inTake i with
    | true => rfl
    | false => simp [h, isTake] at hcall
  unfold inTake at htake
  cases hw : s.threads_[i]? with
  | none => simp [hw] at htake
  | some w => cases w <;> simp [hw, Worker.isTaking] at htake ⊢

/-- The task taken is in execution. -/
theorem Sound.done_taken (hs : Sound maxQueueSize numThreads s ops)
    (htaking : s.threads_[i]? = some .taking) (task : τ) :
    (s.begun ++ [task]).Perm (s.finished ++ (s.setWorker i (.executing task)).executing) := by
  have hnew : (s.setWorker i (.executing task)).executing.Perm
      (task :: (s.threads_.eraseIdx i).filterMap Worker.task) := executing_setWorker htaking
  have hold : s.executing.Perm ((s.threads_.eraseIdx i).filterMap Worker.task) :=
    executing_perm htaking
  calc (s.begun ++ [task]).Perm ((s.finished ++ s.executing) ++ [task]) :=
        hs.done.append_right [task]
    _ |>.Perm (s.finished ++ (task :: s.executing)) := by
        rw [List.append_assoc]
        exact (List.perm_append_singleton task s.executing).append_left s.finished
    _ |>.Perm (s.finished ++ (s.setWorker i (.executing task)).executing) :=
        ((hold.cons task).trans hnew.symm).append_left s.finished

/-- A task taken late is the last one begun. -/
theorem Sound.late_taken (hs : Sound maxQueueSize numThreads s ops) (i : Nat) (task : τ) :
    (if s.running_ then s.late else s.late ++ [(i, task)]).map Prod.snd <:+ s.begun ++ [task] := by
  split
  · rename_i hrunning
    rw [hs.early hrunning]
    exact List.nil_suffix
  · obtain ⟨before, hbefore⟩ := hs.late
    refine ⟨before, ?_⟩
    rw [← hbefore, List.map_append, ← List.append_assoc]
    rfl

/-- The worker that takes it leaves `take`, and has taken none late before. -/
theorem Sound.once_taken (hs : Sound maxQueueSize numThreads s ops)
    (htaking : s.threads_[i]? = some .taking) (task : τ) (j : Nat) :
    ((if s.running_ then s.late else s.late ++ [(i, task)]).map Prod.fst).count j +
      ((s.setWorker i (.executing task)).inTake j).toNat ≤ 1 := by
  have hin : s.inTake i = true := by simp [inTake, htaking, Worker.isTaking]
  have hone := hs.once i
  have hbefore := hs.once j
  rw [hin] at hone
  unfold lates at hone hbefore
  rw [inTake_setWorker htaking]
  by_cases hij : i = j
  · subst hij
    split <;> simp_all [Worker.isTaking]
  · split <;> simp_all

theorem Sound.own_taken (hs : Sound maxQueueSize numThreads s ops)
    (htaking : s.threads_[i]? = some .taking) (task : τ) :
    ∀ p ∈ if s.running_ then s.late else s.late ++ [(i, task)], p.1 < numThreads := by
  intro p hp
  split at hp
  · exact hs.own p hp
  · rcases List.mem_append.mp hp with hold | hnew
    · exact hs.own p hold
    · obtain ⟨hlt, -⟩ := List.getElem?_eq_some_iff.mp htaking
      rw [List.mem_singleton.mp hnew]
      exact hs.size ▸ hlt

theorem Sound.act {op : PoolOp τ} (hs : Sound maxQueueSize numThreads s (op ::ₘ ops))
    (h : act op s = .ok s') : Sound maxQueueSize numThreads s' ops := by
  have hworkers : ∀ task, .run task ∈ ops → 0 < numThreads :=
    fun task hmem => hs.workers task (Multiset.mem_cons_of_mem hmem)
  have hkeep : (∀ j, isTake j op = false) →
      ∀ j, ThreadPool.calls j ops = (s.inTake j).toNat := by
    intro hno j
    have hcall := hs.calls j
    rwa [calls_cons, hno j] at hcall
  cases op with
  | run task =>
      simp only [ThreadPool.act] at h
      split at h <;> cases h
      rename_i hroom
      have hpos : 0 < numThreads := hs.workers task (Multiset.mem_cons_self _ _)
      refine { hs with
        order := by simp [hs.order], fits := ?_, workers := hworkers, calls := hkeep fun _ => rfl
        alone := fun hnone => absurd hnone hpos.ne' }
      intro hpos
      have hbound := hs.bound
      have hlt : s.queue_.length < s.maxQueueSize_ := by
        simpa [isFull, hbound, hpos] using hroom
      simp only [List.length_append, List.length_singleton]
      omega
  | stop =>
      cases h
      exact { hs with workers := hworkers, calls := hkeep fun _ => rfl, early := nofun }
  | take i =>
      have htaking := hs.worker_taking
      have hothers : ∀ j, i ≠ j → ThreadPool.calls j ops =
          ThreadPool.calls j (.take i ::ₘ ops) := by
        intro j hij
        have hji : j ≠ i := fun h => hij h.symm
        simp [isTake, hji]
      simp only [ThreadPool.act] at h
      split at h
      · cases h
        refine { hs with
          size := hs.size_setWorker i .ready, workers := hworkers
          done := hs.done_move htaking rfl rfl
          calls := calls_setWorker htaking hs.calls hothers ?_
          once := lates_setWorker htaking rfl hs.once }
        simp [isTake, Worker.isTaking]
      · rename_i task rest hq
        cases h
        refine
          { bound := hs.bound, size := hs.size_setWorker i (.executing task)
            order := by simp [hs.order, hq], done := hs.done_taken htaking task, fits := ?_
            workers := hworkers, calls := calls_setWorker htaking hs.calls hothers ?_, early := ?_
            late := hs.late_taken i task, once := hs.once_taken htaking task
            own := hs.own_taken htaking task, alone := hs.alone }
        · intro hpos
          have hlen := hs.fits hpos
          rw [hq, List.length_cons] at hlen
          exact (Nat.le_succ _).trans hlen
        · simp [isTake, Worker.isTaking]
        · intro hrunning
          have hrunning' : s.running_ = true := hrunning
          simp [hrunning', hs.early hrunning']
  | finish i =>
      cases h
      exact { hs with workers := hworkers, calls := hkeep fun _ => rfl }
  | leave i =>
      cases h
      exact { hs with workers := hworkers, calls := hkeep fun _ => rfl }

theorem keeps_sound : (monitor (τ := τ)).Keeps (· = start maxQueueSize numThreads)
    (Sound maxQueueSize numThreads) where
  init := by
    rintro _ rfl
    have hnone : ∀ i, (start maxQueueSize numThreads : ThreadPool τ).inTake i = false := by
      intro i
      by_cases hi : i < numThreads <;> simp [start, inTake, hi, Worker.isTaking]
    refine ⟨rfl, by simp [start], rfl, by simp [start, executing, Worker.task],
      fun _ => Nat.zero_le _, by simp, fun i => ?_, fun _ => rfl, List.nil_suffix, fun i => ?_,
      by simp [start], fun _ => rfl⟩
    · rw [hnone, calls_zero]
      rfl
    · rw [hnone]
      exact Nat.zero_le 1
  enter := fun _ _ _ _ hs h => hs.enter h
  pass := fun _ _ _ _ hs h => hs.pass h
  act := fun _ _ _ _ hs _ h => hs.act h

/-! ### Waking up -/

/-- How many calls of `take` can go through: one for each queued task, and all after `stop`. -/
def tasks (s : ThreadPool τ) : ℕ∞ := if s.running_ then s.queue_.length else ⊤

/-- How many calls of `run` can go through: one for each free place, and all where there is no
bound. -/
def room (s : ThreadPool τ) : ℕ∞ :=
  if s.maxQueueSize_ = 0 then ⊤ else (s.maxQueueSize_ - s.queue_.length : Nat)

@[simp] theorem waitsOn_take (c : QueueCondition) :
    (monitor (τ := τ)).waitsOn c (.take i) = decide (QueueCondition.notEmpty_ = c) := by
  simp [Monitor.waitsOn, cond]

@[simp] theorem waitsOn_run (c : QueueCondition) (task : τ) :
    monitor.waitsOn c (.run task) = decide (QueueCondition.notFull_ = c) := by
  simp [Monitor.waitsOn, cond]

/-- What a thread does without the mutex is no matter of the queue. -/
theorem enter_queue {op : PoolOp τ} (h : enter op s = some s') :
    s'.running_ = s.running_ ∧ s'.queue_ = s.queue_ ∧ s'.maxQueueSize_ = s.maxQueueSize_ := by
  cases op with
  | run task =>
      simp only [enter] at h
      split at h <;> cases h <;> exact ⟨rfl, rfl, rfl⟩
  | stop =>
      simp only [enter] at h
      split at h <;> cases h
      exact ⟨rfl, rfl, rfl⟩
  | take i =>
      simp only [enter] at h
      split at h
      · split at h <;> cases h
        exact ⟨rfl, rfl, rfl⟩
      · cases h
  | finish i =>
      simp only [enter] at h
      split at h <;> cases h
      exact ⟨rfl, rfl, rfl⟩
  | leave i =>
      simp only [enter] at h
      split at h
      · split at h <;> cases h
        exact ⟨rfl, rfl, rfl⟩
      · cases h

theorem counts_notEmpty : (monitor (τ := τ)).Counts (Sound maxQueueSize numThreads) .notEmpty_
    tasks where
  enter := by
    intro op s s' ops _ henter
    obtain ⟨hrunning, hqueue, -⟩ := enter_queue henter
    simp [tasks, hrunning, hqueue]
  blocked := by
    intro op s ops _ hop hblocked
    cases op with
    | take i =>
        obtain ⟨hempty, hrunning⟩ : s.queue_ = [] ∧ s.running_ = true := by
          simpa [blocked] using hblocked
        simp [tasks, hempty, hrunning]
    | run task => simp at hop
    | _ => simp [blocked] at hblocked
  act := by
    intro op s s' ops _ hfree hact
    change act op s = .ok s' at hact
    cases op with
    | run task =>
        simp only [act] at hact
        split at hact <;> cases hact
        by_cases hrunning : s.running_ = true
        · simp [tasks, hrunning, Monitor.uses, signal, Monitor.worth]
        · simp [tasks, hrunning]
    | stop =>
        simp [signal, Monitor.worth]
    | take i =>
        simp only [act] at hact
        split at hact
        · rename_i hempty
          have hstopped : s.running_ = false := by simpa [blocked, hempty] using hfree
          simp [tasks, hstopped]
        · rename_i task rest hq
          cases hact
          by_cases hrunning : s.running_ = true
          · simp [tasks, hrunning, hq, Monitor.uses]
          · simp [tasks, hrunning]
    | finish i =>
        cases hact
        simp [Monitor.uses, Monitor.waitsOn, cond]
    | leave i =>
        cases hact
        simp [Monitor.uses, Monitor.waitsOn, cond]

theorem counts_notFull : (monitor (τ := τ)).Counts (Sound maxQueueSize numThreads) .notFull_
    room where
  enter := by
    intro op s s' ops _ henter
    obtain ⟨-, hqueue, hmax⟩ := enter_queue henter
    simp only [room, hqueue, hmax, le_refl]
  blocked := by
    intro op s ops _ hop hblocked
    cases op with
    | run task =>
        obtain ⟨hpos, hfull⟩ : 0 < s.maxQueueSize_ ∧ s.maxQueueSize_ ≤ s.queue_.length := by
          simpa [blocked, isFull] using hblocked
        simp [room, hpos.ne', hfull]
    | take i => simp at hop
    | _ => simp [blocked] at hblocked
  act := by
    intro op s s' ops _ hfree hact
    change act op s = .ok s' at hact
    by_cases hbound : s.maxQueueSize_ = 0
    · have htop : room s = ⊤ := if_pos hbound
      simp [htop]
    · cases op with
      | run task =>
          simp only [act] at hact
          split at hact <;> cases hact
          rename_i hroom
          have hlt : s.queue_.length < s.maxQueueSize_ := by
            have hpos : 0 < s.maxQueueSize_ := Nat.pos_of_ne_zero hbound
            simpa [isFull, hpos] using hroom
          have hplace : s.maxQueueSize_ - (s.queue_.length + 1) + 1 ≤
              s.maxQueueSize_ - s.queue_.length := by omega
          simp only [room, hbound, if_false, List.length_append, List.length_singleton,
            Monitor.uses, waitsOn_run, decide_true, if_true]
          exact le_add_right (by exact_mod_cast hplace)
      | stop =>
          cases hact
          simp [room, Monitor.uses, Monitor.waitsOn, cond]
      | take i =>
          simp only [act] at hact
          split at hact
          · cases hact
            simp [room, Monitor.uses]
          · rename_i task rest hq
            cases hact
            have hplace : s.maxQueueSize_ - rest.length ≤
                s.maxQueueSize_ - (rest.length + 1) + 1 := by omega
            have hworth : Monitor.worth .notFull_ (signal (.take i) s) = 1 := by
              simp [signal, hq, Nat.pos_of_ne_zero hbound, Monitor.worth]
            simp only [monitor_signal, hworth]
            simp only [room, setWorker_maxQueueSize_, hbound, if_false, hq, List.length_cons,
              Monitor.uses, waitsOn_take, reduceCtorEq, decide_false, Bool.false_eq_true]
            exact_mod_cast hplace
      | finish i =>
          cases hact
          simp [Monitor.uses, Monitor.waitsOn, cond]
      | leave i =>
          cases hact
          simp [Monitor.uses, Monitor.waitsOn, cond]

/-- `assert(!isFull())` holds behind the loop. -/
theorem act_ne_error {op : PoolOp τ} {e : PoolAssertion} (hfree : blocked op s = false) :
    act op s ≠ .error e := by
  intro hact
  cases op with
  | run task =>
      have hroom : s.isFull = false := hfree
      simp [act, hroom] at hact
  | take i =>
      simp only [act] at hact
      split at hact <;> cases hact
  | _ => cases hact

/-! ### Stopping -/

/-- How many more steps the workers make after `stop`, at most. -/
def rank (s : ThreadPool τ) : Nat := (s.threads_.map Worker.rank).sum

theorem rank_setWorker (h : s.threads_[i]? = some w') :
    (s.setWorker i w).rank + w'.rank = s.rank + w.rank := by
  obtain ⟨hlt, -⟩ := List.getElem?_eq_some_iff.mp h
  have hold := ((Monitor.perm_of_getElem? h).map Worker.rank).sum_eq
  have hnew := ((List.set_perm_cons_eraseIdx hlt w).map Worker.rank).sum_eq
  simp only [List.map_cons, List.sum_cons] at hold hnew
  simp only [rank, setWorker]
  omega

/-- From one state of a stopped pool to a later one: it stays stopped, no worker has more to do,
and once all have returned no task is begun. -/
def Winds (s s' : ThreadPool τ) : Prop :=
  s.running_ = false → s'.running_ = false ∧ s'.rank ≤ s.rank ∧ (s.rank = 0 → s'.begun = s.begun)

theorem Winds.refl (s : ThreadPool τ) : Winds s s := fun h => ⟨h, le_rfl, fun _ => rfl⟩

theorem winds_setWorker (h : s.threads_[i]? = some w') (hle : w.rank ≤ w'.rank) :
    Winds s (s.setWorker i w) := by
  intro hstopped
  have hrank := rank_setWorker (w := w) h
  exact ⟨hstopped, by omega, fun _ => rfl⟩

theorem winds_enter {op : PoolOp τ} (h : enter op s = some s') : Winds s s' := by
  cases op with
  | run task =>
      simp only [enter] at h
      split at h <;> cases h <;> exact fun hstopped => ⟨hstopped, le_rfl, fun _ => rfl⟩
  | stop =>
      simp only [enter] at h
      split at h <;> cases h
      exact fun hstopped => ⟨hstopped, le_rfl, fun _ => rfl⟩
  | take i =>
      simp only [enter] at h
      split at h
      · split at h <;> cases h
        rename_i hrunning
        intro hstopped
        rw [hrunning] at hstopped
        cases hstopped
      · cases h
  | finish i =>
      simp only [enter] at h
      split at h <;> cases h
      rename_i task hbusy
      exact winds_setWorker hbusy (by simp [Worker.rank])
  | leave i =>
      simp only [enter] at h
      split at h
      · rename_i hready
        split at h <;> cases h
        exact winds_setWorker hready (by simp [Worker.rank])
      · cases h

theorem winds_act {op : PoolOp τ} (hs : Sound maxQueueSize numThreads s (op ::ₘ ops))
    (h : act op s = .ok s') : Winds s s' := by
  cases op with
  | run task =>
      simp only [act] at h
      split at h <;> cases h
      exact fun hstopped => ⟨hstopped, le_rfl, fun _ => rfl⟩
  | stop =>
      cases h
      exact fun _ => ⟨rfl, le_rfl, fun _ => rfl⟩
  | take i =>
      have htaking := hs.worker_taking
      simp only [act] at h
      split at h <;> cases h
      · exact winds_setWorker htaking (by simp [Worker.rank])
      · rename_i task rest hq
        intro hstopped
        have hrank := rank_setWorker (w := .executing task) htaking
        simp only [Worker.rank] at hrank
        refine ⟨hstopped, ?_, fun hzero => ?_⟩
        · change (s.setWorker i (.executing task)).rank ≤ s.rank
          omega
        · omega
  | finish i =>
      cases h
      exact Winds.refl s
  | leave i =>
      cases h
      exact Winds.refl s

/-- A worker of a stopped pool that has not returned can make its next step. -/
theorem exists_step {s : Monitor.State (ThreadPool τ) (PoolOp τ)}
    (hs : Sound maxQueueSize numThreads s.shared s.underWay)
    (hawake : ∀ i, .take i ∉ s.waiting) (hstopped : s.shared.running_ = false)
    (h : s.shared.threads_[i]? = some w) (hw : w ≠ .returned) :
    ∃ label s', monitor.step label s = some (.ok s') ∧ s'.shared.rank < s.shared.rank := by
  have hless : ∀ (w' : Worker τ) {t : ThreadPool τ}, w'.rank < w.rank →
      t.threads_ = (s.shared.setWorker i w').threads_ → t.rank < s.shared.rank := by
    intro w' t hlt heq
    have hrank := rank_setWorker (w := w') h
    have hsame : t.rank = (s.shared.setWorker i w').rank := by simp [rank, heq]
    omega
  cases w with
  | ready =>
      obtain ⟨label, s', hstep, hshared⟩ := Monitor.exists_call (M := monitor) (s := s) (.leave i)
        (s.shared.setWorker i .returned) (by simp [enter, h, hstopped]) rfl
      exact ⟨label, s', hstep, hshared ▸ hless .returned (by simp [Worker.rank]) rfl⟩
  | executing task =>
      obtain ⟨label, s', hstep, hshared⟩ := Monitor.exists_call (M := monitor) (s := s) (.finish i)
        { s.shared.setWorker i .ready with finished := s.shared.finished ++ [task] }
        (by simp [enter, h]) rfl
      exact ⟨label, s', hstep, hshared ▸ hless .ready (by simp [Worker.rank]) rfl⟩
  | taking =>
      -- its call is under way and, after `stop`, not asleep
      have hcall : 0 < calls i s.underWay := by
        simp [hs.calls i, inTake, h, Worker.isTaking]
      obtain ⟨op, hop, htake⟩ := Multiset.countP_pos.mp hcall
      have heq : op = .take i := by
        cases op <;> simp_all [isTake]
      subst heq
      have hcoming : .take i ∈ s.arriving ∨ .take i ∈ s.woken := by
        rcases Multiset.mem_add.mp hop with harrives | hpending
        · exact .inl (Multiset.mem_coe.mp harrives)
        · rcases List.mem_append.mp (Multiset.mem_coe.mp hpending) with hwait | hwoken
          · exact absurd hwait (hawake i)
          · exact .inr hwoken
      have hfree : blocked (.take i) s.shared = false := by simp [blocked, hstopped]
      cases hq : s.shared.queue_ with
      | nil =>
          obtain ⟨label, s', hstep, hshared⟩ := Monitor.exists_run (M := monitor)
            (s.shared.setWorker i .ready) hcoming hfree (by simp [act, hq])
          exact ⟨label, s', hstep, hshared ▸ hless .ready (by simp [Worker.rank]) rfl⟩
      | cons task rest =>
          obtain ⟨label, s', hstep, hshared⟩ := Monitor.exists_run (M := monitor) _ hcoming hfree
            (by simp only [monitor_act, act, hq]; rfl)
          exact ⟨label, s', hstep,
            hshared ▸ hless (.executing task) (by simp [Worker.rank]) rfl⟩
  | returned => exact absurd rfl hw

end ThreadPool

section Results

variable {τ : Type} {maxQueueSize numThreads : Nat}
  {s s' : Monitor.State (ThreadPool τ) (PoolOp τ)}

/-- **Tasks.** In every run: the tasks `run` queued are those the workers took, in this order,
followed by those in the queue; the tasks taken are those finished and those in execution, each
once; a bounded queue never holds more than `maxQueueSize`; without workers nothing is queued;
no assertion fails. -/
theorem threadPool_tasks (h : (ThreadPool.system τ maxQueueSize numThreads).Reachable s) :
    s.shared.accepted = s.shared.begun ++ s.shared.queue_ ∧
    s.shared.begun.Perm (s.shared.finished ++ s.shared.executing) ∧
    (0 < maxQueueSize → s.shared.queue_.length ≤ maxQueueSize) ∧
    (numThreads = 0 → s.shared.accepted = []) ∧
    ∀ label e, ¬ (ThreadPool.system τ maxQueueSize numThreads).Fails label s e := by
  have hsound := ThreadPool.keeps_sound.reachable h
  refine ⟨hsound.order, hsound.done, hsound.fits, hsound.alone, fun label e => ?_⟩
  exact ThreadPool.keeps_sound.never_fails
    (fun _ _ _ _ _ hfree => ThreadPool.act_ne_error hfree) h

/-- **No lost wakeup.** In every run, while a worker sleeps in `take` there are no more tasks in
the queue than workers on their way to them, and after `stop` none sleeps; while a thread sleeps
in `run` there are no more free places than threads on their way to fill them. -/
theorem threadPool_wakes (h : (ThreadPool.system τ maxQueueSize numThreads).Reachable s) :
    ThreadPool.monitor.Awake .notEmpty_ ThreadPool.tasks s ∧
    ThreadPool.monitor.Awake .notFull_ ThreadPool.room s ∧
    (s.shared.running_ = false → ∀ i, .take i ∉ s.waiting) := by
  have htasks := ThreadPool.counts_notEmpty.no_lost_wakeup ThreadPool.keeps_sound h
  refine ⟨htasks, ThreadPool.counts_notFull.no_lost_wakeup ThreadPool.keeps_sound h, ?_⟩
  intro hstopped i hwait
  have hall := htasks (List.countP_pos_iff.mpr ⟨_, hwait, by simp⟩)
  simp [ThreadPool.tasks, hstopped] at hall

/-- **`stop`.** In every run, once `running_` is cleared: the tasks begun since are the last ones
begun, no two of them by the same worker; no step gives the workers more to do; as long as one of
them has not returned, one of them can make a step that leaves less, so `join` does not wait
forever if the tasks end; and when all have returned, no task is begun any more, whatever is in
the queue. -/
theorem threadPool_stops (h : (ThreadPool.system τ maxQueueSize numThreads).Reachable s)
    (hstopped : s.shared.running_ = false) :
    (s.shared.late.map Prod.snd <:+ s.shared.begun ∧ (s.shared.late.map Prod.fst).Nodup ∧
      ∀ p ∈ s.shared.late, p.1 < numThreads) ∧
    (∀ label s', (ThreadPool.system τ maxQueueSize numThreads).Next label s s' →
      s'.shared.running_ = false ∧ s'.shared.rank ≤ s.shared.rank ∧
      ((∀ w ∈ s.shared.threads_, w = .returned) → s'.shared.begun = s.shared.begun)) ∧
    ((∃ w ∈ s.shared.threads_, w ≠ .returned) → ∃ label s',
      (ThreadPool.system τ maxQueueSize numThreads).Next label s s' ∧
      s'.shared.rank < s.shared.rank) := by
  have hsound := ThreadPool.keeps_sound.reachable h
  have honce : (s.shared.late.map Prod.fst).Nodup :=
    List.nodup_iff_count_le_one.mpr fun i => (Nat.le_add_right _ _).trans (hsound.once i)
  refine ⟨⟨hsound.late, honce, hsound.own⟩, ?_, ?_⟩
  · intro label s' hnext
    have hwinds := (Monitor.steps_of_step hnext).relates (R := ThreadPool.Winds)
      ThreadPool.Winds.refl
      (fun _ _ _ _ _ => ThreadPool.winds_enter)
      (fun _ _ _ _ hs _ hact => ThreadPool.winds_act hs hact) hsound
    obtain ⟨hstays, hrank, hsame⟩ := hwinds hstopped
    refine ⟨hstays, hrank, fun hall => hsame ?_⟩
    refine List.sum_eq_zero fun n hn => ?_
    obtain ⟨w, hw, rfl⟩ := List.mem_map.mp hn
    rw [hall w hw]
    rfl
  · rintro ⟨w, hw, hbusy⟩
    obtain ⟨i, hlt, hget⟩ := List.getElem_of_mem hw
    have hworker : s.shared.threads_[i]? = some w := by rw [List.getElem?_eq_getElem hlt, hget]
    exact ThreadPool.exists_step hsound ((threadPool_wakes h).2.2 hstopped) hstopped hworker hbusy

end Results

/-! ### A concrete run -/

/-- One worker and a queue of one: the worker sleeps, takes task 1, and while it executes it 2 is
queued and the thread with 3 sleeps; the worker finishes and tests `running_`, `stop` is called,
and the worker takes 2. It finishes and returns; the thread with 3, which was woken, queues it. -/
def poolRun : List (Monitor.Label (PoolOp Nat)) :=
  [.call (.take 0), .lock 0 0, .call (.run 1), .lock 0 0, .resume 0 0, .call (.run 2), .lock 0 0,
    .call (.run 3), .lock 0 0, .call (.finish 0), .call (.take 0), .call .stop, .lock 1 0,
    .lock 0 0, .call (.finish 0), .call (.leave 0), .resume 0 0]

theorem poolRun_reaches (n : Nat) (p : Monitor.State (ThreadPool Nat) (PoolOp Nat) → Bool)
    (h : ((ThreadPool.system Nat 1 1).replay (fun _ _ => true) (poolRun.take n)
      ⟨.start 1 1, [], [], []⟩).map p = some true) :
    ∃ s, (ThreadPool.system Nat 1 1).Reachable s ∧ p s = true :=
  System.exists_reachable_of_replay _ _ _ p ⟨rfl, rfl, rfl, rfl⟩ h

/-- While the worker executes task 1: 2 is queued and 3 not accepted yet. -/
theorem threadPool_tasks_busy :
    ∃ s, (ThreadPool.system Nat 1 1).Reachable s ∧ s.shared.accepted = [1, 2] ∧
      s.shared.executing = [1] ∧ s.shared.queue_.length ≤ 1 ∧
      s.shared.accepted = s.shared.begun ++ s.shared.queue_ := by
  obtain ⟨s, hs, hp⟩ := poolRun_reaches 9
    (fun s => s.shared.accepted == [1, 2] && s.shared.executing == [1]) (by decide)
  simp only [Bool.and_eq_true, beq_iff_eq] at hp
  have htasks := threadPool_tasks hs
  exact ⟨s, hs, hp.1, hp.2, htasks.2.2.1 (by decide), htasks.1⟩

/-- The worker was woken for the first task. -/
theorem threadPool_wakes_worker :
    ∃ s, (ThreadPool.system Nat 1 1).Reachable s ∧ s.shared.queue_ = [1] ∧ s.woken = [.take 0] ∧
      ThreadPool.monitor.Awake .notEmpty_ ThreadPool.tasks s := by
  obtain ⟨s, hs, hp⟩ := poolRun_reaches 4
    (fun s => s.shared.queue_ == [1] && s.woken == [.take 0]) (by decide)
  simp only [Bool.and_eq_true, beq_iff_eq] at hp
  exact ⟨s, hs, hp.1, hp.2, (threadPool_wakes hs).1⟩

/-- After `stop` the worker takes one more task and returns; task 3 is accepted and stays in the
queue. -/
theorem threadPool_stops_early :
    ∃ s, (ThreadPool.system Nat 1 1).Reachable s ∧ s.shared.threads_ = [.returned] ∧
      s.shared.late = [(0, 2)] ∧ s.shared.queue_ = [3] ∧
      (s.shared.late.map Prod.fst).Nodup ∧
      ∀ label s', (ThreadPool.system Nat 1 1).Next label s s' →
        s'.shared.begun = s.shared.begun := by
  obtain ⟨s, hs, hp⟩ := poolRun_reaches 17
    (fun s => s.shared.threads_ == [.returned] && s.shared.late == [(0, 2)] &&
      s.shared.queue_ == [3] && !s.shared.running_) (by decide)
  simp only [Bool.and_eq_true, beq_iff_eq, Bool.not_eq_true'] at hp
  obtain ⟨⟨⟨hthreads, hlate⟩, hqueue⟩, hstopped⟩ := hp
  have hstops := threadPool_stops hs hstopped
  refine ⟨s, hs, hthreads, hlate, hqueue, hstops.1.2.1, fun label s' hnext => ?_⟩
  exact (hstops.2.1 label s' hnext).2.2 (by simp [hthreads])

end Reactor
