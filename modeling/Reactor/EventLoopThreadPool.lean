import Reactor.TcpServerSteps

/-!
# The pool of loops (`EventLoopThreadPool.h`, `EventLoopThreadPool.cpp`)

* `EventLoopThreadPool` - the pool over any type of loops, its calls as in the source.
* `turn` - the loop whose turn it is after `i` others; `getLoopForHash` uses the same
  arithmetic on the hash code.
* **Any order of calls**: `eventLoopThreadPool_turns`. The answers of `getNextLoop` go round
  the loops, and a hash code gives one loop once the pool has been started.
* **A server**: `ServerWorld.getNextLoop` is the pool's function (`getNextLoop_pool`), so
  connection `c` of a server is on worker `c % n + 1` in every state reached, and the workers
  have got equally many up to one (`newConnections_balanced`).
-/

namespace Reactor

open Reactor.Lib

inductive PoolFault where
  | notInLoopThread
  /-- `assert(!started_)` of `start` -/
  | startedTwice
  /-- `assert(started_)` -/
  | notStarted
  /-- `loops_[next_]` beyond the end of the vector -/
  | outOfRange
deriving DecidableEq, Repr

/-- The pool. `next_` stays below the number of loops, which is an `int`. -/
structure EventLoopThreadPool (L : Type) where
  baseLoop : L
  started : Bool
  numThreads : Int
  next : Nat
  loops : List L
deriving DecidableEq, Repr

/-- The calls. `start` is given what `startLoop()` of its `i`-th thread returns. -/
inductive PoolCall (L : Type) where
  | setThreadNum (numThreads : Int)
  | start (startLoop : Nat → L)
  | getNextLoop
  | getLoopForHash (hashCode : Nat)
  | getAllLoops

inductive PoolAnswer (L : Type) where
  | done
  | loop (l : L)
  | loops (ls : List L)
deriving DecidableEq, Repr

abbrev PoolEvent (L : Type) := PoolCall L × PoolAnswer L

namespace EventLoopThreadPool

variable {L : Type}

def create (baseLoop : L) : EventLoopThreadPool L :=
  { baseLoop := baseLoop, started := false, numThreads := 0, next := 0, loops := [] }

def start (pool : EventLoopThreadPool L) (inLoop : Bool) (startLoop : Nat → L) :
    Except PoolFault (EventLoopThreadPool L) := do
  require (pool.started = false) .startedTwice
  require (inLoop = true) .notInLoopThread
  .ok { pool with
    started := true
    loops := pool.loops ++ (List.range pool.numThreads.toNat).map startLoop }

/-- `loops_[i]`. -/
def loopAt (pool : EventLoopThreadPool L) (i : Nat) : Except PoolFault L :=
  match pool.loops[i]? with
  | some l => .ok l
  | none => .error .outOfRange

def getNextLoop (pool : EventLoopThreadPool L) (inLoop : Bool) :
    Except PoolFault (L × EventLoopThreadPool L) := do
  require (inLoop = true) .notInLoopThread
  require (pool.started = true) .notStarted
  if pool.loops.isEmpty then .ok (pool.baseLoop, pool)
  else
    let loop ← pool.loopAt pool.next
    let next := pool.next + 1
    .ok (loop, { pool with next := if pool.loops.length ≤ next then 0 else next })

def getLoopForHash (pool : EventLoopThreadPool L) (inLoop : Bool) (hashCode : Nat) :
    Except PoolFault L := do
  require (inLoop = true) .notInLoopThread
  if pool.loops.isEmpty then .ok pool.baseLoop
  else pool.loopAt (hashCode % pool.loops.length)

def getAllLoops (pool : EventLoopThreadPool L) (inLoop : Bool) : Except PoolFault (List L) := do
  require (inLoop = true) .notInLoopThread
  require (pool.started = true) .notStarted
  .ok (if pool.loops.isEmpty then [pool.baseLoop] else pool.loops)

/-- One call, on the thread of the base loop or elsewhere. -/
def call (pool : EventLoopThreadPool L) (inLoop : Bool) :
    PoolCall L → Except PoolFault (PoolAnswer L × EventLoopThreadPool L)
  | .setThreadNum numThreads => .ok (.done, { pool with numThreads := numThreads })
  | .start startLoop => do
      let pool' ← pool.start inLoop startLoop
      .ok (.done, pool')
  | .getNextLoop => do
      let (l, pool') ← pool.getNextLoop inLoop
      .ok (.loop l, pool')
  | .getLoopForHash hashCode => do
      let l ← pool.getLoopForHash inLoop hashCode
      .ok (.loop l, pool)
  | .getAllLoops => do
      let ls ← pool.getAllLoops inLoop
      .ok (.loops ls, pool)

/-- Any calls one after another. -/
def run (pool : EventLoopThreadPool L) :
    List (Bool × PoolCall L) → Except PoolFault (List (PoolEvent L) × EventLoopThreadPool L)
  | [] => .ok ([], pool)
  | (inLoop, c) :: rest => do
      let (answer, pool') ← pool.call inLoop c
      let (events, last) ← pool'.run rest
      .ok ((c, answer) :: events, last)

/-- The loop whose turn it is after `i` others. -/
def turn (pool : EventLoopThreadPool L) (i : Nat) : L :=
  (pool.loops[i % pool.loops.length]?).getD pool.baseLoop

/-- The value of `next_` after `m` turns. -/
def nextAfter (pool : EventLoopThreadPool L) (m : Nat) : Nat :=
  if pool.loops.isEmpty then 0 else m % pool.loops.length

end EventLoopThreadPool

/-- What `getNextLoop` has answered. -/
def PoolEvent.nextLoop {L : Type} : PoolEvent L → Option L
  | (.getNextLoop, .loop l) => some l
  | _ => none

def nextLoops {L : Type} (events : List (PoolEvent L)) : List L :=
  events.filterMap PoolEvent.nextLoop

def PoolEvent.isStart {L : Type} : PoolEvent L → Bool
  | (.start _, _) => true
  | _ => false

/-- The pool has been started. -/
def hasStarted {L : Type} (events : List (PoolEvent L)) : Bool := events.any PoolEvent.isStart

/-! ### Any order of calls -/

section Calls

variable {L : Type} {pool pool' : EventLoopThreadPool L} {base : L} {events : List (PoolEvent L)}

namespace EventLoopThreadPool

/-- What `getAllLoops` answers of a started pool. -/
def all (pool : EventLoopThreadPool L) : List L :=
  if pool.loops.isEmpty then [pool.baseLoop] else pool.loops

theorem turn_of_empty (h : pool.loops = []) (i : Nat) : pool.turn i = pool.baseLoop := by
  simp [turn, h]

/-- The subscript of a turn is within the vector. -/
theorem loopAt_mod (h : pool.loops ≠ []) (i : Nat) :
    pool.loopAt (i % pool.loops.length) = .ok (pool.turn i) := by
  have hlt : i % pool.loops.length < pool.loops.length :=
    Nat.mod_lt i (List.length_pos_iff.mpr h)
  simp [loopAt, turn, List.getElem?_eq_getElem hlt]

end EventLoopThreadPool

/-- Counting up to `k` and starting again counts modulo `k`. -/
theorem wrap_mod {k : Nat} (hk : 0 < k) (m : Nat) :
    (if k ≤ m % k + 1 then 0 else m % k + 1) = (m + 1) % k := by
  have hlt := Nat.mod_lt m hk
  have hsum : (m + 1) % k = (m % k + 1) % k := by rw [Nat.mod_add_mod]
  rw [hsum]
  split
  · rename_i hle
    have hk' : m % k + 1 = k := by omega
    rw [hk', Nat.mod_self]
  · rename_i hlt'
    exact (Nat.mod_eq_of_lt (by omega)).symm

/-- What a call that returned has done, after `m` turns. -/
inductive PoolStep (pool : EventLoopThreadPool L) (m : Nat) :
    PoolCall L → PoolAnswer L → EventLoopThreadPool L → Prop where
  | setThreadNum (numThreads : Int) :
      PoolStep pool m (.setThreadNum numThreads) .done { pool with numThreads := numThreads }
  | start (startLoop : Nat → L) : pool.started = false →
      PoolStep pool m (.start startLoop) .done
        { pool with
          started := true
          loops := pool.loops ++ (List.range pool.numThreads.toNat).map startLoop }
  | getNextLoop : pool.started = true →
      PoolStep pool m .getNextLoop (.loop (pool.turn m))
        { pool with next := pool.nextAfter (m + 1) }
  | getLoopForHash (hashCode : Nat) :
      PoolStep pool m (.getLoopForHash hashCode) (.loop (pool.turn hashCode)) pool
  | getAllLoops : pool.started = true → PoolStep pool m .getAllLoops (.loops pool.all) pool

theorem getNextLoop_turn {m : Nat} (hnext : pool.next = pool.nextAfter m)
    (hstarted : pool.started = true) :
    pool.getNextLoop true = .ok (pool.turn m, { pool with next := pool.nextAfter (m + 1) }) := by
  by_cases hempty : pool.loops = []
  · have hkeep : pool = { pool with next := pool.nextAfter (m + 1) } := by
      cases pool
      simp_all [EventLoopThreadPool.nextAfter]
    rw [← hkeep]
    simp [EventLoopThreadPool.getNextLoop, hstarted, hempty, require_of,
      EventLoopThreadPool.turn_of_empty hempty]
  · have hpos : 0 < pool.loops.length := List.length_pos_iff.mpr hempty
    have hmod : pool.next = m % pool.loops.length := by
      simpa [EventLoopThreadPool.nextAfter, hempty] using hnext
    have hwrap := wrap_mod hpos m
    simp [EventLoopThreadPool.getNextLoop, hstarted, hempty, require_of, hmod,
      EventLoopThreadPool.loopAt_mod hempty, EventLoopThreadPool.nextAfter, hwrap]

theorem getLoopForHash_turn (hashCode : Nat) :
    pool.getLoopForHash true hashCode = .ok (pool.turn hashCode) := by
  by_cases hempty : pool.loops = []
  · simp [EventLoopThreadPool.getLoopForHash, hempty, require_of,
      EventLoopThreadPool.turn_of_empty hempty]
  · simp [EventLoopThreadPool.getLoopForHash, hempty, require_of,
      EventLoopThreadPool.loopAt_mod hempty]

theorem poolStep {m : Nat} {inLoop : Bool} {c : PoolCall L} {answer : PoolAnswer L}
    (hnext : pool.next = pool.nextAfter m) (h : pool.call inLoop c = .ok (answer, pool')) :
    PoolStep pool m c answer pool' := by
  cases c with
  | setThreadNum numThreads =>
      cases h
      exact .setThreadNum numThreads
  | start startLoop =>
      simp only [EventLoopThreadPool.call, EventLoopThreadPool.start, bind_eq_ok, require_eq_ok,
        Except.ok.injEq, Prod.mk.injEq] at h
      obtain ⟨_, ⟨-, hstarted, -, -, rfl⟩, rfl, rfl⟩ := h
      exact .start startLoop hstarted
  | getNextLoop =>
      obtain ⟨hin, hstarted⟩ : inLoop = true ∧ pool.started = true := by
        simp only [EventLoopThreadPool.call, EventLoopThreadPool.getNextLoop, bind_eq_ok,
          require_eq_ok] at h
        obtain ⟨_, ⟨-, hin, -, hstarted, -⟩, -⟩ := h
        exact ⟨hin, hstarted⟩
      subst hin
      simp only [EventLoopThreadPool.call, getNextLoop_turn hnext hstarted, ok_bind,
        Except.ok.injEq, Prod.mk.injEq] at h
      obtain ⟨rfl, rfl⟩ := h
      exact .getNextLoop hstarted
  | getLoopForHash hashCode =>
      have hin : inLoop = true := by
        simp only [EventLoopThreadPool.call, EventLoopThreadPool.getLoopForHash, bind_eq_ok,
          require_eq_ok] at h
        obtain ⟨_, ⟨-, hin, -⟩, -⟩ := h
        exact hin
      subst hin
      simp only [EventLoopThreadPool.call, getLoopForHash_turn, ok_bind, Except.ok.injEq,
        Prod.mk.injEq] at h
      obtain ⟨rfl, rfl⟩ := h
      exact .getLoopForHash hashCode
  | getAllLoops =>
      simp only [EventLoopThreadPool.call, EventLoopThreadPool.getAllLoops, bind_eq_ok,
        require_eq_ok, Except.ok.injEq, Prod.mk.injEq] at h
      obtain ⟨_, ⟨-, -, -, hstarted, rfl⟩, rfl, rfl⟩ := h
      exact .getAllLoops hstarted

/-- No call subscripts beyond the end. -/
theorem call_inRange {m : Nat} {inLoop : Bool} {c : PoolCall L}
    (hnext : pool.next = pool.nextAfter m) : pool.call inLoop c ≠ .error .outOfRange := by
  intro h
  cases c with
  | setThreadNum => cases h
  | start startLoop =>
      simp [EventLoopThreadPool.call, EventLoopThreadPool.start] at h
  | getNextLoop =>
      cases inLoop with
      | false => simp [EventLoopThreadPool.call, EventLoopThreadPool.getNextLoop] at h
      | true =>
          cases hstarted : pool.started with
          | false => simp [EventLoopThreadPool.call, EventLoopThreadPool.getNextLoop, hstarted] at h
          | true => simp [EventLoopThreadPool.call, getNextLoop_turn hnext hstarted] at h
  | getLoopForHash hashCode =>
      cases inLoop with
      | false => simp [EventLoopThreadPool.call, EventLoopThreadPool.getLoopForHash] at h
      | true => simp [EventLoopThreadPool.call, getLoopForHash_turn] at h
  | getAllLoops =>
      simp [EventLoopThreadPool.call, EventLoopThreadPool.getAllLoops] at h

/-- What the calls so far say about the pool. -/
structure PoolInv (base : L) (events : List (PoolEvent L)) (pool : EventLoopThreadPool L) :
    Prop where
  baseLoop : pool.baseLoop = base
  started : pool.started = hasStarted events
  idle : pool.started = false → pool.loops = [] ∧ nextLoops events = []
  next : pool.next = pool.nextAfter (nextLoops events).length
  turns : nextLoops events = (List.range (nextLoops events).length).map pool.turn
  hashes : ∀ pre hashCode l post, events = pre ++ (.getLoopForHash hashCode, .loop l) :: post →
    l = if hasStarted pre then pool.turn hashCode else base
  alls : ∀ ls, (.getAllLoops, .loops ls) ∈ events → ls = pool.all ∧ pool.started = true

theorem PoolInv.create (base : L) : PoolInv base [] (.create base) where
  baseLoop := rfl
  started := rfl
  idle _ := ⟨rfl, rfl⟩
  next := rfl
  turns := rfl
  hashes := by simp
  alls := by simp

/-- The last event of a list with one more. -/
theorem append_singleton_split {α : Type} {xs pre post : List α} {x y : α}
    (h : xs ++ [x] = pre ++ y :: post) :
    (post = [] ∧ xs = pre ∧ x = y) ∨ ∃ post', xs = pre ++ y :: post' := by
  rcases List.eq_nil_or_concat post with rfl | ⟨post', z, rfl⟩
  · left
    obtain ⟨h1, h2⟩ := List.append_inj' h rfl
    exact ⟨rfl, h1, by simpa using h2⟩
  · right
    refine ⟨post', ?_⟩
    rw [List.concat_eq_append, ← List.cons_append, ← List.append_assoc] at h
    exact (List.append_inj' h rfl).1

section Append

variable {c : PoolCall L} {answer : PoolAnswer L}

theorem nextLoops_append :
    nextLoops (events ++ [(c, answer)]) =
      nextLoops events ++ (PoolEvent.nextLoop (c, answer)).toList := by
  cases h : PoolEvent.nextLoop (c, answer) <;> simp [nextLoops, h]

theorem hasStarted_append :
    hasStarted (events ++ [(c, answer)]) = (hasStarted events || PoolEvent.isStart (c, answer)) := by
  simp [hasStarted]

/-- The answers for hash codes stay right where the turns of a started pool stay. -/
theorem PoolInv.hashes_append (h : PoolInv base events pool)
    (hturn : ∀ i, hasStarted events = true → pool'.turn i = pool.turn i)
    (hlast : ∀ hashCode l, (c, answer) = (.getLoopForHash hashCode, .loop l) →
      l = if hasStarted events then pool'.turn hashCode else base) :
    ∀ pre hashCode l post,
      events ++ [(c, answer)] = pre ++ (.getLoopForHash hashCode, .loop l) :: post →
      l = if hasStarted pre then pool'.turn hashCode else base := by
  intro pre hashCode l post hsplit
  rcases append_singleton_split hsplit with ⟨-, rfl, heq⟩ | ⟨post', hsplit'⟩
  · exact hlast hashCode l heq
  · have hold := h.hashes pre hashCode l post' hsplit'
    cases hpre : hasStarted pre with
    | false => simpa [hpre] using hold
    | true =>
        have hev : hasStarted events = true := by
          rw [hsplit', hasStarted, List.any_append]
          simpa [hasStarted] using Or.inl hpre
        rw [hpre, if_pos rfl] at hold
        rw [if_pos rfl, hturn hashCode hev, hold]

end Append

theorem turn_base (h : PoolInv base events pool) (hnot : pool.started = false) (i : Nat) :
    pool.turn i = base := by
  rw [EventLoopThreadPool.turn_of_empty (h.idle hnot).1, h.baseLoop]

/-- A call that is neither `start` nor `getNextLoop` and leaves the loops. -/
theorem PoolInv.keep {c : PoolCall L} {answer : PoolAnswer L} (h : PoolInv base events pool)
    (numThreads : Int) (hturn : PoolEvent.nextLoop (c, answer) = none)
    (hstart : PoolEvent.isStart (c, answer) = false)
    (hhash : ∀ hashCode l, (c, answer) = (.getLoopForHash hashCode, .loop l) →
      l = if hasStarted events then pool.turn hashCode else base)
    (hall : ∀ ls, (c, answer) = (.getAllLoops, .loops ls) → ls = pool.all ∧ pool.started = true) :
    PoolInv base (events ++ [(c, answer)]) { pool with numThreads := numThreads } := by
  have hsame : nextLoops (events ++ [(c, answer)]) = nextLoops events := by
    simp [nextLoops_append, hturn]
  refine ⟨h.baseLoop, ?_, ?_, ?_, ?_, ?_, ?_⟩
  · rw [hasStarted_append, hstart, Bool.or_false]
    exact h.started
  · rw [hsame]
    exact h.idle
  · rw [hsame]
    exact h.next
  · rw [hsame]
    exact h.turns
  · exact h.hashes_append (fun _ _ => rfl) hhash
  · intro ls hmem
    rcases List.mem_append.mp hmem with hmem | hmem
    · exact h.alls ls hmem
    · exact hall ls (List.mem_singleton.mp hmem).symm

/-- Every call keeps the account. -/
theorem PoolInv.step {c : PoolCall L} {answer : PoolAnswer L} (h : PoolInv base events pool)
    (hstep : PoolStep pool (nextLoops events).length c answer pool') :
    PoolInv base (events ++ [(c, answer)]) pool' := by
  cases hstep with
  | setThreadNum numThreads => exact h.keep numThreads rfl rfl (by simp) (by simp)
  | start startLoop hnot =>
      obtain ⟨hloops, hnone⟩ := h.idle hnot
      refine ⟨h.baseLoop, ?_, by simp, ?_, ?_, ?_, ?_⟩
      · rw [hasStarted_append]
        exact (Bool.or_true _).symm
      · have hnext := h.next
        simp only [hnone, EventLoopThreadPool.nextAfter, List.length_nil, Nat.zero_mod,
          ite_self] at hnext
        simp [nextLoops_append, PoolEvent.nextLoop, hnone, EventLoopThreadPool.nextAfter, hnext]
      · simp [nextLoops_append, PoolEvent.nextLoop, hnone]
      · refine h.hashes_append (fun i hev => ?_) (by simp)
        rw [← h.started, hnot] at hev
        cases hev
      · intro ls hmem
        obtain ⟨-, hst⟩ := h.alls ls (by simpa using hmem)
        rw [hnot] at hst
        cases hst
  | getNextLoop hstarted =>
      refine ⟨h.baseLoop, ?_, ?_, ?_, ?_, ?_, ?_⟩
      · rw [hasStarted_append, ← h.started]
        exact (Bool.or_false _).symm
      · intro hnot
        exact absurd hstarted (by simpa using hnot)
      · simp [nextLoops_append, PoolEvent.nextLoop, EventLoopThreadPool.nextAfter]
      · simp only [nextLoops_append, PoolEvent.nextLoop, Option.toList_some, List.length_append,
          List.length_singleton, List.range_succ, List.map_append, List.map_singleton]
        exact congrArg₂ (· ++ ·) h.turns rfl
      · exact h.hashes_append (fun _ _ => rfl) (by simp)
      · intro ls hmem
        exact h.alls ls (by simpa using hmem)
  | getLoopForHash hashCode =>
      refine h.keep pool.numThreads rfl rfl (fun hashCode' l heq => ?_) (by simp)
      simp only [Prod.mk.injEq, PoolCall.getLoopForHash.injEq, PoolAnswer.loop.injEq] at heq
      obtain ⟨rfl, rfl⟩ := heq
      cases hst : pool.started with
      | true => rw [← h.started, hst, if_pos rfl]
      | false =>
          rw [← h.started, hst, turn_base h hst]
          exact (if_neg Bool.false_ne_true).symm
  | getAllLoops hstarted =>
      refine h.keep pool.numThreads rfl rfl (by simp) fun ls heq => ?_
      simp only [Prod.mk.injEq, true_and, PoolAnswer.loops.injEq] at heq
      exact ⟨heq.symm, hstarted⟩

/-- Every run keeps the account, and none subscripts beyond the end. -/
theorem PoolInv.run (h : PoolInv base events pool) (calls : List (Bool × PoolCall L)) :
    pool.run calls ≠ .error .outOfRange ∧
      ∀ events' pool', pool.run calls = .ok (events', pool') →
        PoolInv base (events ++ events') pool' := by
  induction calls generalizing pool events with
  | nil =>
      refine ⟨by simp [EventLoopThreadPool.run], fun events' pool' hrun => ?_⟩
      simp only [EventLoopThreadPool.run, Except.ok.injEq, Prod.mk.injEq] at hrun
      obtain ⟨rfl, rfl⟩ := hrun
      rwa [List.append_nil]
  | cons call rest ih =>
      obtain ⟨inLoop, c⟩ := call
      constructor
      · intro hrun
        simp only [EventLoopThreadPool.run, bind_eq_error] at hrun
        rcases hrun with hcall | ⟨⟨answer, pool'⟩, hcall, hrest | ⟨_, -, hlast⟩⟩
        · exact call_inRange h.next hcall
        · exact (ih (h.step (poolStep h.next hcall))).1 hrest
        · cases hlast
      · intro events' last hrun
        simp only [EventLoopThreadPool.run, bind_eq_ok] at hrun
        obtain ⟨⟨answer, pool'⟩, hcall, ⟨tail, last'⟩, hrest, hlast⟩ := hrun
        simp only [Except.ok.injEq, Prod.mk.injEq] at hlast
        obtain ⟨rfl, rfl⟩ := hlast
        have hinv := (ih (h.step (poolStep h.next hcall))).2 _ _ hrest
        simpa using hinv

/-- **A pool, under calls in any order and on any threads.** No call subscripts `loops_`
beyond its end. In a run that no assertion has stopped, the answers of `getNextLoop` go round
the loops, each in its turn; `getLoopForHash` answers the base loop before `start`, from then
on the loop of the hash code's turn; every `getAllLoops` has given all the loops, of which
these are turns. `setThreadNum` after `start` changes none of that. -/
theorem eventLoopThreadPool_turns (base : L) (calls : List (Bool × PoolCall L)) :
    (EventLoopThreadPool.create base).run calls ≠ .error .outOfRange ∧
      ∀ events pool, (EventLoopThreadPool.create base).run calls = .ok (events, pool) →
        nextLoops events = (List.range (nextLoops events).length).map pool.turn ∧
        (∀ pre hashCode l post,
          events = pre ++ (.getLoopForHash hashCode, .loop l) :: post →
            l = if hasStarted pre then pool.turn hashCode else base) ∧
        (∀ ls, (.getAllLoops, .loops ls) ∈ events →
          ls = pool.all ∧ ls ≠ [] ∧ ∀ i, pool.turn i = (ls[i % ls.length]?).getD base) := by
  obtain ⟨hrange, hrun⟩ := (PoolInv.create base).run calls
  refine ⟨hrange, fun events pool h => ?_⟩
  have hinv := hrun events pool h
  rw [List.nil_append] at hinv
  refine ⟨hinv.turns, hinv.hashes, fun ls hmem => ?_⟩
  obtain ⟨rfl, -⟩ := hinv.alls ls hmem
  refine ⟨rfl, ?_⟩
  by_cases hempty : pool.loops = []
  · simp [EventLoopThreadPool.all, hempty, EventLoopThreadPool.turn, Nat.mod_one, hinv.baseLoop]
  · simp [EventLoopThreadPool.all, hempty, EventLoopThreadPool.turn, hinv.baseLoop]

/-- A hash code before `start`; then two threads, three turns, the hash code again. -/
def poolCalls : List (Bool × PoolCall Nat) :=
  [(true, .getLoopForHash 5), (true, .setThreadNum 2), (true, .start fun i => i + 1),
    (true, .getNextLoop), (true, .getNextLoop), (true, .getNextLoop),
    (true, .getLoopForHash 5), (true, .getAllLoops)]

/-- The loops are 1 and 2, and the third turn is that of the first again. -/
theorem eventLoopThreadPool_turns_two :
    ∃ events pool, (EventLoopThreadPool.create 0).run poolCalls = .ok (events, pool) ∧
      pool.all = [1, 2] ∧ nextLoops events = [1, 2, 1] ∧
      nextLoops events = (List.range 3).map pool.turn :=
  ⟨_, _, rfl, rfl, rfl, ((eventLoopThreadPool_turns 0 poolCalls).2 _ _ rfl).1⟩

end Calls

/-! ### The pool of a server -/

section Server

variable {n : Nat} {cfg : ServerConfig} {w w' : ServerWorld n} {s : ServerProcess n}

/-- The pool of a server that has been started with `n` threads. -/
def ServerWorld.pool (w : ServerWorld n) : EventLoopThreadPool (LoopId n) :=
  { baseLoop := 0, started := true, numThreads := n, next := w.next
    loops := List.ofFn Fin.succ }

theorem pool_nextAfter (m : Nat) : w.pool.nextAfter m = if n = 0 then 0 else m % n := by
  simp [EventLoopThreadPool.nextAfter, ServerWorld.pool]

/-- The `i`-th turn is that of worker `i % n`, the base loop's where there are no workers. -/
theorem pool_turn (i : Nat) : (w.pool.turn i : Nat) = if n = 0 then 0 else i % n + 1 := by
  by_cases hn : n = 0
  · subst hn
    rfl
  · have hlt : i % n < n := Nat.mod_lt i (Nat.pos_of_ne_zero hn)
    simp [EventLoopThreadPool.turn, ServerWorld.pool, hn, hlt]

/-- The server's `getNextLoop` is the pool's. -/
theorem getNextLoop_pool {m : Nat} (hnext : w.next = w.pool.nextAfter m) :
    w.pool.getNextLoop true =
      .ok (w.getNextLoop.1, { w.pool with next := w.getNextLoop.2 }) := by
  rw [getNextLoop_turn hnext rfl]
  have hturn := pool_turn (w := w) m
  rw [pool_nextAfter] at hnext
  simp only [Except.ok.injEq, Prod.mk.injEq]
  by_cases hn : n = 0
  · subst hn
    exact ⟨rfl, by simp [pool_nextAfter, ServerWorld.getNextLoop, hnext]⟩
  · have hpos : 0 < n := Nat.pos_of_ne_zero hn
    have hlt : m % n < n := Nat.mod_lt m hpos
    rw [if_neg hn] at hnext hturn
    refine ⟨Fin.ext ?_, ?_⟩
    · simp [ServerWorld.getNextLoop, hlt, hturn, hnext]
    · simp [pool_nextAfter, ServerWorld.getNextLoop, hlt, hn, hnext, wrap_mod hpos]

/-- Connections have been given to the loops in turn. -/
structure Balanced (w : ServerWorld n) : Prop where
  next : w.next = w.pool.nextAfter w.accepted
  loops : ∀ c < w.accepted, ((w.conns c).loop : Nat) = if n = 0 then 0 else c % n + 1

theorem Balanced.frame (h : Balanced w) (hnext : w'.next = w.next)
    (hacc : w'.accepted = w.accepted) (hloop : ∀ c, (w'.conns c).loop = (w.conns c).loop) :
    Balanced w' := by
  refine ⟨?_, fun c hc => ?_⟩
  · rw [hnext, hacc, pool_nextAfter, ← pool_nextAfter (w := w)]
    exact h.next
  · rw [hloop c]
    exact h.loops c (hacc ▸ hc)

theorem Balanced.newConnection (h : Balanced w) (l : LoopId n) (sockfd : Int) :
    Balanced (w.newConnection cfg l sockfd).world := by
  have hget := getNextLoop_pool h.next
  rw [getNextLoop_turn h.next rfl] at hget
  simp only [Except.ok.injEq, Prod.mk.injEq] at hget
  obtain ⟨hturn, hpool⟩ := hget
  have hnext := congrArg EventLoopThreadPool.next hpool
  refine ⟨hnext.symm.trans ?_, fun c hc => ?_⟩
  · simp [pool_nextAfter, ServerWorld.newConnection]
  · by_cases hcn : c = w.accepted
    · subst hcn
      simpa [ServerWorld.newConnection, ← hturn] using pool_turn (w := w) w.accepted
    · have hc' : c < w.accepted := by
        simp only [ServerWorld.newConnection] at hc
        omega
      simpa [ServerWorld.newConnection, Function.update_of_ne hcn] using h.loops c hc'

theorem ThreadSpec.next {t : ServerThread} {out : ServerWorld n × List (LoopId n × ServerFunctor)}
    (h : ThreadSpec w t out) : out.1.next = w.next := by
  cases h <;> rfl

theorem Progress.balanced {work work' : LoopId n → List ServerAct} {label : ServerLabel n}
    (hprog : Progress (serverApp n cfg) w work label w' work') (h : Balanced w) :
    Balanced w' := by
  cases hprog with
  | silent => exact h
  | poll => exact h
  | thread hthread =>
      have hspec := threadSpec hthread
      obtain ⟨-, hacc, -, -, hconns⟩ := hspec.frame
      exact h.frame hspec.next hacc fun c => (hconns c).2.1
  | call hwork hcall =>
      cases serverCall hcall with
      | newConnection sockfd => exact h.newConnection _ sockfd
      | @conn d k v out hl hconn =>
          refine h.frame ?_ (by simp [ServerWorld.setView]) fun c => ?_
          · cases k <;> rfl
          · by_cases hcd : c = d
            · subst hcd
              simp [ServerWorld.setView]
            · simp [ServerWorld.setView, Function.update_of_ne hcd]
      | @removeConnectionInLoop d hl _ =>
          refine h.frame rfl rfl fun c => ?_
          by_cases hcd : c = d
          · subst hcd
            simp [ServerWorld.observe]
          · simp [ServerWorld.observe, Function.update_of_ne hcd]
      | _ => exact h.frame rfl rfl fun _ => rfl

theorem reachable_balanced {ok : ServerProcess n → ServerLabel n → Prop}
    (h : (serverApp n cfg).system.ReachableBy ok s) : Balanced s.world := by
  refine progress_invariant (P := fun w _ => Balanced w) h ?_ ?_
  · intro s hinit
    obtain ⟨fd, hw⟩ := hinit.1.1
    rw [hw]
    refine ⟨?_, fun c hc => absurd hc (Nat.not_lt_zero c)⟩
    simp [pool_nextAfter, ServerWorld.create]
  · intro s label w' work' _ _ hbal hprog
    exact hprog.balanced hbal

/-- **The connections of a server, in every state reached** with any number of workers.
Connection `c` is on worker `c % n + 1`, on the base loop where there are no workers, and
stays there; each worker has got `accepted / n` connections or one more, the first ones the
extra one. The next `getNextLoop` subscripts within the vector of loops. -/
theorem newConnections_balanced (cfg : ServerConfig)
    (h : (serverApp n cfg).system.Reachable s) :
    (∀ c < s.world.accepted, ((s.world.conns c).loop : Nat) = if n = 0 then 0 else c % n + 1) ∧
    (∀ i : Fin n, Nat.count (fun c => (s.world.conns c).loop = i.succ) s.world.accepted =
      s.world.accepted / n + if i < s.world.accepted % n then 1 else 0) ∧
    s.world.pool.getNextLoop true =
      .ok (s.world.getNextLoop.1, { s.world.pool with next := s.world.getNextLoop.2 }) := by
  have hbal := reachable_balanced h
  refine ⟨hbal.loops, fun i => ?_, getNextLoop_pool hbal.next⟩
  have hpos : 0 < n := i.pos
  have hturn : ∀ c < s.world.accepted,
      ((s.world.conns c).loop = i.succ ↔ c ≡ i [MOD n]) := by
    intro c hc
    rw [Fin.ext_iff, hbal.loops c hc, if_neg hpos.ne', Fin.val_succ, Nat.succ_inj, Nat.ModEq,
      Nat.mod_eq_of_lt i.isLt]
  calc Nat.count (fun c => (s.world.conns c).loop = i.succ) s.world.accepted
      = Nat.count (· ≡ i [MOD n]) s.world.accepted :=
        le_antisymm (Nat.count_mono_left fun c hc => (hturn c hc).mp)
          (Nat.count_mono_left fun c hc => (hturn c hc).mpr)
    _ = s.world.accepted / n + if i < s.world.accepted % n then 1 else 0 := by
        rw [Nat.count_modEq_card _ hpos, Nat.mod_eq_of_lt i.isLt]

/-- One pass of the base loop, which accepts one connection. -/
def acceptRound (sockfd : Int) : List (ServerLabel 2) :=
  [.poll 0 [.handleActiveChannels [(none, POLLIN)]], .call 0 .quiet, .call 0 .quiet,
    .call 0 { ServerOracle.quiet with accept := some sockfd }, .call 0 .quiet, .call 0 .quiet,
    .handled 0, .swap 0, .passed 0, .test 0]

/-- Two workers, three connections: the first worker has two of them. -/
theorem newConnections_balanced_three :
    ∃ s, (serverApp 2 mainConfig).system.Reachable s ∧ s.world.accepted = 3 ∧
      Nat.count (fun c => (s.world.conns c).loop = 1) 3 = 2 ∧
      Nat.count (fun c => (s.world.conns c).loop = 2) 3 = 1 := by
  obtain ⟨s, hs, hp⟩ := System.exists_reachable_of_replay (serverApp 2 mainConfig).system
    ([.call 0 .quiet, .start 0, .test 0] ++ acceptRound 7 ++ acceptRound 8 ++ acceptRound 9)
    (serverStart 2) (fun s => s.world.accepted == 3) (serverStart_init 2) (by decide +kernel)
  have hacc : s.world.accepted = 3 := by simpa using hp
  have hcount := (newConnections_balanced mainConfig hs).2.1
  rw [hacc] at hcount
  exact ⟨s, hs, hacc, hcount 0, hcount 1⟩

end Server

end Reactor
