import Reactor.LogStream
import Reactor.Lib.Blocks
import Reactor.Lib.Transition

/-!
# The logging thread (`AsyncLogging.h`, `AsyncLogging.cc`)

Front ends append lines to a large buffer under a mutex; a full buffer is put aside. A thread of
its own takes all buffers every few seconds, or when one is full, leaves its two spare buffers in
exchange, and writes what it took to the log file. When it took more than 25 it keeps two.

* `logSystem` - the front ends, the thread and its owner, interleaved at the mutex; the timed wait
  may end at any time.
* `asyncLogging_stream` - what was logged is what was written, dropped, taken and not yet taken,
  line by line and in order.
* `asyncLogging_never_fails` - the spare buffers are always there when the thread needs them.
* `asyncLogging_stops` - the thread is never stuck, and after `stop` it ends.
-/

namespace Reactor

open Reactor.Lib

abbrev LogBuffer := FixedBuffer kLargeBuffer

/-- The assertions of `threadFunc`, in the source's order. -/
inductive LogAssertion where
  | threadFunc_running
  | newBuffer1_length
  | newBuffer2_length
  | buffersToWrite_empty
  | buffersToWrite_swapped
  | newBuffer1_left
  | newBuffer2_left
deriving DecidableEq, Repr

/-- How the process can end: a failed assertion, or a null buffer that is used or put into a
`ptr_vector`. -/
inductive LogFault where
  | assertion (a : LogAssertion)
  | nullBuffer
deriving DecidableEq, Repr

/-- Where the thread stands: not running, before `while (running_)`, before the mutex, in
`waitForSeconds`, after the swap, before writing buffer `i`, after the last one, returned. -/
inductive BackendStage where
  | notStarted
  | starting
  | test
  | locking
  | waiting
  | swapped
  | writing (i : Nat)
  | written
  | returned
deriving DecidableEq, Repr

/-- Where the owner stands: before `start`, in it, after it, in `stop`, after it. It calls each of
the two once at most, as `Thread::start` and `Thread::join` assert. -/
inductive LogOwner where
  | constructed
  | starting
  | started
  | stopping
  | stopped
deriving DecidableEq, Repr

/-- One call of `output.append`: a buffer, or the notice that `count` buffers were dropped. -/
inductive LogChunk where
  | buffer (b : LogBuffer)
  | notice (time : List Char) (count : Nat)
deriving DecidableEq, Repr

/-- The object and the locals of `threadFunc`, with the lines logged, the batches of buffers
taken and the calls of `output.append`, in order. -/
structure AsyncLogging where
  running_ : Bool
  currentBuffer_ : Option LogBuffer
  nextBuffer_ : Option LogBuffer
  buffers_ : List LogBuffer
  newBuffer1 : Option LogBuffer
  newBuffer2 : Option LogBuffer
  buffersToWrite : List LogBuffer
  stage : BackendStage
  owner : LogOwner
  logged : List Bytes
  taken : List (List LogBuffer)
  file : List LogChunk
deriving DecidableEq, Repr

/-- A front end logs a line; the owner starts and stops the thread; the thread enters
`threadFunc`, tests `running_`, takes the mutex, wakes up, looks at what it took at a time,
writes a buffer, refills its spare buffers. -/
inductive LogLabel where
  | append (logline : Bytes)
  | start
  | startReturns
  | stop
  | join
  | enter
  | test
  | lock
  | wake
  | drop (now : List Char)
  | write
  | refill
deriving DecidableEq, Repr

namespace LogChunk

/-- What is written for it. -/
def text : LogChunk → Bytes
  | .buffer b => b.data
  | .notice time count =>
      (ascii ("Dropped log messages at ".toList ++ time ++ ", ".toList ++ Nat.toDigits 10 count ++
        " larger buffers\n".toList)).take 255

@[simp]
def buffer? : LogChunk → Option LogBuffer
  | .buffer b => some b
  | .notice _ _ => none

@[simp]
def count? : LogChunk → Option Nat
  | .buffer _ => none
  | .notice _ count => some count

end LogChunk

namespace AsyncLogging

/-- `new Buffer`. -/
def newBuffer : LogBuffer := .empty (by decide)

def create : AsyncLogging :=
  { running_ := false, currentBuffer_ := some newBuffer, nextBuffer_ := some newBuffer
    buffers_ := [], newBuffer1 := none, newBuffer2 := none, buffersToWrite := []
    stage := .notStarted, owner := .constructed, logged := [], taken := [], file := [] }

/-- `append`; `len` is the length of the line. -/
def append (logline : Bytes) (s : AsyncLogging) : Except LogFault AsyncLogging :=
  match s.currentBuffer_ with
  | none => .error .nullBuffer
  | some current =>
      if logline.length < current.avail then
        .ok { s with
          currentBuffer_ := some (current.append logline)
          logged := s.logged ++ [logline] }
      else
        .ok { s with
          buffers_ := s.buffers_ ++ [current]
          currentBuffer_ := some ((s.nextBuffer_.getD newBuffer).append logline)
          nextBuffer_ := none
          logged := s.logged ++ [logline] }

/-- The current buffer is put aside, a spare one takes its place, and all are taken. -/
def takeAll (current : LogBuffer) (s : AsyncLogging) : AsyncLogging :=
  { s with
    currentBuffer_ := s.newBuffer1
    newBuffer1 := none
    buffers_ := s.buffersToWrite
    buffersToWrite := s.buffers_ ++ [current]
    taken := s.taken ++ [s.buffers_ ++ [current]]
    stage := .swapped }

/-- The part of the critical section behind the wait. -/
def swap (s : AsyncLogging) : Except LogFault AsyncLogging :=
  match s.currentBuffer_, s.nextBuffer_ with
  | none, _ => .error .nullBuffer
  | some current, some _ => .ok (s.takeAll current)
  | some current, none =>
      .ok { s.takeAll current with nextBuffer_ := s.newBuffer2, newBuffer2 := none }

/-- `assert(newBuffer && newBuffer->length() == 0)`. -/
def checkSpare (spare : Option LogBuffer) (a : LogAssertion) : Except LogFault Unit :=
  require (∃ b ∈ spare, b.length = 0) (.assertion a)

/-- `if (!newBuffer) newBuffer = buffersToWrite.pop_back(); newBuffer->reset()`. -/
def refillSpare (spare : Option LogBuffer) (rest : List LogBuffer) (a : LogAssertion) :
    Except LogFault (Option LogBuffer × List LogBuffer) :=
  match spare with
  | some b => .ok (some b, rest)
  | none =>
      match rest with
      | [] => .error (.assertion a)
      | _ :: _ => .ok (some newBuffer, rest.dropLast)

/-- The loop's end: the spare buffers come from the two buffers kept. -/
def refill (s : AsyncLogging) : Except LogFault AsyncLogging := do
  let (newBuffer1, rest) ← refillSpare s.newBuffer1 (s.buffersToWrite.take 2) .newBuffer1_left
  let (newBuffer2, _) ← refillSpare s.newBuffer2 rest .newBuffer2_left
  .ok { s with newBuffer1 := newBuffer1, newBuffer2 := newBuffer2, buffersToWrite := []
               stage := .test }

/-- The check for too many buffers. -/
def drop (now : List Char) (s : AsyncLogging) : Except LogFault AsyncLogging := do
  require (s.buffersToWrite ≠ []) (.assertion .buffersToWrite_swapped)
  if 25 < s.buffersToWrite.length then
    .ok { s with
      file := s.file ++ [.notice now (s.buffersToWrite.length - 2)]
      buffersToWrite := s.buffersToWrite.take 2
      stage := .writing 0 }
  else .ok { s with stage := .writing 0 }

/-- The loop over `buffersToWrite`. -/
def write (i : Nat) (s : AsyncLogging) : AsyncLogging :=
  match s.buffersToWrite[i]? with
  | some b => { s with file := s.file ++ [.buffer b], stage := .writing (i + 1) }
  | none => { s with stage := .written }

/-- `while (running_)` and the assertions at the head of its body. -/
def test (s : AsyncLogging) : Except LogFault AsyncLogging :=
  if s.running_ then do
    checkSpare s.newBuffer1 .newBuffer1_length
    checkSpare s.newBuffer2 .newBuffer2_length
    require (s.buffersToWrite = []) (.assertion .buffersToWrite_empty)
    .ok { s with stage := .locking }
  else .ok { s with stage := .returned }

def step (label : LogLabel) (s : AsyncLogging) : Option (Except LogFault AsyncLogging) :=
  match label, s.stage, s.owner with
  | .append logline, _, _ => some (s.append logline)
  | .start, _, .constructed =>
      some (.ok { s with running_ := true, stage := .starting, owner := .starting })
  -- the latch opens when `threadFunc` has been entered
  | .startReturns, stage, .starting =>
      if stage = .starting then none else some (.ok { s with owner := .started })
  | .stop, _, .started => some (.ok { s with running_ := false, owner := .stopping })
  | .join, .returned, .stopping => some (.ok { s with owner := .stopped })
  | .enter, .starting, _ => some do
      require (s.running_ = true) (.assertion .threadFunc_running)
      .ok { s with newBuffer1 := some newBuffer, newBuffer2 := some newBuffer, stage := .test }
  | .test, .test, _ => some s.test
  | .lock, .locking, _ =>
      some (if s.buffers_ = [] then .ok { s with stage := .waiting } else s.swap)
  | .wake, .waiting, _ => some s.swap
  | .drop now, .swapped, _ => some (s.drop now)
  | .write, .writing i, _ => some (.ok (s.write i))
  | .refill, .written, _ => some s.refill
  | _, _, _ => none

end AsyncLogging

/-- The runs of an `AsyncLogging`. -/
def logSystem : System AsyncLogging LogLabel LogFault where
  init s := s = .create
  step := AsyncLogging.step

namespace AsyncLogging

variable {s s' : AsyncLogging} {label : LogLabel}

/-! ### The buffers -/

/-- What the thread has at each stage: both spare buffers while it does not write; while it
writes, enough buffers to make the spare ones it gave away. -/
def Spares (s : AsyncLogging) : Prop :=
  match s.stage with
  | .notStarted => s.owner = .constructed ∧ s.buffersToWrite = []
  | .starting => s.owner = .starting ∧ s.running_ = true ∧ s.buffersToWrite = []
  | .test | .locking | .waiting =>
      s.newBuffer1.isSome = true ∧ s.newBuffer2.isSome = true ∧ s.buffersToWrite = []
  | .swapped | .writing _ | .written =>
      s.newBuffer1 = none ∧ s.buffersToWrite ≠ [] ∧
        (s.newBuffer2 = none → 2 ≤ s.buffersToWrite.length)
  | .returned => s.owner ≠ .constructed ∧ s.buffersToWrite = []

/-- There is always a buffer to write to; every other one that is not full is empty; the next
one is missing only after a full one was put aside. -/
structure Buffers (s : AsyncLogging) : Prop where
  current : s.currentBuffer_.isSome = true
  next : ∀ b ∈ s.nextBuffer_, b.data = []
  spare1 : ∀ b ∈ s.newBuffer1, b.data = []
  spare2 : ∀ b ∈ s.newBuffer2, b.data = []
  full : s.nextBuffer_ = none → s.buffers_ ≠ []
  spares : Spares s
  owned : s.owner = .constructed → s.stage = .notStarted

theorem Buffers.not_constructed (hb : Buffers s) (h : s.stage ≠ .notStarted) :
    s.owner ≠ .constructed :=
  fun howner => h (hb.owned howner)

/-! ### The lines -/

/-- The lines that go into a buffer. -/
def fitting (lines : List Bytes) : List Bytes := lines.filter fun line => line.length < kLargeBuffer

/-- What is written of a batch. -/
def kept (batch : List LogBuffer) : List LogBuffer :=
  if 25 < batch.length then batch.take 2 else batch

/-- The notices written for a batch. -/
def notices (batch : List LogBuffer) : List Nat :=
  if 25 < batch.length then [batch.length - 2] else []

/-- The buffers taken that are still to be written. -/
def inFlight (s : AsyncLogging) : List LogBuffer :=
  match s.stage with
  | .swapped => kept s.buffersToWrite
  | .writing i => s.buffersToWrite.drop i
  | _ => []

/-- The notice still to be written. -/
def toNotice (s : AsyncLogging) : List Nat :=
  match s.stage with
  | .swapped => notices s.buffersToWrite
  | _ => []

/-- All buffers there ever were, in the order in which they were filled. -/
def filled (s : AsyncLogging) : List LogBuffer :=
  s.taken.flatten ++ s.buffers_ ++ s.currentBuffer_.toList

/-- Each buffer holds whole lines, and together they hold all lines in order; of what was taken,
the kept part is written or on its way, with a notice for the rest. -/
structure Stream (s : AsyncLogging) : Prop where
  lines : InBlocks (fitting s.logged) (s.filled.map FixedBuffer.data)
  written : s.file.filterMap LogChunk.buffer? ++ s.inFlight = s.taken.flatMap kept
  noticed : s.file.filterMap LogChunk.count? ++ s.toNotice = s.taken.flatMap notices

theorem fitting_append (lines : List Bytes) (line : Bytes) :
    fitting (lines ++ [line]) =
      fitting lines ++ if line.length < kLargeBuffer then [line] else [] := by
  rw [fitting, List.filter_append]
  split <;> simp_all [fitting]

/-- `append` puts a line into the last buffer or opens one for it. -/
theorem append_ok (hb : Buffers s) (hs : Stream s) (logline : Bytes) :
    ∃ s', s.append logline = .ok s' ∧ Buffers s' ∧ Stream s' := by
  obtain ⟨current, hcur⟩ := Option.isSome_iff_exists.mp hb.current
  have hlines := hs.lines
  simp only [filled, hcur, Option.toList_some, List.map_append, List.map_cons, List.map_nil]
    at hlines
  simp only [append, hcur]
  split
  · rename_i hroom
    refine ⟨_, rfl, { hb with current := rfl }, ?_, hs.written, hs.noticed⟩
    have hshort : logline.length < kLargeBuffer := hroom.trans_le (Nat.sub_le _ _)
    simp only [filled, Option.toList_some, List.map_append, List.map_cons, List.map_nil,
      fitting_append, hshort, if_true, FixedBuffer.data_append, hroom]
    exact hlines.add_line logline
  · have hfresh : (s.nextBuffer_.getD newBuffer).data = [] := by
      cases hnext : s.nextBuffer_ with
      | none => rfl
      | some b => exact hb.next b hnext
    refine ⟨_, rfl, { hb with current := rfl, next := by simp, full := by simp }, ?_, hs.written,
      hs.noticed⟩
    have hopened := hlines.open_block
    simp only [filled, Option.toList_some, List.map_append, List.map_cons, List.map_nil,
      fitting_append, FixedBuffer.data_append, FixedBuffer.avail, hfresh, List.length_nil,
      Nat.sub_zero, List.nil_append, ← List.append_assoc] at hopened ⊢
    split
    · simpa using hopened.add_line logline
    · simpa using hopened

/-- Behind the wait everything is taken. -/
theorem swap_ok (hb : Buffers s) (hs : Stream s) (hstage : s.stage = .locking ∨ s.stage = .waiting) :
    ∃ s', s.swap = .ok s' ∧ Buffers s' ∧ Stream s' := by
  obtain ⟨current, hcur⟩ := Option.isSome_iff_exists.mp hb.current
  have hspares : s.newBuffer1.isSome = true ∧ s.newBuffer2.isSome = true ∧
      s.buffersToWrite = [] := by
    have hsp := hb.spares
    rcases hstage with hst | hst <;> simpa [Spares, hst] using hsp
  obtain ⟨spare1, hone⟩ := Option.isSome_iff_exists.mp hspares.1
  obtain ⟨spare2, htwo⟩ := Option.isSome_iff_exists.mp hspares.2.1
  have hempty : spare1.data = [] := hb.spare1 spare1 hone
  have hlines : InBlocks (fitting s.logged)
      (((s.taken ++ [s.buffers_ ++ [current]]).flatten ++ [spare1]).map FixedBuffer.data) := by
    have hold := hs.lines
    simp only [filled, hcur, Option.toList_some] at hold
    simpa [hempty] using hold.open_block
  have hwritten : s.file.filterMap LogChunk.buffer? = s.taken.flatMap kept := by
    have hold := hs.written
    rcases hstage with hst | hst <;> simpa [inFlight, hst] using hold
  have hnoticed : s.file.filterMap LogChunk.count? = s.taken.flatMap notices := by
    have hold := hs.noticed
    rcases hstage with hst | hst <;> simpa [toNotice, hst] using hold
  have howned := hb.not_constructed (by rcases hstage with h | h <;> simp [h])
  cases hnext : s.nextBuffer_ with
  | some next =>
    simp only [swap, hcur, hnext, takeAll]
    refine ⟨_, rfl, ⟨by simp [hone], by simpa [hnext] using hb.next, by simp, hb.spare2,
      by simp, ?_, fun h => absurd h howned⟩, ?_, ?_, ?_⟩
    · exact ⟨rfl, by simp, by simp [htwo]⟩
    · simpa [filled, hone, hspares.2.2] using hlines
    · simp [inFlight, hwritten]
    · simp [toNotice, hnoticed]
  | none =>
    simp only [swap, hcur, hnext, takeAll]
    have hfull := hb.full hnext
    refine ⟨_, rfl, ⟨by simp [hone], hb.spare2, by simp, by simp, by simp [htwo], ?_,
      fun h => absurd h howned⟩, ?_, ?_, ?_⟩
    · refine ⟨rfl, by simp, fun _ => ?_⟩
      have hpos := List.length_pos_iff.mpr hfull
      simp only [List.length_append, List.length_singleton]
      omega
    · simpa [filled, hone, hspares.2.2] using hlines
    · simp [inFlight, hwritten]
    · simp [toNotice, hnoticed]

/-- Too many buffers are dropped. -/
theorem drop_ok (hb : Buffers s) (hs : Stream s) (hstage : s.stage = .swapped) (now : List Char) :
    ∃ s', s.drop now = .ok s' ∧ Buffers s' ∧ Stream s' := by
  obtain ⟨hone, hsome, htwo⟩ : s.newBuffer1 = none ∧ s.buffersToWrite ≠ [] ∧
      (s.newBuffer2 = none → 2 ≤ s.buffersToWrite.length) := by
    simpa [Spares, hstage] using hb.spares
  have howned := hb.not_constructed (by simp [hstage])
  have hwritten := hs.written
  have hnoticed := hs.noticed
  simp only [inFlight, hstage] at hwritten
  simp only [toNotice, hstage] at hnoticed
  simp only [drop, require_of hsome, ok_bind]
  split
  · rename_i hmany
    simp only [kept, hmany, if_true] at hwritten
    simp only [notices, hmany, if_true] at hnoticed
    have hlen : (s.buffersToWrite.take 2).length = 2 := by
      simp only [List.length_take]
      omega
    have htwoLeft : s.buffersToWrite.take 2 ≠ [] := List.ne_nil_of_length_pos (by omega)
    refine ⟨_, rfl, { hb with
      spares := ⟨hone, htwoLeft, fun _ => hlen.ge⟩, owned := fun h => absurd h howned },
      hs.lines, ?_, ?_⟩
    · simpa [inFlight, List.filterMap_append, List.filterMap_cons] using hwritten
    · simpa [toNotice, List.filterMap_append, List.filterMap_cons] using hnoticed
  · rename_i hfew
    simp only [kept, hfew, if_false] at hwritten
    simp only [notices, hfew, if_false] at hnoticed
    refine ⟨_, rfl, { hb with spares := ⟨hone, hsome, htwo⟩, owned := fun h => absurd h howned },
      hs.lines, ?_, ?_⟩
    · simpa [inFlight] using hwritten
    · simpa [toNotice] using hnoticed

/-- One buffer is written, or the last one was. -/
theorem write_ok {i : Nat} (hb : Buffers s) (hs : Stream s) (hstage : s.stage = .writing i) :
    Buffers (s.write i) ∧ Stream (s.write i) := by
  have hspares : s.newBuffer1 = none ∧ s.buffersToWrite ≠ [] ∧
      (s.newBuffer2 = none → 2 ≤ s.buffersToWrite.length) := by
    simpa [Spares, hstage] using hb.spares
  have howned := hb.not_constructed (by simp [hstage])
  have hwritten := hs.written
  have hnoticed := hs.noticed
  simp only [inFlight, hstage] at hwritten
  simp only [toNotice, hstage] at hnoticed
  unfold write
  split
  · rename_i b hget
    refine ⟨{ hb with spares := hspares, owned := fun h => absurd h howned }, hs.lines, ?_, ?_⟩
    · obtain ⟨hlt, rfl⟩ := List.getElem?_eq_some_iff.mp hget
      rw [List.drop_eq_getElem_cons hlt] at hwritten
      simpa [inFlight, List.filterMap_append, List.filterMap_cons] using hwritten
    · simpa [toNotice, List.filterMap_append, List.filterMap_cons] using hnoticed
  · rename_i hget
    refine ⟨{ hb with spares := hspares, owned := fun h => absurd h howned }, hs.lines, ?_, ?_⟩
    · rw [List.drop_eq_nil_of_le (List.getElem?_eq_none_iff.mp hget)] at hwritten
      simpa [inFlight] using hwritten
    · simpa [toNotice] using hnoticed

/-- The spare buffers are there again. -/
theorem refill_ok (hb : Buffers s) (hs : Stream s) (hstage : s.stage = .written) :
    ∃ s', s.refill = .ok s' ∧ Buffers s' ∧ Stream s' := by
  obtain ⟨hone, hsome, htwo⟩ : s.newBuffer1 = none ∧ s.buffersToWrite ≠ [] ∧
      (s.newBuffer2 = none → 2 ≤ s.buffersToWrite.length) := by
    simpa [Spares, hstage] using hb.spares
  have howned := hb.not_constructed (by simp [hstage])
  have hwritten := hs.written
  have hnoticed := hs.noticed
  simp only [inFlight, hstage] at hwritten
  simp only [toNotice, hstage] at hnoticed
  obtain ⟨b, rest, htake⟩ : ∃ b rest, s.buffersToWrite.take 2 = b :: rest := by
    cases hbatch : s.buffersToWrite with
    | nil => exact absurd hbatch hsome
    | cons b rest => exact ⟨b, rest.take 1, rfl⟩
  have hfirst : refillSpare s.newBuffer1 (s.buffersToWrite.take 2) .newBuffer1_left =
      .ok (some newBuffer, (s.buffersToWrite.take 2).dropLast) := by
    simp [refillSpare, hone, htake]
  obtain ⟨spare2, left, hsecond, hspare2⟩ : ∃ spare2 left,
      refillSpare s.newBuffer2 (s.buffersToWrite.take 2).dropLast .newBuffer2_left =
        .ok (some spare2, left) ∧ spare2.data = [] := by
    cases hspare : s.newBuffer2 with
    | some spare => exact ⟨spare, _, rfl, hb.spare2 spare hspare⟩
    | none =>
        obtain ⟨b₁, b₂, hbatch⟩ : ∃ b₁ b₂, s.buffersToWrite.take 2 = [b₁, b₂] := by
          refine List.length_eq_two.mp ?_
          have hlen := htwo hspare
          simp only [List.length_take]
          omega
        exact ⟨newBuffer, [], by simp [refillSpare, hbatch], rfl⟩
  have hrefill : s.refill = .ok { s with
      newBuffer1 := some newBuffer, newBuffer2 := some spare2, buffersToWrite := []
      stage := .test } := by
    simp only [refill, hfirst, hsecond, ok_bind]
  refine ⟨_, hrefill, { hb with
    spare1 := by simp [newBuffer, FixedBuffer.empty], spare2 := by simpa using hspare2
    spares := ⟨rfl, rfl, rfl⟩, owned := fun h => absurd h howned }, hs.lines, ?_, ?_⟩
  · simpa [inFlight] using hwritten
  · simpa [toNotice] using hnoticed

theorem checkSpare_of {spare : Option LogBuffer} {a : LogAssertion} (h : spare.isSome = true)
    (hempty : ∀ b ∈ spare, b.data = []) : checkSpare spare a = .ok () := by
  obtain ⟨b, rfl⟩ := Option.isSome_iff_exists.mp h
  exact require_of ⟨b, rfl, by simp [FixedBuffer.length, hempty b rfl]⟩

/-- The assertions at the head of the loop hold. -/
theorem test_ok (hb : Buffers s) (hs : Stream s) (hstage : s.stage = .test) :
    ∃ s', s.test = .ok s' ∧ Buffers s' ∧ Stream s' := by
  obtain ⟨hone, htwo, hempty⟩ : s.newBuffer1.isSome = true ∧ s.newBuffer2.isSome = true ∧
      s.buffersToWrite = [] := by
    simpa [Spares, hstage] using hb.spares
  have howned := hb.not_constructed (by simp [hstage])
  have hwritten := hs.written
  have hnoticed := hs.noticed
  simp only [inFlight, hstage] at hwritten
  simp only [toNotice, hstage] at hnoticed
  simp only [test]
  split
  · rw [checkSpare_of hone hb.spare1, checkSpare_of htwo hb.spare2, require_of hempty]
    refine ⟨_, rfl, { hb with
      spares := ⟨hone, htwo, hempty⟩, owned := fun h => absurd h howned }, hs.lines, ?_, ?_⟩
    · simpa [inFlight] using hwritten
    · simpa [toNotice] using hnoticed
  · refine ⟨_, rfl, { hb with spares := ⟨howned, hempty⟩, owned := fun h => absurd h howned },
      hs.lines, ?_, ?_⟩
    · simpa [inFlight] using hwritten
    · simpa [toNotice] using hnoticed

/-- What the owner does leaves the buffers alone. -/
theorem owner_ok (hb : Buffers s) (hs : Stream s) {running : Bool} {stage : BackendStage}
    {owner : LogOwner} (howner : owner ≠ .constructed)
    (hspares : Spares { s with running_ := running, stage := stage, owner := owner })
    (hflight : inFlight { s with stage := stage } = s.inFlight)
    (hnotice : toNotice { s with stage := stage } = s.toNotice) :
    Buffers { s with running_ := running, stage := stage, owner := owner } ∧
      Stream { s with running_ := running, stage := stage, owner := owner } := by
  refine ⟨{ hb with spares := hspares, owned := fun h => absurd h howner }, hs.lines, ?_, ?_⟩
  · exact (congrArg _ hflight).trans hs.written
  · exact (congrArg _ hnotice).trans hs.noticed

/-- Every step goes through and keeps the invariant. -/
theorem step_ok (hb : Buffers s) (hs : Stream s) {r : Except LogFault AsyncLogging}
    (h : step label s = some r) : ∃ s', r = .ok s' ∧ Buffers s' ∧ Stream s' := by
  unfold step at h
  split at h
  case h_1 logline =>
    obtain ⟨s', hok, hinv⟩ := append_ok hb hs logline
    cases h
    exact ⟨s', hok, hinv⟩
  case h_2 howner =>
    cases h
    have hstage := hb.owned howner
    have hsp : s.owner = .constructed ∧ s.buffersToWrite = [] := by
      simpa [Spares, hstage] using hb.spares
    exact ⟨_, rfl, owner_ok hb hs (by simp) ⟨rfl, rfl, hsp.2⟩ (by simp [inFlight, hstage])
      (by simp [toNotice, hstage])⟩
  case h_3 howner =>
    split at h
    · cases h
    · rename_i hentered
      cases h
      refine ⟨_, rfl, owner_ok hb hs (by simp) ?_ rfl rfl⟩
      have hsp := hb.spares
      have hnot : s.stage ≠ .notStarted := fun hstage => by
        simp [Spares, hstage, howner] at hsp
      unfold Spares at hsp ⊢
      split at hsp <;> simp_all
  case h_4 howner =>
    cases h
    refine ⟨_, rfl, owner_ok hb hs (by simp) ?_ rfl rfl⟩
    have hsp := hb.spares
    unfold Spares at hsp ⊢
    split at hsp <;> simp_all
  case h_5 hstage howner =>
    cases h
    have hsp := hb.spares
    simp only [Spares, hstage] at hsp
    refine ⟨_, rfl, owner_ok hb hs (by simp) ?_ rfl rfl⟩
    simp [Spares, hstage, hsp.2]
  case h_6 hstage =>
    have hsp : s.owner = .starting ∧ s.running_ = true ∧ s.buffersToWrite = [] := by
      simpa [Spares, hstage] using hb.spares
    have howned := hb.not_constructed (by simp [hstage])
    cases h
    have hwritten := hs.written
    have hnoticed := hs.noticed
    simp only [inFlight, hstage] at hwritten
    simp only [toNotice, hstage] at hnoticed
    rw [require_of hsp.2.1]
    refine ⟨_, rfl, { hb with
      spare1 := by simp [newBuffer, FixedBuffer.empty]
      spare2 := by simp [newBuffer, FixedBuffer.empty]
      spares := ⟨rfl, rfl, hsp.2.2⟩, owned := fun h => absurd h howned }, hs.lines, ?_, ?_⟩
    · simpa [inFlight] using hwritten
    · simpa [toNotice] using hnoticed
  case h_7 hstage =>
    obtain ⟨s', hok, hinv⟩ := test_ok hb hs hstage
    cases h
    exact ⟨s', hok, hinv⟩
  case h_8 hstage =>
    cases h
    split
    · have hsp : s.newBuffer1.isSome = true ∧ s.newBuffer2.isSome = true ∧
          s.buffersToWrite = [] := by
        simpa [Spares, hstage] using hb.spares
      exact ⟨_, rfl, owner_ok hb hs (hb.not_constructed (by simp [hstage])) hsp
        (by simp [inFlight, hstage]) (by simp [toNotice, hstage])⟩
    · exact swap_ok hb hs (.inl hstage)
  case h_9 hstage =>
    obtain ⟨s', hok, hinv⟩ := swap_ok hb hs (.inr hstage)
    cases h
    exact ⟨s', hok, hinv⟩
  case h_10 now hstage =>
    obtain ⟨s', hok, hinv⟩ := drop_ok hb hs hstage now
    cases h
    exact ⟨s', hok, hinv⟩
  case h_11 i hstage =>
    cases h
    exact ⟨_, rfl, write_ok hb hs hstage⟩
  case h_12 hstage =>
    obtain ⟨s', hok, hinv⟩ := refill_ok hb hs hstage
    cases h
    exact ⟨s', hok, hinv⟩
  case h_13 => cases h

theorem invariant (h : logSystem.Reachable s) : Buffers s ∧ Stream s := by
  refine h.invariant (P := fun s => Buffers s ∧ Stream s) ?_ ?_
  · rintro _ rfl
    refine ⟨⟨rfl, ?_, by simp [create], by simp [create], by simp [create], ⟨rfl, rfl⟩,
      fun _ => rfl⟩, ?_, rfl, rfl⟩
    · simp [create, newBuffer, FixedBuffer.empty]
    · exact ⟨[[]], rfl, rfl⟩
  · intro s label s' _ _ hinv hnext
    obtain ⟨t, heq, ht⟩ := step_ok hinv.1 hinv.2 hnext
    cases heq
    exact ht

/-! ### Stopping -/

/-- The steps of the logging thread. -/
def ofThread : LogLabel → Bool
  | .append _ | .start | .startReturns | .stop | .join => false
  | _ => true

/-- How many steps the thread makes until it returns, at most, once `running_` is false. -/
def stepsLeft (s : AsyncLogging) : Nat :=
  match s.stage with
  | .locking => s.buffers_.length + 8
  | .waiting => s.buffers_.length + 7
  | .swapped => s.buffersToWrite.length + 5
  | .writing i => s.buffersToWrite.length - i + 4
  | .written => 3
  | .test => 2
  | _ => 1

theorem swap_keeps (h : s.swap = .ok s') :
    s'.owner = s.owner ∧ s'.running_ = s.running_ ∧ s'.stage = .swapped ∧
      s'.buffersToWrite.length = s.buffers_.length + 1 := by
  unfold swap at h
  split at h
  · cases h
  · cases h
    simp [takeAll]
  · cases h
    simp [takeAll]

theorem append_keeps {logline : Bytes} (h : s.append logline = .ok s') :
    s'.owner = s.owner ∧ s'.running_ = s.running_ := by
  unfold append at h
  split at h
  · cases h
  · split at h <;> cases h <;> exact ⟨rfl, rfl⟩

theorem refill_keeps (h : s.refill = .ok s') :
    s'.owner = s.owner ∧ s'.running_ = s.running_ := by
  simp only [refill, bind_eq_ok] at h
  obtain ⟨_, -, _, -, heq⟩ := h
  cases heq
  exact ⟨rfl, rfl⟩

theorem test_keeps (h : s.test = .ok s') : s'.owner = s.owner ∧ s'.running_ = s.running_ := by
  unfold test at h
  split at h
  · simp only [bind_eq_ok] at h
    obtain ⟨_, -, _, -, _, -, heq⟩ := h
    cases heq
    exact ⟨rfl, rfl⟩
  · cases h
    exact ⟨rfl, rfl⟩

theorem drop_keeps {now : List Char} (h : s.drop now = .ok s') :
    s'.owner = s.owner ∧ s'.running_ = s.running_ := by
  simp only [drop, bind_eq_ok] at h
  obtain ⟨_, -, h⟩ := h
  split at h <;> cases h <;> exact ⟨rfl, rfl⟩

theorem write_keeps (i : Nat) : (s.write i).owner = s.owner ∧ (s.write i).running_ = s.running_ := by
  unfold write
  split <;> exact ⟨rfl, rfl⟩

/-- After `stop`, `running_` stays false: only `start` sets it. -/
theorem stopping_step (hs : s.owner = .stopping → s.running_ = false)
    (h : step label s = some (.ok s')) (howner : s'.owner = .stopping) : s'.running_ = false := by
  have hkeep : s'.owner = s.owner ∧ s'.running_ = s.running_ → s'.running_ = false := by
    rintro ⟨ho, hr⟩
    exact hr ▸ hs (ho ▸ howner)
  unfold step at h
  split at h
  case h_1 => exact hkeep (append_keeps (Option.some.inj h))
  case h_2 => cases h; cases howner
  case h_3 => split at h <;> cases h; cases howner
  case h_4 => cases h; rfl
  case h_5 => cases h; cases howner
  case h_6 =>
    obtain ⟨_, -, heq⟩ := bind_eq_ok.mp (Option.some.inj h)
    cases heq
    exact hkeep ⟨rfl, rfl⟩
  case h_7 => exact hkeep (test_keeps (Option.some.inj h))
  case h_8 =>
    have hstep := Option.some.inj h
    split at hstep
    · cases hstep
      exact hkeep ⟨rfl, rfl⟩
    · exact hkeep ⟨(swap_keeps hstep).1, (swap_keeps hstep).2.1⟩
  case h_9 =>
    have hswap := swap_keeps (Option.some.inj h)
    exact hkeep ⟨hswap.1, hswap.2.1⟩
  case h_10 => exact hkeep (drop_keeps (Option.some.inj h))
  case h_11 =>
    cases h
    exact hkeep (write_keeps _)
  case h_12 => exact hkeep (refill_keeps (Option.some.inj h))
  case h_13 => cases h

theorem running_of_stopping (h : logSystem.Reachable s) : s.owner = .stopping → s.running_ = false :=
  h.invariant (P := fun s => s.owner = .stopping → s.running_ = false)
    (by rintro _ rfl; simp [create]) fun _ _ _ _ _ hs hnext => stopping_step hs hnext

/-- The thread's next step after `stop`. -/
theorem exists_threadStep (h : logSystem.Reachable s) (howner : s.owner = .stopping)
    (hstage : s.stage ≠ .returned) :
    ∃ label s', ofThread label = true ∧ logSystem.Next label s s' ∧ s'.owner = .stopping ∧
      s'.stepsLeft < s.stepsLeft := by
  obtain ⟨hb, hs⟩ := invariant h
  have hstopped := running_of_stopping h howner
  have hsp := hb.spares
  -- every step goes through
  have hgo : ∀ (label : LogLabel) (r : Except LogFault AsyncLogging), step label s = some r →
      ∃ s', r = .ok s' ∧ logSystem.Next label s s' := by
    intro label r hr
    obtain ⟨s', rfl, -⟩ := step_ok hb hs hr
    exact ⟨s', rfl, hr⟩
  cases hst : s.stage with
  | notStarted => simp [Spares, hst, howner] at hsp
  | starting => simp [Spares, hst, howner] at hsp
  | test =>
      have htest : s.test = .ok { s with stage := .returned } := by simp [test, hstopped]
      exact ⟨.test, { s with stage := .returned }, rfl, by
        simp only [logSystem, System.Next, step, hst, htest], howner, by simp [stepsLeft, hst]⟩
  | locking =>
      by_cases hempty : s.buffers_ = []
      · exact ⟨.lock, { s with stage := .waiting }, rfl, by
          simp only [logSystem, System.Next, step, hst, hempty, if_true], howner,
          by simp [stepsLeft, hst]⟩
      · obtain ⟨s', heq, hnext⟩ := hgo .lock s.swap (by simp [step, hst, hempty])
        obtain ⟨ho, -, hstage', hlen⟩ := swap_keeps heq
        exact ⟨.lock, s', rfl, hnext, ho.trans howner, by
          simp only [stepsLeft, hst, hstage', hlen]; omega⟩
  | waiting =>
      obtain ⟨s', heq, hnext⟩ := hgo .wake s.swap (by simp [step, hst])
      obtain ⟨ho, -, hstage', hlen⟩ := swap_keeps heq
      exact ⟨.wake, s', rfl, hnext, ho.trans howner, by
        simp only [stepsLeft, hst, hstage', hlen]; omega⟩
  | swapped =>
      obtain ⟨s', heq, hnext⟩ := hgo (.drop []) (s.drop []) (by simp [step, hst])
      refine ⟨.drop [], s', rfl, hnext, (drop_keeps heq).1.trans howner, ?_⟩
      simp only [drop, bind_eq_ok] at heq
      obtain ⟨_, -, heq⟩ := heq
      split at heq <;> cases heq <;> simp only [stepsLeft, hst, List.length_take] <;> omega
  | writing i =>
      refine ⟨.write, s.write i, rfl, by simp [logSystem, System.Next, step, hst],
        (write_keeps i).1.trans howner, ?_⟩
      unfold write
      split
      · rename_i b hget
        obtain ⟨hlt, -⟩ := List.getElem?_eq_some_iff.mp hget
        simp only [stepsLeft, hst]
        omega
      · simp only [stepsLeft, hst]
        omega
  | written =>
      obtain ⟨s', heq, hnext⟩ := hgo .refill s.refill (by simp [step, hst])
      refine ⟨.refill, s', rfl, hnext, (refill_keeps heq).1.trans howner, ?_⟩
      simp only [refill, bind_eq_ok] at heq
      obtain ⟨_, -, _, -, heq⟩ := heq
      cases heq
      simp [stepsLeft, hst]
  | returned => exact absurd hst hstage

/-- The thread's steps to its return. -/
theorem exists_return (h : logSystem.Reachable s) (howner : s.owner = .stopping) :
    ∃ labels s', logSystem.replay (fun _ => ofThread) labels s = some s' ∧
      labels.length < s.stepsLeft ∧ s'.stage = .returned ∧ s'.owner = .stopping := by
  induction hn : s.stepsLeft using Nat.strong_induction_on generalizing s with
  | _ n ih =>
      by_cases hstage : s.stage = .returned
      · exact ⟨[], s, rfl, by simp [← hn, stepsLeft, hstage], hstage, howner⟩
      · obtain ⟨label, t, hof, hnext, hot, hlt⟩ := exists_threadStep h howner hstage
        obtain ⟨labels, s', hrun, hlen, hret, ho⟩ :=
          ih t.stepsLeft (hn ▸ hlt) (.step h trivial hnext) hot rfl
        refine ⟨label :: labels, s', ?_, ?_, hret, ho⟩
        · have hnext' : logSystem.step label s = some (.ok t) := hnext
          simp only [System.replay, hof, hnext']
          exact hrun
        · simp only [List.length_cons]
          omega

/-- Without a notice, what is written is the buffers. -/
theorem text_of_no_count {file : List LogChunk} (h : file.filterMap LogChunk.count? = []) :
    file.map LogChunk.text = (file.filterMap LogChunk.buffer?).map FixedBuffer.data := by
  induction file with
  | nil => rfl
  | cons chunk rest ih =>
      cases chunk with
      | buffer b =>
          have hrest : rest.filterMap LogChunk.count? = [] := by
            simpa [List.filterMap_cons] using h
          simp [LogChunk.text, ih hrest]
      | notice time count => simp at h

/-- As long as no batch is large, the buffers written are the first ones filled. -/
theorem Stream.written_filled (hs : Stream s) (hfew : ∀ batch ∈ s.taken, batch.length ≤ 25) :
    s.file.filterMap LogChunk.count? = [] ∧
      ∃ rest, s.file.filterMap LogChunk.buffer? ++ rest = s.filled := by
  have hall : s.taken.flatMap kept = s.taken.flatten := by
    have hkept : s.taken.map kept = s.taken.map id :=
      List.map_congr_left fun batch hbatch => if_neg (Nat.not_lt.mpr (hfew batch hbatch))
    rw [List.flatMap_def, hkept, List.map_id]
  have hnone : s.taken.flatMap notices = [] :=
    List.flatMap_eq_nil_iff.mpr fun batch hbatch => if_neg (Nat.not_lt.mpr (hfew batch hbatch))
  have hnoticed := hs.noticed
  rw [hnone] at hnoticed
  refine ⟨(List.append_eq_nil_iff.mp hnoticed).1,
    s.inFlight ++ s.buffers_ ++ s.currentBuffer_.toList, ?_⟩
  rw [filled, ← hall, ← hs.written]
  simp only [List.append_assoc]

end AsyncLogging

/-- **The log.** In every run: the lines shorter than a buffer are, in the order in which they
were logged, what the buffers taken, put aside and in use hold, each line whole in one buffer. Of
each batch taken, what is written or about to be is all of it, or the first two buffers and a
notice with the number of the others when there are more than 25. So as long as no batch is that
large, the file holds a beginning of the log. -/
theorem asyncLogging_stream {s : AsyncLogging} (h : logSystem.Reachable s) :
    InBlocks (AsyncLogging.fitting s.logged) (s.filled.map FixedBuffer.data) ∧
    s.file.filterMap LogChunk.buffer? ++ s.inFlight = s.taken.flatMap AsyncLogging.kept ∧
    s.file.filterMap LogChunk.count? ++ s.toNotice = s.taken.flatMap AsyncLogging.notices ∧
    ((∀ batch ∈ s.taken, batch.length ≤ 25) →
      s.file.flatMap LogChunk.text <+: (AsyncLogging.fitting s.logged).flatten) := by
  obtain ⟨-, hs⟩ := AsyncLogging.invariant h
  refine ⟨hs.lines, hs.written, hs.noticed, fun hfew => ?_⟩
  obtain ⟨hnone, rest, hfilled⟩ := hs.written_filled hfew
  rw [List.flatMap_def, AsyncLogging.text_of_no_count hnone, ← hs.lines.flatten_eq, ← hfilled,
    List.map_append, List.flatten_append]
  exact List.prefix_append _ _

/-- **The spare buffers.** No run fails an assertion or uses a null buffer. -/
theorem asyncLogging_never_fails {s : AsyncLogging} (h : logSystem.Reachable s) (label : LogLabel)
    (e : LogFault) : ¬ logSystem.Fails label s e := by
  intro hfails
  obtain ⟨hb, hs⟩ := AsyncLogging.invariant h
  obtain ⟨s', heq, -⟩ := AsyncLogging.step_ok hb hs hfails
  cases heq

/-- **Stopping.** From every state of a run in which `stop` was called the thread can return by
itself, after at most as many steps as there are buffers put aside or taken and eight, and then
`join` returns. All it took is written then, as far as it was kept; what was logged after it last
took the buffers never is. -/
theorem asyncLogging_stops {s : AsyncLogging} (h : logSystem.Reachable s)
    (howner : s.owner = .stopping) :
    ∃ labels s' s'', logSystem.replay (fun _ => AsyncLogging.ofThread) labels s = some s' ∧
      labels.length ≤ s.buffers_.length + s.buffersToWrite.length + 8 ∧
      logSystem.Next .join s' s'' ∧ s''.owner = .stopped ∧
      s''.file.filterMap LogChunk.buffer? = s''.taken.flatMap AsyncLogging.kept := by
  obtain ⟨labels, s', hrun, hlen, hret, ho⟩ := AsyncLogging.exists_return h howner
  have hreach : logSystem.Reachable s' :=
    System.ReachableBy.replay h (fun _ _ _ _ _ => trivial) hrun
  have hwritten := (AsyncLogging.invariant hreach).2.written
  simp only [AsyncLogging.inFlight, hret, List.append_nil] at hwritten
  refine ⟨labels, s', { s' with owner := .stopped }, hrun, ?_, ?_, rfl, hwritten⟩
  · have hbound : s.stepsLeft ≤ s.buffers_.length + s.buffersToWrite.length + 8 := by
      unfold AsyncLogging.stepsLeft
      split <;> omega
    omega
  · simp only [logSystem, System.Next, AsyncLogging.step, hret, ho]

/-! ### A concrete run -/

/-- A line is logged and written after the wait; a second one is logged when the thread has
already left the critical section, and `stop` is called. -/
def logRun : List LogLabel :=
  [.start, .enter, .startReturns, .append [104, 105], .test, .lock, .wake, .drop [], .write,
    .append [10], .write, .refill, .stop]

theorem logRun_reaches (p : AsyncLogging → Bool)
    (h : (logSystem.replay (fun _ _ => true) logRun .create).map p = some true) :
    ∃ s, logSystem.Reachable s ∧ p s = true :=
  System.exists_reachable_of_replay _ _ _ p rfl h

/-- The file holds the first line only. -/
theorem asyncLogging_stream_run :
    ∃ s, logSystem.Reachable s ∧ s.logged = [[104, 105], [10]] ∧
      s.file.flatMap LogChunk.text = [104, 105] ∧
      s.file.flatMap LogChunk.text <+: (AsyncLogging.fitting s.logged).flatten := by
  obtain ⟨s, hs, hp⟩ := logRun_reaches (fun s => s.logged == [[104, 105], [10]] &&
    s.file.flatMap LogChunk.text == [104, 105] && s.taken.all (·.length ≤ 25)) (by decide)
  simp only [Bool.and_eq_true, beq_iff_eq, List.all_eq_true, decide_eq_true_eq] at hp
  exact ⟨s, hs, hp.1.1, hp.1.2, (asyncLogging_stream hs).2.2.2 hp.2⟩

/-- The spare buffers are there for the next round. -/
theorem asyncLogging_never_fails_run :
    ∃ s, logSystem.Reachable s ∧ s.stage = .test ∧ ∀ e, ¬ logSystem.Fails .test s e := by
  obtain ⟨s, hs, hp⟩ := logRun_reaches (fun s => s.stage == .test) (by decide)
  exact ⟨s, hs, by simpa using hp, fun e => asyncLogging_never_fails hs .test e⟩

/-- The second line stays in memory. -/
theorem asyncLogging_stops_run :
    ∃ s, logSystem.Reachable s ∧ s.owner = .stopping ∧ s.logged = [[104, 105], [10]] ∧
      ∃ labels s' s'', logSystem.replay (fun _ => AsyncLogging.ofThread) labels s = some s' ∧
        labels.length ≤ 8 ∧ logSystem.Next .join s' s'' ∧ s''.owner = .stopped := by
  obtain ⟨s, hs, hp⟩ := logRun_reaches (fun s => s.owner == .stopping &&
    s.logged == [[104, 105], [10]] && s.buffers_.isEmpty && s.buffersToWrite.isEmpty) (by decide)
  simp only [Bool.and_eq_true, beq_iff_eq, List.isEmpty_iff] at hp
  obtain ⟨labels, s', s'', hrun, hlen, hjoin, hstopped, -⟩ := asyncLogging_stops hs hp.1.1.1
  rw [hp.1.2, hp.2] at hlen
  exact ⟨s, hs, hp.1.1.1, hp.1.1.2, labels, s', s'', hrun, hlen, hjoin, hstopped⟩

end Reactor
