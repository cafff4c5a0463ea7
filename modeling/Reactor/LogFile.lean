import Reactor.AsyncLogging

/-!
# Log files (`LogFile.h`, `LogFile.cc`, `FileUtil.cc`)

Lines are appended to a file, which is replaced by a new one when it has become too large and,
looked at every so often, when the day changes. A file is called after the second in which it was
opened, and no two are opened in one second.

* `AppendFile.written_whole` - a line is written whole unless a call of `fwrite` writes nothing.
* `logFile_appends` - in every run the files hold the lines in order, each whole in one file, have
  different names and are replaced as soon as the clock allows.
* `asyncLogging_files` - what the logging thread writes, over all files.
-/

namespace Reactor

open Reactor.Lib

/-! ### One file -/

/-- A file: the second it is named after, what was written to it, and what was to be. -/
structure AppendFile where
  openedAt : Int
  content : Bytes
  writtenBytes_ : Nat
deriving DecidableEq, Repr

namespace AppendFile

/-- The `while (remain > 0)` loop: what is written of `logline`. The `results` are the numbers of
bytes the calls of `fwrite_unlocked` accept; behind their end calls accept everything. -/
def writeLoop : List Nat → Bytes → Bytes
  | _, [] => []
  | [], remain => remain
  | x :: results, remain =>
      if x = 0 then [] else remain.take x ++ writeLoop results (remain.drop x)

/-- What `append` writes: the first call may accept nothing. -/
def written : List Nat → Bytes → Bytes
  | [], logline => logline
  | n :: results, logline => logline.take n ++ writeLoop results (logline.drop n)

def append (results : List Nat) (logline : Bytes) (file : AppendFile) : AppendFile :=
  { file with
    content := file.content ++ written results logline
    writtenBytes_ := file.writtenBytes_ + logline.length }

/-- `new AppendFile(filename)`. -/
def openAt (now : Int) : AppendFile := { openedAt := now, content := [], writtenBytes_ := 0 }

theorem writeLoop_whole (results : List Nat) (h : 0 ∉ results) (remain : Bytes) :
    writeLoop results remain = remain := by
  induction results generalizing remain with
  | nil => cases remain <;> rfl
  | cons x results ih =>
      obtain ⟨hx, hrest⟩ := not_or.mp (List.mem_cons.not.mp h)
      cases remain with
      | nil => rfl
      | cons b rest =>
          simp only [writeLoop, Ne.symm hx, if_false, ih hrest, List.take_append_drop]

/-- The whole line is written unless a call after the first accepts nothing. -/
theorem written_whole {results : List Nat} (h : 0 ∉ results.tail) (logline : Bytes) :
    written results logline = logline := by
  cases results with
  | nil => rfl
  | cons n results =>
      rw [written, writeLoop_whole results h, List.take_append_drop]

end AppendFile

/-! ### The files of a log -/

/-- A `LogFile`, with the files it has replaced. -/
structure LogFile where
  rollSize_ : Nat
  flushInterval_ : Int
  checkEveryN_ : Int
  count_ : Int
  startOfPeriod_ : Int
  lastRoll_ : Int
  lastFlush_ : Int
  file_ : Option AppendFile
  closed : List AppendFile
deriving DecidableEq, Repr

/-- A null `file_`. -/
inductive FileFault where
  | nullFile
deriving DecidableEq, Repr

/-- The calls, with what they get from the kernel: the results of `fwrite`, the time read by the
periodical check, the time read by `rollFile`. -/
inductive LogFileOp where
  | append (logline : Bytes) (results : List Nat) (check roll : Int)
  | flush
  | rollFile (now : Int)
deriving DecidableEq, Repr

/-- What a call writes of its line. -/
def LogFileOp.written? : LogFileOp → Option Bytes
  | .append logline results _ _ => some (AppendFile.written results logline)
  | _ => none

namespace LogFile

/-- `kRollPerSeconds_`. -/
def kRollPerSeconds : Int := 60 * 60 * 24

/-- `now / kRollPerSeconds_ * kRollPerSeconds_`. -/
def period (now : Int) : Int := now.tdiv kRollPerSeconds * kRollPerSeconds

def rollFile (now : Int) (f : LogFile) : LogFile :=
  if f.lastRoll_ < now then
    { f with
      lastRoll_ := now
      lastFlush_ := now
      startOfPeriod_ := period now
      file_ := some (.openAt now)
      closed := f.closed ++ f.file_.toList }
  else f

/-- The constructor. -/
def create (rollSize : Nat) (flushInterval checkEveryN now : Int) : LogFile :=
  rollFile now
    { rollSize_ := rollSize, flushInterval_ := flushInterval, checkEveryN_ := checkEveryN
      count_ := 0, startOfPeriod_ := 0, lastRoll_ := 0, lastFlush_ := 0, file_ := none
      closed := [] }

/-- What `append_unlocked` does every `checkEveryN_` times. -/
def checkTime (check roll : Int) (f : LogFile) : LogFile :=
  if period check ≠ f.startOfPeriod_ then f.rollFile roll
  else if f.flushInterval_ < check - f.lastFlush_ then { f with lastFlush_ := check }
  else f

/-- `append_unlocked`. -/
def append (logline : Bytes) (results : List Nat) (check roll : Int) (f : LogFile) :
    Except FileFault LogFile :=
  match f.file_.map (AppendFile.append results logline) with
  | none => .error .nullFile
  | some file =>
      if f.rollSize_ < file.writtenBytes_ then .ok ({ f with file_ := some file }.rollFile roll)
      else if f.checkEveryN_ ≤ f.count_ + 1 then
        .ok ({ f with file_ := some file, count_ := 0 }.checkTime check roll)
      else .ok { f with file_ := some file, count_ := f.count_ + 1 }

def step (f : LogFile) : LogFileOp → Except FileFault LogFile
  | .append logline results check roll => f.append logline results check roll
  | .flush => if f.file_ = none then .error .nullFile else .ok f
  | .rollFile now => .ok (f.rollFile now)

/-- All files, in the order in which they were opened. -/
def files (f : LogFile) : List AppendFile := f.closed ++ f.file_.toList

/-- What the calls write. -/
def linesWritten (ops : List LogFileOp) : List Bytes := ops.filterMap LogFileOp.written?

/-- There is a file, the last one opened; the files were opened one second after the other; they
hold the lines. -/
structure Rolled (lines : List Bytes) (f : LogFile) : Prop where
  current : ∃ file, f.file_ = some file ∧ file.openedAt = f.lastRoll_
  times : f.files.Pairwise fun a b => a.openedAt < b.openedAt
  holds : InBlocks lines (f.files.map AppendFile.content)

variable {f f' : LogFile} {lines : List Bytes}

/-- `rollFile` opens a file later than all others, or does nothing. -/
theorem Rolled.rollFile (h : Rolled lines f) (now : Int) : Rolled lines (f.rollFile now) := by
  unfold LogFile.rollFile
  split
  · rename_i hlater
    obtain ⟨file, hfile, htime⟩ := h.current
    refine ⟨⟨_, rfl, rfl⟩, ?_, ?_⟩
    · have htimes := h.times
      simp only [files, hfile, Option.toList_some] at htimes ⊢
      refine List.pairwise_append.mpr ⟨htimes, List.pairwise_singleton _ _, ?_⟩
      intro a ha b hb
      have hle : a.openedAt ≤ f.lastRoll_ := by
        rcases List.mem_append.mp ha with hold | hlast
        · exact htime ▸ ((List.pairwise_append.mp htimes).2.2 a hold file (by simp)).le
        · rw [List.mem_singleton.mp hlast, htime]
      rw [List.mem_singleton.mp hb]
      exact hle.trans_lt hlater
    · have hopened := h.holds.open_block
      simpa [files, AppendFile.openAt] using hopened
  · exact h

/-- The bookkeeping does not matter to the files. -/
theorem Rolled.congr (h : Rolled lines f) (hfile : f'.file_ = f.file_)
    (hclosed : f'.closed = f.closed) (hroll : f'.lastRoll_ = f.lastRoll_) : Rolled lines f' := by
  have hfiles : f'.files = f.files := by rw [files, files, hfile, hclosed]
  exact ⟨by rw [hfile, hroll]; exact h.current, by rw [hfiles]; exact h.times,
    by rw [hfiles]; exact h.holds⟩

theorem Rolled.checkTime (h : Rolled lines f) (check roll : Int) :
    Rolled lines (f.checkTime check roll) := by
  unfold LogFile.checkTime
  split
  · exact h.rollFile roll
  · split
    · exact h.congr rfl rfl rfl
    · exact h

/-- The current file is not too large, or it was opened no earlier than `now`. -/
def Small (now : Int) (f : LogFile) : Prop :=
  ∃ file, f.file_ = some file ∧ (file.writtenBytes_ ≤ f.rollSize_ ∨ now ≤ file.openedAt)

theorem small_rollFile (h : Rolled lines f) (now : Int) : Small now (f.rollFile now) := by
  unfold rollFile
  split
  · exact ⟨_, rfl, .inl (Nat.zero_le _)⟩
  · rename_i hlate
    obtain ⟨file, hfile, htime⟩ := h.current
    exact ⟨file, hfile, .inr (by omega)⟩

theorem small_checkTime {now : Int} (h : Rolled lines f) (hsmall : Small now f) (check : Int) :
    Small now (f.checkTime check now) := by
  unfold checkTime
  split
  · exact small_rollFile h now
  · split
    · exact hsmall
    · exact hsmall

/-- A line goes to the end of the current file, which is then replaced if it is too large and
the clock allows. -/
theorem Rolled.append (h : Rolled lines f) (logline : Bytes) (results : List Nat)
    (check roll : Int) :
    ∃ f', f.append logline results check roll = .ok f' ∧
      Rolled (lines ++ [AppendFile.written results logline]) f' ∧ Small roll f' := by
  obtain ⟨file, hfile, htime⟩ := h.current
  have hnew : Rolled (lines ++ [AppendFile.written results logline])
      { f with file_ := some (file.append results logline) } := by
    have htimes := h.times
    have hholds := h.holds
    simp only [files, hfile, Option.toList_some] at htimes hholds
    refine ⟨⟨_, rfl, htime⟩, ?_, ?_⟩
    · simp only [files, Option.toList_some]
      rw [List.pairwise_append] at htimes ⊢
      exact ⟨htimes.1, List.pairwise_singleton _ _, fun a ha b hb => by
        rw [List.mem_singleton.mp hb]
        exact htimes.2.2 a ha file (by simp)⟩
    · simp only [List.map_append, List.map_cons, List.map_nil] at hholds
      simpa [files, AppendFile.append] using hholds.add_line (AppendFile.written results logline)
  simp only [LogFile.append, hfile, Option.map_some]
  split
  · exact ⟨_, rfl, hnew.rollFile roll, small_rollFile hnew roll⟩
  · rename_i hfits
    split
    · have hcounted : Rolled (lines ++ [AppendFile.written results logline])
          { f with file_ := some (file.append results logline), count_ := 0 } :=
        hnew.congr rfl rfl rfl
      exact ⟨_, rfl, hcounted.checkTime check roll,
        small_checkTime hcounted ⟨_, rfl, .inl (Nat.not_lt.mp hfits)⟩ check⟩
    · exact ⟨_, rfl, hnew.congr rfl rfl rfl, _, rfl, .inl (Nat.not_lt.mp hfits)⟩

theorem Rolled.step (h : Rolled lines f) (op : LogFileOp) :
    ∃ f', f.step op = .ok f' ∧ Rolled (lines ++ linesWritten [op]) f' := by
  cases op with
  | append logline results check roll =>
      obtain ⟨f', hok, hrolled, -⟩ := h.append logline results check roll
      exact ⟨f', hok, hrolled⟩
  | flush =>
      obtain ⟨file, hfile, -⟩ := h.current
      refine ⟨f, by simp [LogFile.step, hfile], ?_⟩
      simpa [linesWritten, LogFileOp.written?, List.filterMap_cons] using h
  | rollFile now =>
      refine ⟨_, rfl, ?_⟩
      simpa [linesWritten, LogFileOp.written?, List.filterMap_cons] using h.rollFile now

theorem Rolled.run (h : Rolled lines f) (ops : List LogFileOp) :
    ∃ f', ops.foldlM LogFile.step f = .ok f' ∧ Rolled (lines ++ linesWritten ops) f' := by
  induction ops generalizing f lines with
  | nil => exact ⟨f, rfl, by simpa [linesWritten, LogFileOp.written?, List.filterMap_cons] using h⟩
  | cons op rest ih =>
      obtain ⟨t, hstep, ht⟩ := h.step op
      obtain ⟨f', hrun, hf'⟩ := ih ht
      refine ⟨f', by rw [List.foldlM_cons, hstep, ok_bind, hrun], ?_⟩
      have hsplit : linesWritten (op :: rest) = linesWritten [op] ++ linesWritten rest := by
        rw [linesWritten, linesWritten, linesWritten, ← List.filterMap_append,
          List.singleton_append]
      rw [hsplit, ← List.append_assoc]
      exact hf'

theorem rolled_create {rollSize : Nat} {flushInterval checkEveryN now : Int} (h : 0 < now) :
    Rolled [] (create rollSize flushInterval checkEveryN now) := by
  refine ⟨⟨.openAt now, ?_, ?_⟩, ?_, [[]], rfl, ?_⟩ <;>
    simp [create, rollFile, h, files, AppendFile.openAt]

end LogFile

/-- **Rolling.** From a clock past 1970 on, every sequence of calls, with any times and any
results of `fwrite`: no call uses a null file; the files hold what was written of the lines, in
order and each line whole in one file; no two were opened in the same second; and after an
`append` the current file has at most `rollSize` bytes, or the clock has not moved since it was
opened. -/
theorem logFile_appends (rollSize : Nat) (flushInterval checkEveryN : Int) (now : Int)
    (hnow : 0 < now) (ops : List LogFileOp) :
    ∃ f, ops.foldlM LogFile.step (.create rollSize flushInterval checkEveryN now) = .ok f ∧
      InBlocks (LogFile.linesWritten ops) (f.files.map AppendFile.content) ∧
      f.files.Pairwise (fun a b => a.openedAt < b.openedAt) ∧
      ∀ logline results check roll, ∃ f', f.append logline results check roll = .ok f' ∧
        LogFile.Small roll f' := by
  obtain ⟨f, hrun, hrolled⟩ := (LogFile.rolled_create hnow).run ops
  refine ⟨f, hrun, by simpa using hrolled.holds, hrolled.times, ?_⟩
  intro logline results check roll
  obtain ⟨f', hok, -, hsmall⟩ := hrolled.append logline results check roll
  exact ⟨f', hok, hsmall⟩

/-! ### The files of the logging thread -/

/-- What one call of `append` gets from the kernel: the results of `fwrite`, the time read by the
periodical check, the time read by `rollFile`. -/
structure FileAnswers where
  results : List Nat
  check : Int
  roll : Int
deriving DecidableEq, Repr

/-- The calls of `output.append` in `threadFunc`, of which call `k` gets `answers k`. -/
def outputOps (answers : Nat → FileAnswers) (file : List LogChunk) : List LogFileOp :=
  file.zipIdx.map fun call =>
    .append call.1.text (answers call.2).results (answers call.2).check (answers call.2).roll

theorem linesWritten_outputOps {answers : Nat → FileAnswers}
    (hwhole : ∀ k, 0 ∉ (answers k).results.tail) (file : List LogChunk) :
    LogFile.linesWritten (outputOps answers file) = file.map LogChunk.text := by
  have hline : ∀ call : LogChunk × Nat,
      AppendFile.written (answers call.2).results call.1.text = call.1.text :=
    fun call => AppendFile.written_whole (hwhole call.2) call.1.text
  calc LogFile.linesWritten (outputOps answers file)
      = file.zipIdx.filterMap (some ∘ LogChunk.text ∘ Prod.fst) := by
        rw [LogFile.linesWritten, outputOps, List.filterMap_map]
        exact List.filterMap_congr fun call _ => congrArg some (hline call)
    _ = (file.zipIdx.map Prod.fst).map LogChunk.text := by
        rw [List.filterMap_eq_map, List.map_map]
    _ = file.map LogChunk.text := by rw [List.zipIdx_map_fst]

/-- **From the front ends to the files.** In every run of the logging thread in which no batch
had more than 25 buffers and no call of `fwrite` but the first for a buffer writes nothing, from a
clock past 1970 on and whatever it shows then: the files it has written hold the first lines
logged, in order and each line whole in one file, over all rolls. -/
theorem asyncLogging_files {s : AsyncLogging} (h : logSystem.Reachable s)
    (hfew : ∀ batch ∈ s.taken, batch.length ≤ 25) (rollSize : Nat) (now : Int) (hnow : 0 < now)
    (answers : Nat → FileAnswers) (hwhole : ∀ k, 0 ∉ (answers k).results.tail) :
    ∃ f n, (outputOps answers s.file).foldlM LogFile.step (.create rollSize 3 1024 now) = .ok f ∧
      InBlocks ((AsyncLogging.fitting s.logged).take n) (f.files.map AppendFile.content) ∧
      f.files.Pairwise (fun a b => a.openedAt < b.openedAt) := by
  obtain ⟨-, hs⟩ := AsyncLogging.invariant h
  obtain ⟨hnone, rest, hfilled⟩ := hs.written_filled hfew
  obtain ⟨f, hrun, hrolled⟩ := (LogFile.rolled_create hnow).run (outputOps answers s.file)
  have hfirst : (s.filled.map FixedBuffer.data).take (s.file.filterMap LogChunk.buffer?).length =
      s.file.map LogChunk.text := by
    rw [AsyncLogging.text_of_no_count hnone, ← hfilled, ← List.map_take, List.take_left]
  obtain ⟨n, hn⟩ := hs.lines.take_blocks (s.file.filterMap LogChunk.buffer?).length
  rw [hfirst] at hn
  have hholds := hrolled.holds
  rw [List.nil_append, linesWritten_outputOps hwhole] at hholds
  exact ⟨f, n, hrun, hn.trans hholds, hrolled.times⟩

/-! ### Concrete runs -/

/-- Four lines, the first of which is written in two calls. -/
def rollRun : List LogFileOp :=
  [.append [1, 2, 3] [1, 2] 7 7, .append [4] [] 7 7, .append [5] [] 8 8, .append [6] [] 8 8]

/-- The first file is full after the first line but ends with the third, a second later. -/
theorem logFile_appends_rolls :
    ∃ f, rollRun.foldlM LogFile.step (.create 2 3 1024 7) = .ok f ∧
      f.files.map AppendFile.content = [[1, 2, 3, 4, 5], [6]] ∧
      InBlocks [[1, 2, 3], [4], [5], [6]] (f.files.map AppendFile.content) := by
  obtain ⟨f, hrun, hholds, -⟩ := logFile_appends 2 3 1024 7 (by decide) rollRun
  have hfiles : (rollRun.foldlM LogFile.step (.create 2 3 1024 7)).map
      (fun f => f.files.map AppendFile.content) = .ok [[1, 2, 3, 4, 5], [6]] := rfl
  rw [hrun] at hfiles
  exact ⟨f, hrun, Except.ok.inj hfiles, hholds⟩

/-- The line that was written before `stop` is in the file, though `fwrite` took it in two. -/
theorem asyncLogging_files_run :
    ∃ s f n, logSystem.Reachable s ∧ s.logged = [[104, 105], [10]] ∧
      (outputOps (fun _ => ⟨[1, 1], 7, 7⟩) s.file).foldlM LogFile.step (.create 500 3 1024 7) =
        .ok f ∧
      InBlocks ((AsyncLogging.fitting s.logged).take n) (f.files.map AppendFile.content) := by
  obtain ⟨s, hs, hp⟩ := logRun_reaches (fun s => s.logged == [[104, 105], [10]] &&
    s.taken.all (·.length ≤ 25)) (by decide)
  simp only [Bool.and_eq_true, beq_iff_eq, List.all_eq_true, decide_eq_true_eq] at hp
  obtain ⟨f, n, hrun, hholds, -⟩ := asyncLogging_files hs hp.2 500 7 (by decide)
    (fun _ => ⟨[1, 1], 7, 7⟩) (fun _ => by decide)
  exact ⟨s, f, n, hs, hp.1, hrun, hholds⟩

end Reactor
