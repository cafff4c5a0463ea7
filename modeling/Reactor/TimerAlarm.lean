import Reactor.TimerFiring

/-!
# The timerfd

The timerfd as an alarm that is disarmed when it fires; `handleRead` runs only then. The code
arms it in `addTimerInLoop`, when `insert` finds that the new timer comes before the first entry
of `_timers`. It does not arm it at the end of `handleRead`, where `reset` is commented out.

* `dueTimes` - when each timer is due, from the events so far.
* `alarm_missed` - after a repeating timer has run the timerfd is not armed for its next time; and
  an entry left over in `_timers` hides a new first timer from `insert`.
* `alarm_armed` - in runs without either, the timerfd is armed for every timer that is due.
-/

namespace Reactor

open Reactor.Lib

/-! ### Due times -/

/-- A timer is due from when it is added until it is cancelled, or has run and does not
repeat. -/
def TimerEvent.due (due : ActiveTimer → Option Int) : TimerEvent → ActiveTimer → Option Int
  | .added timerId expiration => Function.update due timerId (some expiration)
  | .ran timerId interval now =>
      Function.update due timerId
        ((due timerId).bind fun _ => if 0 < interval then some (now + interval) else none)
  | .cancelled timerId => Function.update due timerId none

/-- When each timer is due next. -/
def dueTimes (events : List TimerEvent) : ActiveTimer → Option Int :=
  events.foldl TimerEvent.due fun _ => none

@[simp] theorem dueTimes_concat (events : List TimerEvent) (event : TimerEvent) :
    dueTimes (events ++ [event]) = event.due (dueTimes events) := by
  simp [dueTimes]

/-! ### The alarm -/

/-- When an alarm set to `a.2` at the clock `a.1` goes off. -/
def alarmExpiry (a : Int × Timespec) : Int := a.1 + a.2.sec * 1000000 + a.2.nsec / 1000

theorem alarmExpiry_howMuchTimeFromNow (expiration clock : Int) :
    alarmExpiry (clock, howMuchTimeFromNow expiration clock) = max expiration (clock + 100) := by
  have hsplit : ∀ microseconds : Int, 0 ≤ microseconds →
      clock + microseconds.tdiv 1000000 * 1000000 + microseconds.tmod 1000000 * 1000 / 1000 =
        clock + microseconds := by
    intro microseconds hnonneg
    rw [Int.tdiv_eq_ediv_of_nonneg hnonneg, Int.tmod_eq_emod_of_nonneg hnonneg,
      Int.mul_ediv_cancel _ (by decide)]
    omega
  unfold alarmExpiry howMuchTimeFromNow
  simp only
  split
  · rw [hsplit 100 (by decide)]
    omega
  · rw [hsplit _ (by omega)]
    omega

namespace TimerQueue

/-- The timerfd is armed for something due at `due`: it goes off no later, or no later than
100 microseconds after it was armed. -/
def ArmedFor (q : TimerQueue) (due : Int) : Prop :=
  ∃ a, q.timerfd = some a ∧ alarmExpiry a ≤ max due (a.1 + 100)

/-- The timerfd is armed for every active timer. -/
def Armed (q : TimerQueue) : Prop :=
  ∀ timerId ∈ q.activeTimers, ∀ timer, q.heap timerId.1 = some timer →
    q.ArmedFor timer.expiration

/-- A timer that would come before every active one would come before every entry of `_timers`
too: no entry is left over that hides it from `insert`. -/
def AddsInOrder (q : TimerQueue) (expiration : Int) : Prop :=
  (∀ timerId ∈ q.activeTimers, ∀ timer, q.heap timerId.1 = some timer →
    expiration < timer.expiration) → ∀ e ∈ q.timers, expiration < (ofLex e).1

section Armed

variable {q q' : TimerQueue} {created : Finset Nat} {addr : Nat}

theorem ArmedFor.mono {due due' : Int} (h : q.ArmedFor due) (hle : due ≤ due') :
    q.ArmedFor due' := by
  obtain ⟨a, ha, hexp⟩ := h
  exact ⟨a, ha, by omega⟩

/-- The first entry of `_timers` has the smallest expiration. -/
theorem earliest_iff (q : TimerQueue) (expiration : Int) :
    q.Earliest expiration ↔ ∀ e ∈ q.timers, expiration < (ofLex e).1 := by
  constructor
  · intro hfirst e he
    have hmem := (Finset.mem_sort (· ≤ ·)).mpr he
    have hsorted := Finset.pairwise_sort q.timers (· ≤ ·)
    unfold Earliest at hfirst
    cases hsort : q.timers.sort with
    | nil => simp [hsort] at hmem
    | cons first rest =>
        rw [hsort] at hmem hsorted hfirst
        have hlt := hfirst first rfl
        rcases List.mem_cons.mp hmem with rfl | hmem
        · exact hlt
        · have hle : (ofLex first).1 ≤ (ofLex e).1 := by
            rcases Prod.Lex.le_iff.mp ((List.pairwise_cons.mp hsorted).1 e hmem) with hlt | ⟨heq, -⟩
            · exact hlt.le
            · exact heq.le
          omega
  · intro hall e he
    exact hall e ((Finset.mem_sort _).mp (List.mem_of_mem_head? he))

/-- Adding a timer keeps the timerfd armed for all, if `insert` can see what comes first. -/
theorem Armed.addTimerInLoop {clock : Int} (harmed : q.Armed) (h : q.Sound created)
    (horder : ∀ timer, q.heap addr = some timer → q.AddsInOrder timer.expiration)
    (hadd : q.addTimerInLoop true addr clock = .ok q') : q'.Armed := by
  obtain ⟨timer, hheap, rfl⟩ := addTimerInLoop_eq hadd
  intro timerId hmem timer' hheap'
  have hnew : timerId = (addr, timer.sequence) → timer' = timer := by
    rintro rfl
    exact Option.some.inj (hheap'.symm.trans hheap)
  by_cases hfirst : q.Earliest timer.expiration
  · -- the alarm is set for the new timer, and no other one is earlier
    refine ⟨_, if_pos hfirst, ?_⟩
    rw [alarmExpiry_howMuchTimeFromNow]
    rcases Finset.mem_insert.mp hmem with heq | hmem
    · rw [hnew heq]
    · obtain ⟨timer₁, hheap₁, -, hentry⟩ := h.active timerId hmem
      cases hheap₁.symm.trans hheap'
      have hlt := (q.earliest_iff _).mp hfirst _ hentry
      simp only [ofLex_toLex] at hlt
      omega
  · have hsame : ArmedFor { q with
        timers := Insert.insert (toLex (timer.expiration, addr)) q.timers
        activeTimers := Insert.insert (addr, timer.sequence) q.activeTimers
        timerfd := if q.Earliest timer.expiration then
            some (clock, howMuchTimeFromNow timer.expiration clock)
          else q.timerfd } timer'.expiration ↔ q.ArmedFor timer'.expiration := by
      simp only [ArmedFor, if_neg hfirst]
    rw [hsame]
    rcases Finset.mem_insert.mp hmem with heq | hmem
    · -- some active timer is not later, and the alarm is set for that one
      rw [hnew heq]
      by_contra hnot
      refine hfirst ((q.earliest_iff _).mpr (horder timer hheap fun timerId₀ hmem₀ timer₀ hheap₀ => ?_))
      by_contra hle
      exact hnot ((harmed timerId₀ hmem₀ timer₀ hheap₀).mono (by omega))
    · exact harmed timerId hmem timer' hheap'

theorem Armed.cancelInLoop {timerId : ActiveTimer} (harmed : q.Armed)
    (hcancel : q.cancelInLoop true timerId = .ok q') : q'.Armed := by
  intro timerId' hmem timer' hheap'
  have hheap := cancelInLoop_heap hcancel hheap'
  rcases cancelInLoop_eq hcancel with ⟨-, timer, -, rfl⟩ | ⟨-, rfl⟩
  · exact harmed timerId' (Finset.mem_of_mem_erase hmem) timer' hheap
  · exact harmed timerId' hmem timer' hheap

theorem Armed.newTimer {expiration interval : Int} (harmed : q.Armed) (h : q.Sound created)
    (hnew : q.newTimer addr expiration interval = some q') : q'.Armed := by
  obtain ⟨hfree, -, -, rfl⟩ := newTimer_eq hnew
  intro timerId hmem timer hheap
  rcases newTimer_heap_cases hnew hheap with ⟨haddr, -⟩ | hheap
  · exact absurd (haddr ▸ hmem) ((h.free hfree).1 timerId.2)
  · exact harmed timerId hmem timer hheap

/-- A call that adds a timer adds it in order. -/
def CallsInOrder (q : TimerQueue) (c : TimerCall) : Prop :=
  ∀ addr expiration interval clock, c = .addTimer addr expiration interval clock →
    q.AddsInOrder expiration

theorem Armed.call {c : TimerCall} (harmed : q.Armed) (h : q.Sound created)
    (horder : q.CallsInOrder c) (hcall : q.call true c = some (.ok q')) : q'.Armed := by
  cases c with
  | addTimer addr expiration interval clock =>
      simp only [TimerQueue.call, Option.map_eq_some_iff] at hcall
      obtain ⟨q₁, hnew, hadd⟩ := hcall
      refine (harmed.newTimer h hnew).addTimerInLoop (h.newTimer hnew) ?_ hadd
      obtain ⟨-, -, -, rfl⟩ := newTimer_eq hnew
      intro timer hheap hlater
      simp only [Function.update_self, Option.some.injEq] at hheap
      subst hheap
      refine horder addr expiration interval clock rfl fun timerId hmem timer htimer => ?_
      exact hlater timerId hmem timer (newTimer_heap hnew htimer)
  | cancel timerId =>
      simp only [TimerQueue.call, Option.some.injEq] at hcall
      exact harmed.cancelInLoop hcall

end Armed

/-! ### What is due -/

/-- A timer that is due is active and due at its expiration, or waits to be run. -/
def Tracks (q : TimerQueue) (events : List TimerEvent) (waits : ActiveTimer → Prop) : Prop :=
  ∀ timerId due, dueTimes events timerId = some due →
    (timerId ∈ q.activeTimers ∧ ∃ timer, q.heap timerId.1 = some timer ∧ timer.expiration = due) ∨
      waits timerId

section Tracks

variable {q q' : TimerQueue} {created : Finset Nat} {events : List TimerEvent}
  {waits : ActiveTimer → Prop} {addr : Nat}

theorem Tracks.newTimer {expiration interval : Int} (htracks : q.Tracks events waits)
    (hnew : q.newTimer addr expiration interval = some q') : q'.Tracks events waits := by
  obtain ⟨-, -, -, rfl⟩ := newTimer_eq hnew
  intro timerId due hdue
  rcases htracks timerId due hdue with ⟨hmem, timer, hheap, hexp⟩ | hwaits
  · exact Or.inl ⟨hmem, timer, newTimer_heap hnew hheap, hexp⟩
  · exact Or.inr hwaits

theorem Tracks.addTimerInLoop {clock : Int} {timer : Timer} (htracks : q.Tracks events waits)
    (hheap : q.heap addr = some timer) (hadd : q.addTimerInLoop true addr clock = .ok q') :
    q'.Tracks (events ++ [.added (addr, timer.sequence) timer.expiration]) waits := by
  obtain ⟨timer', hheap', rfl⟩ := addTimerInLoop_eq hadd
  cases hheap.symm.trans hheap'
  intro timerId due hdue
  rw [dueTimes_concat, TimerEvent.due, Function.update_apply] at hdue
  split at hdue
  · rename_i heq
    cases hdue
    subst heq
    exact Or.inl ⟨Finset.mem_insert_self _ _, timer, hheap, rfl⟩
  · rcases htracks timerId due hdue with ⟨hmem, hrest⟩ | hwaits
    · exact Or.inl ⟨Finset.mem_insert_of_mem hmem, hrest⟩
    · exact Or.inr hwaits

theorem Tracks.cancelInLoop {timerId : ActiveTimer} (htracks : q.Tracks events waits)
    (h : q.Sound created) (hcancel : q.cancelInLoop true timerId = .ok q') :
    q'.Tracks (events ++ q.callEvents (.cancel timerId)) waits := by
  have hsound := h.cancelInLoop hcancel
  have hissued : timerId ∈ q.activeTimers → timerId.2 ≤ q.numCreated := by
    intro hmem
    obtain ⟨timer, hheap, hseq, -⟩ := h.active timerId hmem
    rw [← hseq]
    exact h.numbered _ _ hheap
  intro timerId' due hdue
  have hold : dueTimes events timerId' = some due ∧
      (timerId.2 ≤ q.numCreated → timerId' ≠ timerId) := by
    rw [callEvents] at hdue
    split at hdue
    · rw [dueTimes_concat, TimerEvent.due, Function.update_apply] at hdue
      split at hdue
      · cases hdue
      · rename_i hne
        exact ⟨hdue, fun _ => hne⟩
    · rename_i hnot
      rw [List.append_nil] at hdue
      exact ⟨hdue, fun hle => absurd hle hnot⟩
  rcases htracks timerId' due hold.1 with ⟨hmem, timer, hheap, hexp⟩ | hwaits
  · rcases cancelInLoop_eq hcancel with ⟨hactive, timer₀, -, rfl⟩ | ⟨-, rfl⟩
    · have hmem' := Finset.mem_erase.mpr ⟨hold.2 (hissued hactive), hmem⟩
      obtain ⟨timer', hheap', -⟩ := hsound.active timerId' hmem'
      refine Or.inl ⟨hmem', timer', hheap', ?_⟩
      simp only [Function.update_apply] at hheap'
      split at hheap'
      · cases hheap'
      · cases hheap.symm.trans hheap'
        exact hexp
    · exact Or.inl ⟨hmem, timer, hheap, hexp⟩
  · exact Or.inr hwaits

theorem Tracks.call {c : TimerCall} (htracks : q.Tracks events waits) (h : q.Sound created)
    (hcall : q.call true c = some (.ok q')) : q'.Tracks (events ++ q.callEvents c) waits := by
  cases c with
  | addTimer addr expiration interval clock =>
      simp only [TimerQueue.call, Option.map_eq_some_iff] at hcall
      obtain ⟨q₁, hnew, hadd⟩ := hcall
      have hheap : q₁.heap addr = some ⟨expiration, interval, q.numCreated + 1⟩ := by
        obtain ⟨-, -, -, rfl⟩ := newTimer_eq hnew
        exact Function.update_self ..
      exact (htracks.newTimer hnew).addTimerInLoop hheap hadd
  | cancel timerId =>
      simp only [TimerQueue.call, Option.some.injEq] at hcall
      exact htracks.cancelInLoop h hcall

end Tracks

/-! ### `handleRead` -/

/-- The timer has one of these entries and does not repeat. -/
def Waits (q₀ : TimerQueue) (expired : List TimerEntry) (timerId : ActiveTimer) : Prop :=
  ∃ e ∈ expired, q₀.idOf e = timerId ∧
    ∃ timer, q₀.heap (ofLex e).2 = some timer ∧ timer.interval ≤ 0

/-- In `handleRead`'s loop the timers that are due are active or wait to be run. -/
structure AlarmLoop (q₀ : TimerQueue) (created : Finset Nat) (events : List TimerEvent)
    (expired : List TimerEntry) (q : TimerQueue) (log : List TimerEvent) : Prop
    extends Remaining q₀ created expired q where
  tracks : q.Tracks (events ++ log) (Waits q₀ expired)
  armed : q.Armed

section Loop

variable {q₀ q q' : TimerQueue} {created : Finset Nat} {events log : List TimerEvent}
  {expired : List TimerEntry}

theorem AlarmLoop.call {c : TimerCall} (h : AlarmLoop q₀ created events expired q log)
    (horder : q.CallsInOrder c) (hcall : q.call true c = some (.ok q')) :
    AlarmLoop q₀ created events expired q' (log ++ q.callEvents c) := by
  refine ⟨h.toRemaining.call hcall, ?_, h.armed.call h.sound horder hcall⟩
  rw [← List.append_assoc]
  exact h.tracks.call h.sound hcall

/-- A timer that has run is not due any more. -/
theorem AlarmLoop.run {e : TimerEntry} {timer : Timer} {now : Int}
    (h : AlarmLoop q₀ created events (e :: expired) q log)
    (hheap : q.heap (ofLex e).2 = some timer) :
    AlarmLoop q₀ created events expired q
      (log ++ [.ran ((ofLex e).2, timer.sequence) timer.interval now]) := by
  obtain ⟨hsame, -, hspent⟩ := h.rest e (by simp)
  have hid := h.toRemaining.idOf_eq List.mem_cons_self hheap
  refine ⟨⟨h.sound, fun e' he' => h.rest e' (List.mem_cons_of_mem _ he')⟩, ?_, h.armed⟩
  intro timerId due hdue
  rw [← List.append_assoc, dueTimes_concat, TimerEvent.due, Function.update_apply] at hdue
  split at hdue
  · rename_i heq
    rw [← hid] at heq
    subst heq
    obtain ⟨due₀, hdue₀, hagain⟩ := Option.bind_eq_some_iff.mp hdue
    rw [← hid] at hdue₀
    rcases h.tracks _ _ hdue₀ with ⟨hmem, -⟩ | ⟨e', -, heq, timer', hheap', hone⟩
    · exact absurd hmem hspent.inactive
    · have haddr : (ofLex e').2 = (ofLex e).2 := (Prod.mk.inj heq).1
      rw [haddr, ← hsame] at hheap'
      cases hheap.symm.trans hheap'
      rw [if_neg (by omega)] at hagain
      cases hagain
  · rename_i hne
    rcases h.tracks _ _ hdue with hactive | ⟨e', he', heq, hone⟩
    · exact Or.inl hactive
    · refine Or.inr ⟨e', ?_, heq, hone⟩
      rcases List.mem_cons.mp he' with rfl | he'
      · exact absurd (heq.symm.trans hid) hne
      · exact he'

/-- After `handleRead` has run every timer, and none of them repeats, the timerfd is armed for
what the callbacks have added. -/
theorem Tracks.handleRead {now : Int} {callback : Nat → List TimerCall}
    (htracks : q.Tracks events fun _ => False) (h : q.Sound created)
    (hall : ∀ timerId ∈ q.activeTimers, ∀ timer, q.heap timerId.1 = some timer →
      (toLex (timer.expiration, timerId.1) : TimerEntry) < toLex (now, uintptrMax) ∧
        timer.interval ≤ 0)
    (horder : ∀ expired q₁, q.getExpired true now = .ok (expired, q₁) →
      ExpiredMeet CallsInOrder callback expired q₁.calling)
    (hread : q.handleRead true now callback = some (.ok q')) :
    q'.Sound created ∧ q'.Tracks (events ++ q.handleReadEvents now callback) (fun _ => False) ∧
      q'.Armed := by
  obtain ⟨expired, q₁, q₂, hget, hloop, hevents, rfl⟩ := handleRead_eq hread
  rw [hevents]
  have hremaining := h.remaining hget
  have hmeet := horder expired q₁ hget
  obtain ⟨rfl, ⟨active, hsub, rfl⟩, -⟩ := getExpired_eq hget
  have hwaits : ∀ timerId ∈ q.activeTimers, Waits q (q.dueEntries now) timerId := by
    intro timerId hmem
    obtain ⟨timer, hheap, hseq, hentry⟩ := h.active timerId hmem
    obtain ⟨hlt, hone⟩ := hall timerId hmem timer hheap
    refine ⟨_, mem_dueEntries_of hentry hlt, ?_, timer, hheap, hone⟩
    rw [TimerQueue.idOf_eq (e := toLex (timer.expiration, timerId.1)) hheap, hseq]
    rfl
  have hstart : AlarmLoop q created events (q.dueEntries now)
      (calling { q with activeTimers := active }) [] := by
    refine ⟨hremaining, ?_, ?_⟩
    · intro timerId due hdue
      rw [List.append_nil] at hdue
      rcases htracks timerId due hdue with ⟨hmem, -⟩ | hfalse
      · exact Or.inr (hwaits timerId hmem)
      · exact hfalse.elim
    · -- nothing is active at this point
      intro timerId hmem timer _
      obtain ⟨e, he, rfl, -⟩ := hwaits timerId (hsub hmem)
      exact absurd hmem (hremaining.rest e he).2.2.inactive
  have hend : AlarmLoop q created events [] q₂
      ([] ++ runExpiredEvents now callback (q.dueEntries now)
        (calling { q with activeTimers := active })) :=
    runExpired_rule (fun es q log c q' hI hP hcall => hI.call hP hcall)
      (fun e es q log timer hI hheap => hI.run hheap) hstart hmeet hloop
  rw [List.nil_append] at hend
  refine ⟨⟨hend.sound.active, hend.sound.entry, hend.sound.created, hend.sound.numbered⟩,
    fun timerId due hdue => ?_, hend.armed⟩
  rcases hend.tracks timerId due hdue with hactive | ⟨e, he, -⟩
  · exact Or.inl hactive
  · cases he

end Loop

end TimerQueue

/-! ### Runs -/

/-- The timerfd fires: it is disarmed. -/
def TimerState.fired (s : TimerState) : TimerState :=
  { s with queue := { s.queue with timerfd := none } }

/-- Operations in any order, with `NDEBUG`; `handleRead` is called when the timerfd fires. -/
def alarmSystem : System TimerRun TimerLabel Fault where
  init r := r = ⟨⟨.create, ∅⟩, []⟩
  step label r :=
    let after (s : TimerState) : Option (Exec TimerRun) :=
      (s.step true label).map fun out => out.map fun s' => ⟨s', r.history ++ [s.events label]⟩
    match label with
    | .handleRead _ _ => if r.state.queue.timerfd.isSome then after r.state.fired else none
    | _ => after r.state

/-- Every timer that is added finds no left-over entry in front of it, and when the timerfd fires
every active timer is due and none of them repeats. -/
def LeavesNothing (r : TimerRun) : TimerLabel → Prop
  | .newTimer _ _ _ => True
  | .addTimerInLoop addr _ => ∀ timer, r.state.queue.heap addr = some timer →
      r.state.queue.AddsInOrder timer.expiration
  | .call c => r.state.queue.CallsInOrder c
  | .handleRead now callback =>
      (∀ timerId ∈ r.state.queue.activeTimers, ∀ timer,
        r.state.queue.heap timerId.1 = some timer →
          (toLex (timer.expiration, timerId.1) : TimerEntry) < toLex (now, uintptrMax) ∧
            timer.interval ≤ 0) ∧
      ∀ expired q, r.state.fired.queue.getExpired true now = .ok (expired, q) →
        TimerQueue.ExpiredMeet TimerQueue.CallsInOrder callback expired q.calling

structure AlarmInv (r : TimerRun) : Prop where
  sound : r.state.queue.Sound r.state.created
  tracks : r.state.queue.Tracks r.history.flatten fun _ => False
  armed : r.state.queue.Armed

section Runs

variable {r r' : TimerRun} {label : TimerLabel}

theorem AlarmInv.step (h : AlarmInv r) (hok : LeavesNothing r label)
    (hnext : alarmSystem.Next label r r') : AlarmInv r' := by
  cases label with
  | newTimer addr expiration interval =>
      obtain ⟨state, hstep, rfl⟩ := map_eq_some_ok.mp hnext
      cases TimerState.steps hstep with
      | newTimer hnew =>
          refine ⟨h.sound.newTimer hnew, ?_, h.armed.newTimer h.sound hnew⟩
          simpa [TimerState.events] using h.tracks.newTimer hnew
  | addTimerInLoop addr clock =>
      obtain ⟨state, hstep, rfl⟩ := map_eq_some_ok.mp hnext
      cases TimerState.steps hstep with
      | addTimerInLoop hmem hadd =>
          obtain ⟨timer, hheap, -⟩ := TimerQueue.addTimerInLoop_eq hadd
          refine ⟨h.sound.addTimerInLoop hadd, ?_, h.armed.addTimerInLoop h.sound hok hadd⟩
          simpa [TimerState.events, hheap] using h.tracks.addTimerInLoop hheap hadd
  | call c =>
      obtain ⟨state, hstep, rfl⟩ := map_eq_some_ok.mp hnext
      cases TimerState.steps hstep with
      | call hcall =>
          refine ⟨(h.sound.call hcall).1, ?_, h.armed.call h.sound hok hcall⟩
          simpa [TimerState.events] using h.tracks.call h.sound hcall
  | handleRead now callback =>
      simp only [System.Next, alarmSystem] at hnext
      split at hnext
      · obtain ⟨state, hstep, rfl⟩ := map_eq_some_ok.mp hnext
        cases TimerState.steps hstep with
        | handleRead hread =>
            -- disarming the timerfd touches neither the sets nor the heap
            have hsound : r.state.fired.queue.Sound r.state.created :=
              ⟨h.sound.active, h.sound.entry, h.sound.created, h.sound.numbered⟩
            have htracks : r.state.fired.queue.Tracks r.history.flatten fun _ => False := h.tracks
            obtain ⟨hsound', htracks', harmed⟩ :=
              htracks.handleRead hsound hok.1 hok.2 hread
            refine ⟨hsound', ?_, harmed⟩
            simpa [TimerState.events] using htracks'
      · cases hnext

/-- **The timerfd is armed for what is due.** In every run in which no left-over entry hides a
timer that is added, and no timer stays behind when the timerfd fires: after every operation the
timerfd is armed for every timer that is due. -/
theorem alarm_armed (h : alarmSystem.ReachableBy LeavesNothing r) (timerId : ActiveTimer)
    (due : Int) (hdue : dueTimes r.history.flatten timerId = some due) :
    r.state.queue.ArmedFor due := by
  have hinv : AlarmInv r := by
    refine h.invariant (P := AlarmInv) ?_ ?_
    · rintro r rfl
      exact ⟨TimerQueue.create_sound, by simp [TimerQueue.Tracks, dueTimes],
        by simp [TimerQueue.Armed, TimerQueue.create]⟩
    · intro r label r' _ hok hinv hnext
      exact hinv.step hok hnext
  rcases hinv.tracks timerId due hdue with ⟨hmem, timer, hheap, rfl⟩ | hfalse
  · exact hinv.armed timerId hmem timer hheap
  · exact hfalse.elim

end Runs

/-! ### Concrete runs -/

/-- A timer at 100 that repeats every 50 microseconds has run at 150, and the timerfd is not armed
for its next time. Or: a timer at 100 has run, and one at 200 is added after that; the entry of
the first is still in `_timers`, and the timerfd is not armed. -/
theorem alarm_missed :
    (∃ r, alarmSystem.Reachable r ∧ r.history = [[.added (8, 1) 100], [.ran (8, 1) 50 150]] ∧
      dueTimes r.history.flatten (8, 1) = some 200 ∧ ¬ r.state.queue.ArmedFor 200) ∧
    ∃ r, alarmSystem.Reachable r ∧
      r.history = [[.added (8, 1) 100], [.ran (8, 1) 0 150], [.added (16, 2) 200]] ∧
      dueTimes r.history.flatten (16, 2) = some 200 ∧ ¬ r.state.queue.ArmedFor 200 := by
  have hdisarmed : ∀ q : TimerQueue, q.timerfd = none → ¬ q.ArmedFor 200 := by
    rintro q hnone ⟨a, ha, -⟩
    cases hnone.symm.trans ha
  constructor
  · obtain ⟨r, hr, hp⟩ := System.exists_reachable_of_replay alarmSystem
      [.call (.addTimer 8 100 50 0), .handleRead 150 fun _ => []] ⟨⟨.create, ∅⟩, []⟩
      (fun r => decide (r.history = [[.added (8, 1) 100], [.ran (8, 1) 50 150]] ∧
        r.state.queue.timerfd = none))
      rfl (by decide +kernel)
    obtain ⟨hhistory, hnone⟩ := of_decide_eq_true hp
    exact ⟨r, hr, hhistory, by rw [hhistory]; decide, hdisarmed _ hnone⟩
  · obtain ⟨r, hr, hp⟩ := System.exists_reachable_of_replay alarmSystem
      [.call (.addTimer 8 100 0 0), .handleRead 150 fun _ => [], .call (.addTimer 16 200 0 160)]
      ⟨⟨.create, ∅⟩, []⟩
      (fun r => decide (r.history =
          [[.added (8, 1) 100], [.ran (8, 1) 0 150], [.added (16, 2) 200]] ∧
        r.state.queue.timerfd = none))
      rfl (by decide +kernel)
    obtain ⟨hhistory, hnone⟩ := of_decide_eq_true hp
    exact ⟨r, hr, hhistory, by rw [hhistory]; decide, hdisarmed _ hnone⟩

/-- `LeavesNothing` for the calls of `addTimer` and, where no callback calls anything, for the
timerfd, evaluated. -/
def leavesNothing (r : TimerRun) : TimerLabel → Bool
  | .call (.addTimer _ expiration _ _) =>
      decide (∀ e ∈ r.state.queue.timers, expiration < (ofLex e).1)
  | .handleRead now _ =>
      decide (∀ timerId ∈ r.state.queue.activeTimers,
        (r.state.queue.heap timerId.1).all fun timer =>
          (toLex (timer.expiration, timerId.1) : TimerEntry) < toLex (now, uintptrMax) &&
            timer.interval ≤ 0)
  | _ => false

theorem leavesNothing_addTimer {r : TimerRun} {addr : Nat} {expiration interval clock : Int}
    (h : leavesNothing r (.call (.addTimer addr expiration interval clock)) = true) :
    LeavesNothing r (.call (.addTimer addr expiration interval clock)) := by
  have hall : ∀ e ∈ r.state.queue.timers, expiration < (ofLex e).1 := of_decide_eq_true h
  intro _ _ _ _ heq _
  cases heq
  exact hall

theorem leavesNothing_handleRead {r : TimerRun} {now : Int}
    (h : leavesNothing r (.handleRead now fun _ => []) = true) :
    LeavesNothing r (.handleRead now fun _ => []) := by
  refine ⟨fun timerId hmem timer hheap => ?_,
    fun expired q _ => TimerQueue.expiredMeet_silent expired _⟩
  have hdue := of_decide_eq_true h timerId hmem
  rw [hheap] at hdue
  simpa using hdue

/-- A timer at 100 has run when the timerfd fired, and one at 40 is added after that: it comes
before the left-over entry, and the timerfd is armed for it. -/
theorem alarm_armed_earlier :
    ∃ r, alarmSystem.ReachableBy LeavesNothing r ∧
      r.history = [[.added (8, 1) 100], [.ran (8, 1) 0 150], [.added (16, 2) 40]] ∧
      r.state.queue.ArmedFor 40 := by
  have hok : ∀ label ∈ [TimerLabel.call (.addTimer 8 100 0 0), .handleRead 150 fun _ => [],
      .call (.addTimer 16 40 0 160)], ∀ r, leavesNothing r label = true →
        LeavesNothing r label := by
    intro label hlabel r htest
    simp only [List.mem_cons, List.not_mem_nil, or_false] at hlabel
    rcases hlabel with rfl | rfl | rfl
    · exact leavesNothing_addTimer htest
    · exact leavesNothing_handleRead htest
    · exact leavesNothing_addTimer htest
  obtain ⟨r, hr, hp⟩ := System.exists_reachableBy_of_replay alarmSystem leavesNothing _
    ⟨⟨.create, ∅⟩, []⟩
    (fun r => decide (r.history =
      [[.added (8, 1) 100], [.ran (8, 1) 0 150], [.added (16, 2) 40]]))
    rfl (fun label hlabel r _ => hok label hlabel r) (by decide +kernel)
  have hhistory := of_decide_eq_true hp
  exact ⟨r, hr, hhistory, alarm_armed hr (16, 2) 40 (by rw [hhistory]; decide)⟩

end Reactor
