import Reactor.TimerQueue

/-!
# Timer ids and recycled addresses (`TimerId`, `TimerQueue::cancelInLoop`)

An id names a timer by its address and its sequence number. The address of a deleted timer
may be given to the next one, and other queues of the process draw numbers from the same
counter. Here timers are created, added and cancelled in any order, and none expires.

The history keeps which ids were handed out, added and cancelled; it is written from the
calls alone and never read by them.

* `TimerHistory.Live` - the id was added and has not been cancelled since.
* `ReuseInv` - `_activeTimers` holds exactly the live ids.
* `cancel_touches_only_its_timer` - a cancel deletes the timer of a live id and changes
  nothing for any other id.
-/

namespace Reactor

open Reactor.Lib

/-- A queue with the history of its ids: `created` were returned by `new Timer` and wait to
be added. -/
structure TimerHistory where
  queue : TimerQueue
  created : Finset ActiveTimer
  added : Finset ActiveTimer
  cancelled : Finset ActiveTimer

/-- `TimerId()`. -/
def TimerId.default : ActiveTimer := (0, 0)

/-- The timer of the id was put into the queue and not cancelled since. -/
def TimerHistory.Live (s : TimerHistory) (timerId : ActiveTimer) : Prop :=
  timerId ∈ s.added ∧ timerId ∉ s.cancelled

instance (s : TimerHistory) (timerId : ActiveTimer) : Decidable (s.Live timerId) :=
  inferInstanceAs (Decidable (_ ∧ _))

/-- `new Timer` for this queue, `new Timer` for another one, and the two functions of the
loop's thread; each timer is added once, by the `addTimer` that created it. -/
inductive ReuseLabel where
  | newTimer (addr : Nat) (expiration interval : Int)
  | newTimerElsewhere
  | addTimerInLoop (timerId : ActiveTimer) (clock : Int)
  | cancelInLoop (timerId : ActiveTimer)
deriving DecidableEq, Repr

def TimerHistory.step : ReuseLabel → TimerHistory → Option (Exec TimerHistory)
  | .newTimer addr expiration interval, s =>
      (s.queue.newTimer addr expiration interval).map fun q =>
        .ok { s with queue := q, created := insert (addr, s.queue.numCreated + 1) s.created }
  | .newTimerElsewhere, s =>
      some (.ok { s with queue := { s.queue with numCreated := s.queue.numCreated + 1 } })
  | .addTimerInLoop timerId clock, s =>
      if timerId ∈ s.created then
        some ((s.queue.addTimerInLoop false timerId.1 clock).map fun q =>
          { s with queue := q
                   created := s.created.erase timerId
                   added := insert timerId s.added })
      else none
  | .cancelInLoop timerId, s =>
      some ((s.queue.cancelInLoop false timerId).map fun q =>
        { s with queue := q
                 cancelled := if timerId ∈ s.added then insert timerId s.cancelled
                   else s.cancelled })

def reuseSystem : System TimerHistory ReuseLabel Fault where
  init s := s = ⟨.create, ∅, ∅, ∅⟩
  step := TimerHistory.step

/-- `_activeTimers` holds exactly the live ids, the timers that wait exist and are in neither
set, and no id was handed out with a number that the counter has not reached. -/
structure ReuseInv (s : TimerHistory) : Prop where
  agree : s.queue.SetsAgree
  live : ∀ timerId, timerId ∈ s.queue.activeTimers ↔ s.Live timerId
  created : ∀ timerId ∈ s.created, s.queue.Exists timerId ∧ timerId ∉ s.added ∧
    ∀ sequence, (timerId.1, sequence) ∉ s.queue.activeTimers
  cancelled : s.cancelled ⊆ s.added
  numbered : ∀ timerId ∈ s.created ∪ s.added, 0 < timerId.2 ∧ timerId.2 ≤ s.queue.numCreated
  idle : s.queue.callingExpiredTimers = false

section Steps

variable {s s' : TimerHistory}

theorem ReuseInv.newTimer {addr : Nat} {expiration interval : Int} {q : TimerQueue}
    (h : ReuseInv s) (hnew : s.queue.newTimer addr expiration interval = some q) :
    ReuseInv { s with queue := q, created := insert (addr, s.queue.numCreated + 1) s.created } := by
  obtain ⟨hagree, hactive, -, hinactive, -⟩ := h.agree.newTimer hnew
  obtain ⟨-, -, -, rfl⟩ := TimerQueue.newTimer_eq hnew
  have hfresh : (addr, s.queue.numCreated + 1) ∉ s.added := by
    intro hmem
    have hnum := (h.numbered _ (Finset.mem_union_right _ hmem)).2
    simp only at hnum
    omega
  constructor
  · exact hagree
  · exact h.live
  · intro timerId hmem
    rcases Finset.mem_insert.mp hmem with rfl | hmem
    · exact ⟨⟨_, Function.update_self .., rfl⟩, hfresh, hinactive⟩
    · obtain ⟨⟨timer, hheap, hseq⟩, hnot, hout⟩ := h.created timerId hmem
      exact ⟨⟨timer, TimerQueue.newTimer_heap hnew hheap, hseq⟩, hnot, hout⟩
  · exact h.cancelled
  · intro timerId hmem
    rw [Finset.insert_union, Finset.mem_insert] at hmem
    rcases hmem with rfl | hmem
    · exact ⟨Nat.succ_pos _, Nat.le_refl _⟩
    · obtain ⟨hpos, hle⟩ := h.numbered timerId hmem
      exact ⟨hpos, Nat.le_succ_of_le hle⟩
  · exact h.idle

theorem ReuseInv.newTimerElsewhere (h : ReuseInv s) :
    ReuseInv { s with queue := { s.queue with numCreated := s.queue.numCreated + 1 } } := by
  constructor
  · exact ⟨h.agree.timers, h.agree.active⟩
  · exact h.live
  · exact h.created
  · exact h.cancelled
  · intro timerId hmem
    obtain ⟨hpos, hle⟩ := h.numbered timerId hmem
    exact ⟨hpos, Nat.le_succ_of_le hle⟩
  · exact h.idle

theorem ReuseInv.addTimerInLoop {timerId : ActiveTimer} (h : ReuseInv s)
    (hmem : timerId ∈ s.created) (clock : Int) :
    ∃ q, s.queue.addTimerInLoop false timerId.1 clock = .ok q ∧
      ReuseInv { s with queue := q
                        created := s.created.erase timerId
                        added := insert timerId s.added } := by
  obtain ⟨hexists, hnot, hout⟩ := h.created timerId hmem
  obtain ⟨timer, hheap, hseq⟩ := hexists
  obtain ⟨q, hadd, hagree, hsame, hactive⟩ := h.agree.addTimerInLoop hheap hout clock
  have hframe : q.numCreated = s.queue.numCreated ∧ q.callingExpiredTimers = false := by
    obtain ⟨timer', -, rfl⟩ := TimerQueue.addTimerInLoop_eq hadd
    exact ⟨rfl, h.idle⟩
  have hid : (timerId.1, timer.sequence) = timerId := Prod.ext rfl hseq
  rw [hid] at hactive
  refine ⟨q, hadd, hagree, ?_, ?_, ?_, ?_, hframe.2⟩
  · intro other
    have hstale : timerId ∉ s.cancelled := fun hc => hnot (h.cancelled hc)
    simp only [TimerHistory.Live, hactive, Finset.mem_insert, h.live]
    constructor
    · rintro (rfl | ⟨ha, hc⟩)
      · exact ⟨Or.inl rfl, hstale⟩
      · exact ⟨Or.inr ha, hc⟩
    · rintro ⟨rfl | ha, hc⟩
      · exact Or.inl rfl
      · exact Or.inr ⟨ha, hc⟩
  · intro other hother
    obtain ⟨hne, hother⟩ := Finset.mem_erase.mp hother
    obtain ⟨hexists', hnot', hout'⟩ := h.created other hother
    have haddr : other.1 ≠ timerId.1 := fun heq =>
      hne (hexists'.eq_of_addr ⟨timer, hheap, hseq⟩ heq)
    refine ⟨?_, ?_, fun sequence hin => ?_⟩
    · unfold TimerQueue.Exists
      rw [hsame]
      exact hexists'
    · intro hin
      rcases Finset.mem_insert.mp hin with rfl | hin
      · exact hne rfl
      · exact hnot' hin
    · rw [hactive] at hin
      rcases Finset.mem_insert.mp hin with heq | hin
      · exact haddr (Prod.ext_iff.mp heq).1
      · exact hout' sequence hin
  · exact h.cancelled.trans (Finset.subset_insert _ _)
  · intro other hother
    show 0 < other.2 ∧ other.2 ≤ q.numCreated
    rw [hframe.1]
    apply h.numbered other
    rw [Finset.mem_union, Finset.mem_insert] at hother
    rcases hother with hother | rfl | hother
    · exact Finset.mem_union_left _ (Finset.mem_of_mem_erase hother)
    · exact Finset.mem_union_left _ hmem
    · exact Finset.mem_union_right _ hother

theorem ReuseInv.cancelInLoop (h : ReuseInv s) (timerId : ActiveTimer) :
    ∃ q, s.queue.cancelInLoop false timerId = .ok q ∧
      ReuseInv { s with queue := q
                        cancelled := if timerId ∈ s.added then insert timerId s.cancelled
                          else s.cancelled } := by
  obtain ⟨q, hcancel, hagree, hactive, hkeep⟩ := h.agree.cancelInLoop timerId
  have hframe : q.numCreated = s.queue.numCreated ∧ q.callingExpiredTimers = false := by
    rcases TimerQueue.cancelInLoop_eq hcancel with ⟨-, timer, -, rfl⟩ | ⟨-, rfl⟩
    · exact ⟨rfl, h.idle⟩
    · exact ⟨rfl, h.idle⟩
  refine ⟨q, hcancel, hagree, ?_, ?_, ?_, ?_, hframe.2⟩
  · intro other
    simp only [TimerHistory.Live, hactive, Finset.mem_erase, h.live]
    by_cases hadded : timerId ∈ s.added
    · rw [if_pos hadded, Finset.mem_insert]
      tauto
    · rw [if_neg hadded]
      constructor
      · rintro ⟨-, hlive⟩
        exact hlive
      · intro hlive
        refine ⟨?_, hlive⟩
        rintro rfl
        exact hadded hlive.1
  · intro other hother
    obtain ⟨⟨timer, hheap, hseq⟩, hnot, hout⟩ := h.created other hother
    refine ⟨⟨timer, (hkeep other.1 hout).trans hheap, hseq⟩, hnot, fun sequence hin => ?_⟩
    rw [hactive] at hin
    exact hout sequence (Finset.mem_of_mem_erase hin)
  · by_cases hadded : timerId ∈ s.added
    · simp only [if_pos hadded]
      exact Finset.insert_subset hadded h.cancelled
    · simp only [if_neg hadded]
      exact h.cancelled
  · intro other hother
    show 0 < other.2 ∧ other.2 ≤ q.numCreated
    rw [hframe.1]
    exact h.numbered other hother

/-- Every call returns and keeps the invariant. -/
theorem ReuseInv.step {label : ReuseLabel} {r : Exec TimerHistory} (h : ReuseInv s)
    (hstep : s.step label = some r) : ∃ s', r = .ok s' ∧ ReuseInv s' := by
  cases label with
  | newTimer addr expiration interval =>
      simp only [TimerHistory.step, Option.map_eq_some_iff] at hstep
      obtain ⟨q, hnew, rfl⟩ := hstep
      exact ⟨_, rfl, h.newTimer hnew⟩
  | newTimerElsewhere =>
      cases hstep
      exact ⟨_, rfl, h.newTimerElsewhere⟩
  | addTimerInLoop timerId clock =>
      simp only [TimerHistory.step] at hstep
      split at hstep
      · rename_i hmem
        obtain ⟨q, hadd, hinv⟩ := h.addTimerInLoop hmem clock
        rw [hadd] at hstep
        cases hstep
        exact ⟨_, rfl, hinv⟩
      · cases hstep
  | cancelInLoop timerId =>
      obtain ⟨q, hcancel, hinv⟩ := h.cancelInLoop timerId
      simp only [TimerHistory.step, hcancel] at hstep
      cases hstep
      exact ⟨_, rfl, hinv⟩

end Steps

theorem reachable_reuseInv {s : TimerHistory} (h : reuseSystem.Reachable s) : ReuseInv s := by
  refine h.invariant ?_ ?_
  · rintro s rfl
    constructor
    · exact TimerQueue.create_setsAgree
    · simp [TimerHistory.Live, TimerQueue.create]
    · simp
    · simp
    · simp
    · rfl
  · intro s label s' _ _ hinv hnext
    obtain ⟨s'', heq, hinv'⟩ := hinv.step hnext
    cases heq
    exact hinv'

/-! ### Cancelling -/

section Cancel

variable {s : TimerHistory} {timerId : ActiveTimer}

theorem ReuseInv.cancel_live (h : ReuseInv s) (hlive : s.Live timerId) :
    ∃ timer, s.queue.heap timerId.1 = some timer ∧ timer.sequence = timerId.2 ∧
      toLex (timer.expiration, timerId.1) ∈ s.queue.timers ∧ timerId ∈ s.queue.activeTimers ∧
      s.queue.cancelInLoop false timerId = .ok { s.queue with
        timers := s.queue.timers.erase (toLex (timer.expiration, timerId.1))
        activeTimers := s.queue.activeTimers.erase timerId
        heap := Function.update s.queue.heap timerId.1 none } := by
  have hactive := (h.live timerId).mpr hlive
  obtain ⟨timer, hheap, hseq⟩ := h.agree.active timerId.1 timerId.2 hactive
  have hentry := (h.agree.timers timer.expiration timerId.1).mpr
    ⟨timer, hheap, by rw [hseq]; exact hactive, rfl⟩
  refine ⟨timer, hheap, hseq, hentry, hactive, ?_⟩
  obtain ⟨q, hcancel, -⟩ := h.cancelInLoop timerId
  rw [hcancel]
  rcases TimerQueue.cancelInLoop_eq hcancel with ⟨-, timer', hheap', rfl⟩ | ⟨hnot, -⟩
  · rw [hheap] at hheap'
    cases hheap'
    rfl
  · exact absurd hactive hnot

theorem ReuseInv.cancel_stale (h : ReuseInv s) (hstale : ¬ s.Live timerId) :
    s.queue.cancelInLoop false timerId = .ok s.queue := by
  have hout : timerId ∉ s.queue.activeTimers := fun hin => hstale ((h.live timerId).mp hin)
  obtain ⟨q, hcancel, -⟩ := h.cancelInLoop timerId
  rw [hcancel]
  rcases TimerQueue.cancelInLoop_eq hcancel with ⟨hin, -⟩ | ⟨-, rfl⟩
  · exact absurd hin hout
  · rw [if_neg (by rw [h.idle]; decide)]

/-- One address has one live timer. -/
theorem ReuseInv.live_eq_of_addr (h : ReuseInv s) {other : ActiveTimer} (hlive : s.Live timerId)
    (hother : s.Live other) (haddr : other.1 = timerId.1) : other = timerId := by
  have hexists : s.queue.Exists timerId := h.agree.active _ _ ((h.live timerId).mpr hlive)
  have hexists' : s.queue.Exists other := h.agree.active _ _ ((h.live other).mpr hother)
  exact hexists'.eq_of_addr hexists haddr

theorem ReuseInv.default_stale (h : ReuseInv s) : ¬ s.Live TimerId.default := by
  intro hlive
  exact absurd (h.numbered _ (Finset.mem_union_right _ hlive.1)).1 (Nat.lt_irrefl 0)

end Cancel

/-- **Cancelling touches only the timer meant.** After any order of allocations, additions and
cancels, a cancel of a live id finds the timer in both sets, takes exactly these two elements
out and deletes the object; a cancel of any other id (cancelled before, default, never handed
out) changes nothing, also when another live timer is at the same address. -/
theorem cancel_touches_only_its_timer {s : TimerHistory} (h : reuseSystem.Reachable s)
    (timerId : ActiveTimer) :
    (s.Live timerId →
      ∃ timer, s.queue.heap timerId.1 = some timer ∧ timer.sequence = timerId.2 ∧
        toLex (timer.expiration, timerId.1) ∈ s.queue.timers ∧ timerId ∈ s.queue.activeTimers ∧
        s.queue.cancelInLoop false timerId = .ok { s.queue with
          timers := s.queue.timers.erase (toLex (timer.expiration, timerId.1))
          activeTimers := s.queue.activeTimers.erase timerId
          heap := Function.update s.queue.heap timerId.1 none }) ∧
    (¬ s.Live timerId → s.queue.cancelInLoop false timerId = .ok s.queue) ∧
    (∀ other, s.Live other → other.1 = timerId.1 → other ≠ timerId →
      s.queue.cancelInLoop false timerId = .ok s.queue) ∧
    ¬ s.Live TimerId.default := by
  have hinv := reachable_reuseInv h
  refine ⟨hinv.cancel_live, hinv.cancel_stale, ?_, hinv.default_stale⟩
  intro other hother haddr hne
  apply hinv.cancel_stale
  intro hlive
  exact hne (hinv.live_eq_of_addr hlive hother haddr)

/-- The address of a cancelled timer is given to the next one: the old id is stale, the new
one is live, and a cancel of the old one changes nothing. -/
theorem cancel_touches_only_its_timer_recycled :
    ∃ s, reuseSystem.Reachable s ∧ s.Live (8, 3) ∧ (8, 1) ∈ s.cancelled ∧
      s.queue.cancelInLoop false (8, 1) = .ok s.queue := by
  obtain ⟨s, hs, hp⟩ := reuseSystem.exists_reachable_of_replay
    [.newTimer 8 100 0, .addTimerInLoop (8, 1) 0, .cancelInLoop (8, 1), .newTimerElsewhere,
      .newTimer 8 200 0, .addTimerInLoop (8, 3) 0] ⟨.create, ∅, ∅, ∅⟩
    (fun s => decide (s.Live (8, 3) ∧ (8, 1) ∈ s.cancelled)) rfl (by decide +kernel)
  obtain ⟨hlive, hcancelled⟩ := of_decide_eq_true hp
  have hstale : ¬ s.Live (8, 1) := fun hl => hl.2 hcancelled
  exact ⟨s, hs, hlive, hcancelled, (cancel_touches_only_its_timer hs (8, 1)).2.1 hstale⟩

end Reactor
