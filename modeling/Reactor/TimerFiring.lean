import Reactor.TimerQueue

/-!
# When timers run

The queue as built with `NDEBUG`, where the assertions are gone: operations in any order, with
any clock, and callbacks that add and cancel timers. What happens is recorded, one list of
events for each operation.

* `TimerQueue.runExpired_rule` - an invariant of every call a callback makes and of every run of
  a callback is an invariant of `handleRead`'s loop.
* `TimerQueue.Sound` - what the sets say about the heap, whether or not timers have expired.
* `one_shot_runs_twice` - an expired timer stays in `_timers` and runs again.
* `timers_fire_once` - in runs whose `handleRead` finds no such leftover, timers fire as they
  should.
-/

namespace Reactor

open Reactor.Lib

/-- A timer was added, its callback was run by a `handleRead` that read the clock at `now`, or
`cancelInLoop` was executed for its id. -/
inductive TimerEvent where
  | added (timerId : ActiveTimer) (expiration : Int)
  | ran (timerId : ActiveTimer) (interval now : Int)
  | cancelled (timerId : ActiveTimer)
deriving DecidableEq, Repr

/-- The timer that was run. -/
def TimerEvent.ranId : TimerEvent → Option ActiveTimer
  | .ran timerId _ _ => some timerId
  | _ => none

namespace TimerQueue

/-! ### Events -/

/-- A number that was not given out yet is no timer's. -/
def callEvents (q : TimerQueue) : TimerCall → List TimerEvent
  | .addTimer addr expiration _ _ => [.added (addr, q.numCreated + 1) expiration]
  | .cancel timerId => if timerId.2 ≤ q.numCreated then [.cancelled timerId] else []

def runCallsEvents : List TimerCall → TimerQueue → List TimerEvent
  | [], _ => []
  | c :: rest, q =>
      q.callEvents c ++
        match q.call true c with
        | some (.ok q') => runCallsEvents rest q'
        | _ => []

def runExpiredEvents (now : Int) (callback : Nat → List TimerCall) :
    List TimerEntry → TimerQueue → List TimerEvent
  | [], _ => []
  | e :: rest, q =>
      match q.heap (ofLex e).2 with
      | none => []
      | some timer =>
          .ran ((ofLex e).2, timer.sequence) timer.interval now ::
            (runCallsEvents (callback (ofLex e).2) q ++
              match runCalls true (callback (ofLex e).2) q with
              | some (.ok q') => runExpiredEvents now callback rest q'
              | _ => [])

/-- The queue when `handleRead` starts to run callbacks. -/
def calling (q : TimerQueue) : TimerQueue :=
  { q with callingExpiredTimers := true, cancelingTimers := ∅ }

def handleReadEvents (q : TimerQueue) (now : Int) (callback : Nat → List TimerCall) :
    List TimerEvent :=
  match q.getExpired true now with
  | .error _ => []
  | .ok (expired, q') => runExpiredEvents now callback expired q'.calling

/-- What a `handleRead` that returns went through. -/
theorem handleRead_eq {q q' : TimerQueue} {now : Int} {callback : Nat → List TimerCall}
    (hread : q.handleRead true now callback = some (.ok q')) :
    ∃ expired q₁ q₂, q.getExpired true now = .ok (expired, q₁) ∧
      runExpired true callback expired q₁.calling = some (.ok q₂) ∧
      q.handleReadEvents now callback = runExpiredEvents now callback expired q₁.calling ∧
      q' = { q₂ with callingExpiredTimers := false } := by
  unfold TimerQueue.handleRead at hread
  cases hget : q.getExpired true now with
  | error f => simp [hget] at hread
  | ok r =>
      simp only [hget] at hread
      obtain ⟨q₂, hloop, rfl⟩ := map_eq_some_ok.mp hread
      exact ⟨r.1, r.2, q₂, rfl, hloop, by simp only [handleReadEvents, hget], rfl⟩

/-! ### Rules for the loops -/

/-- Every call of the list meets `P` when it is made. -/
def CallsMeet (P : TimerQueue → TimerCall → Prop) : List TimerCall → TimerQueue → Prop
  | [], _ => True
  | c :: rest, q => P q c ∧ ∀ q', q.call true c = some (.ok q') → CallsMeet P rest q'

/-- Every call of the callbacks meets `P` when it is made. -/
def ExpiredMeet (P : TimerQueue → TimerCall → Prop) (callback : Nat → List TimerCall) :
    List TimerEntry → TimerQueue → Prop
  | [], _ => True
  | e :: rest, q =>
      CallsMeet P (callback (ofLex e).2) q ∧
        ∀ q', runCalls true (callback (ofLex e).2) q = some (.ok q') → ExpiredMeet P callback rest q'

section Rules

variable {P : TimerQueue → TimerCall → Prop}

/-- What every call keeps, a list of calls keeps. -/
theorem runCalls_rule {I : TimerQueue → List TimerEvent → Prop}
    (hcall : ∀ q log c q', I q log → P q c → q.call true c = some (.ok q') →
      I q' (log ++ q.callEvents c)) :
    ∀ {calls : List TimerCall} {q q' : TimerQueue} {log : List TimerEvent}, I q log →
      CallsMeet P calls q → runCalls true calls q = some (.ok q') →
      I q' (log ++ runCallsEvents calls q) := by
  intro calls
  induction calls with
  | nil =>
      intro q q' log hI _ hrun
      simp only [runCalls, Option.some.injEq, Except.ok.injEq] at hrun
      subst hrun
      simpa [runCallsEvents] using hI
  | cons c rest ih =>
      intro q q' log hI hmeet hrun
      simp only [runCalls] at hrun
      split at hrun
      · cases hrun
      · cases hrun
      · rename_i q₁ hc
        have hI₁ := hcall q log c q₁ hI hmeet.1 hc
        have hlast := ih hI₁ (hmeet.2 q₁ hc) hrun
        simpa only [runCallsEvents, hc, List.append_assoc] using hlast

/-- What every call of a callback and every run of one keeps, `handleRead`'s loop keeps. The
invariant also sees the entries still to be run. -/
theorem runExpired_rule {I : List TimerEntry → TimerQueue → List TimerEvent → Prop} {now : Int}
    {callback : Nat → List TimerCall}
    (hcall : ∀ es q log c q', I es q log → P q c → q.call true c = some (.ok q') →
      I es q' (log ++ q.callEvents c))
    (hrun : ∀ e es q log timer, I (e :: es) q log → q.heap (ofLex e).2 = some timer →
      I es q (log ++ [.ran ((ofLex e).2, timer.sequence) timer.interval now])) :
    ∀ {expired : List TimerEntry} {q q' : TimerQueue} {log : List TimerEvent}, I expired q log →
      ExpiredMeet P callback expired q → runExpired true callback expired q = some (.ok q') →
      I [] q' (log ++ runExpiredEvents now callback expired q) := by
  intro expired
  induction expired with
  | nil =>
      intro q q' log hI _ hloop
      simp only [runExpired, Option.some.injEq, Except.ok.injEq] at hloop
      subst hloop
      simpa [runExpiredEvents] using hI
  | cons e rest ih =>
      intro q q' log hI hmeet hloop
      simp only [runExpired, deref] at hloop
      cases hheap : q.heap (ofLex e).2 with
      | none => simp [hheap] at hloop
      | some timer =>
          simp only [hheap] at hloop
          split at hloop
          · cases hloop
          · cases hloop
          · rename_i q₁ hcalls
            have hI₁ := runCalls_rule (fun q log c q' => hcall rest q log c q')
              (hrun e rest q log timer hI hheap) hmeet.1 hcalls
            have hlast := ih hI₁ (hmeet.2 q₁ hcalls) hloop
            simpa only [runExpiredEvents, hheap, hcalls, List.append_assoc, List.cons_append,
              List.nil_append] using hlast

/-- Callbacks that call nothing meet anything. -/
theorem expiredMeet_silent (expired : List TimerEntry) (q : TimerQueue) :
    ExpiredMeet P (fun _ => []) expired q := by
  induction expired generalizing q with
  | nil => exact trivial
  | cons e rest ih => exact ⟨trivial, fun q' _ => ih q'⟩

end Rules

/-! ### The sets and the heap -/

/-- What the sets say about the heap, whatever has expired: an active timer exists and has its
entry, an entry belongs to a timer with its expiration, and the timers that other threads have
created are in neither set. -/
structure Sound (q : TimerQueue) (created : Finset Nat) : Prop where
  active : ∀ timerId ∈ q.activeTimers, ∃ timer, q.heap timerId.1 = some timer ∧
    timer.sequence = timerId.2 ∧ toLex (timer.expiration, timerId.1) ∈ q.timers
  entry : ∀ expiration addr, toLex (expiration, addr) ∈ q.timers →
    ∃ timer, q.heap addr = some timer ∧ timer.expiration = expiration
  created : ∀ addr ∈ created, (∃ timer, q.heap addr = some timer) ∧
    (∀ sequence, (addr, sequence) ∉ q.activeTimers) ∧
    ∀ expiration, toLex (expiration, addr) ∉ q.timers
  numbered : ∀ addr timer, q.heap addr = some timer → timer.sequence ≤ q.numCreated

section Sound

variable {q q' : TimerQueue} {created : Finset Nat} {addr : Nat}

theorem create_sound : create.Sound ∅ where
  active := by simp [create]
  entry := by simp [create]
  created := by simp
  numbered := by simp [create]

/-- An address that is not in use is in neither set. -/
theorem Sound.free (h : q.Sound created) (hfree : q.heap addr = none) :
    (∀ sequence, (addr, sequence) ∉ q.activeTimers) ∧ addr ∉ created ∧
      ∀ expiration, toLex (expiration, addr) ∉ q.timers := by
  refine ⟨fun sequence hmem => ?_, fun hmem => ?_, fun expiration hmem => ?_⟩
  · obtain ⟨timer, hheap, -⟩ := h.active _ hmem
    cases hfree.symm.trans hheap
  · obtain ⟨⟨timer, hheap⟩, -⟩ := h.created addr hmem
    cases hfree.symm.trans hheap
  · obtain ⟨timer, hheap, -⟩ := h.entry _ _ hmem
    cases hfree.symm.trans hheap

theorem Sound.newTimer (h : q.Sound created) {expiration interval : Int}
    (hnew : q.newTimer addr expiration interval = some q') :
    q'.Sound (Insert.insert addr created) := by
  obtain ⟨hfree, -, -, rfl⟩ := newTimer_eq hnew
  obtain ⟨hinactive, -, hentry⟩ := h.free hfree
  constructor
  · intro timerId hmem
    obtain ⟨timer, hheap, hrest⟩ := h.active timerId hmem
    exact ⟨timer, newTimer_heap hnew hheap, hrest⟩
  · intro expiration' addr' hmem
    obtain ⟨timer, hheap, hexp⟩ := h.entry _ _ hmem
    exact ⟨timer, newTimer_heap hnew hheap, hexp⟩
  · intro addr' hmem
    rcases Finset.mem_insert.mp hmem with rfl | hmem
    · exact ⟨⟨_, Function.update_self ..⟩, hinactive, hentry⟩
    · obtain ⟨⟨timer, hheap⟩, hrest⟩ := h.created addr' hmem
      exact ⟨⟨timer, newTimer_heap hnew hheap⟩, hrest⟩
  · intro addr' timer hheap
    rcases newTimer_heap_cases hnew hheap with ⟨-, rfl⟩ | hheap
    · exact Nat.le_refl _
    · exact Nat.le_succ_of_le (h.numbered addr' timer hheap)

/-- A timer that was created and not added is added. -/
theorem Sound.addTimerInLoop (h : q.Sound created) {clock : Int}
    (hadd : q.addTimerInLoop true addr clock = .ok q') : q'.Sound (created.erase addr) := by
  obtain ⟨timer, hheap, rfl⟩ := addTimerInLoop_eq hadd
  constructor
  · intro timerId hin
    rcases Finset.mem_insert.mp hin with rfl | hin
    · exact ⟨timer, hheap, rfl, Finset.mem_insert_self _ _⟩
    · obtain ⟨timer', hheap', hseq, hentry⟩ := h.active timerId hin
      exact ⟨timer', hheap', hseq, Finset.mem_insert_of_mem hentry⟩
  · intro expiration addr' hin
    rcases Finset.mem_insert.mp hin with heq | hin
    · cases toLex.injective heq
      exact ⟨timer, hheap, rfl⟩
    · exact h.entry _ _ hin
  · intro addr' hin
    obtain ⟨hne, hin⟩ := Finset.mem_erase.mp hin
    obtain ⟨hex, hinactive, hentry⟩ := h.created addr' hin
    refine ⟨hex, fun sequence hact => ?_, fun expiration hent => ?_⟩
    · rcases Finset.mem_insert.mp hact with heq | hact
      · exact hne (Prod.mk.inj heq).1
      · exact hinactive sequence hact
    · rcases Finset.mem_insert.mp hent with heq | hent
      · exact hne (Prod.mk.inj (toLex.injective heq)).2
      · exact hentry expiration hent
  · exact h.numbered

theorem Sound.cancelInLoop (h : q.Sound created) {timerId : ActiveTimer}
    (hcancel : q.cancelInLoop true timerId = .ok q') : q'.Sound created := by
  rcases cancelInLoop_eq hcancel with ⟨hactive, timer, hheap, rfl⟩ | ⟨-, rfl⟩
  · obtain ⟨timer', hheap', hseq, -⟩ := h.active timerId hactive
    cases hheap.symm.trans hheap'
    -- the deleted timer was the only one at its address
    have hne : ∀ timerId' ∈ q.activeTimers, timerId' ≠ timerId → timerId'.1 ≠ timerId.1 := by
      intro timerId' hmem hne haddr
      obtain ⟨timer', hheap', hseq', -⟩ := h.active timerId' hmem
      rw [haddr] at hheap'
      cases hheap.symm.trans hheap'
      exact hne (Prod.ext haddr (hseq'.symm.trans hseq))
    constructor
    · intro timerId' hmem
      obtain ⟨hdiff, hmem⟩ := Finset.mem_erase.mp hmem
      have haddr := hne timerId' hmem hdiff
      obtain ⟨timer', hheap', hseq', hentry⟩ := h.active timerId' hmem
      refine ⟨timer', by simpa only [Function.update_of_ne haddr] using hheap', hseq', ?_⟩
      rw [Finset.mem_erase]
      exact ⟨fun heq => haddr (Prod.mk.inj (toLex.injective heq)).2, hentry⟩
    · intro expiration addr' hmem
      obtain ⟨hdiff, hmem⟩ := Finset.mem_erase.mp hmem
      obtain ⟨timer', hheap', hexp⟩ := h.entry _ _ hmem
      have haddr : addr' ≠ timerId.1 := by
        rintro rfl
        cases hheap.symm.trans hheap'
        exact hdiff (by rw [hexp])
      exact ⟨timer', by simpa only [Function.update_of_ne haddr] using hheap', hexp⟩
    · intro addr' hmem
      obtain ⟨⟨timer', hheap'⟩, hinactive, hentry⟩ := h.created addr' hmem
      have haddr : addr' ≠ timerId.1 := by
        rintro rfl
        exact hinactive _ hactive
      exact ⟨⟨timer', by simpa only [Function.update_of_ne haddr] using hheap'⟩,
        fun sequence hin => hinactive sequence (Finset.mem_of_mem_erase hin),
        fun expiration hin => hentry expiration (Finset.mem_of_mem_erase hin)⟩
    · intro addr' timer' hheap'
      exact h.numbered addr' timer' (cancelInLoop_heap hcancel hheap')
  · exact ⟨h.active, h.entry, h.created, h.numbered⟩

/-- What a call of user code keeps and what it can change. -/
theorem Sound.call (h : q.Sound created) {c : TimerCall} (hcall : q.call true c = some (.ok q')) :
    q'.Sound created ∧ q.numCreated ≤ q'.numCreated ∧
      (∀ timerId ∈ q'.activeTimers, timerId ∈ q.activeTimers ∨ q.numCreated < timerId.2) ∧
      (∀ addr timer, q.heap addr = some timer → (addr, timer.sequence) ∉ q.activeTimers →
        q'.heap addr = some timer) ∧
      ∀ timerId, c = .cancel timerId → timerId ∉ q'.activeTimers := by
  cases c with
  | addTimer addr expiration interval clock =>
      simp only [TimerQueue.call, Option.map_eq_some_iff] at hcall
      obtain ⟨q₁, hnew, hadd⟩ := hcall
      have hsound := (h.newTimer hnew).addTimerInLoop hadd
      obtain ⟨hfree, -, -, rfl⟩ := newTimer_eq hnew
      rw [Finset.erase_insert (h.free hfree).2.1] at hsound
      obtain ⟨timer, hheap, rfl⟩ := addTimerInLoop_eq hadd
      simp only [Function.update_self, Option.some.injEq] at hheap
      subst hheap
      refine ⟨hsound, Nat.le_succ _, fun timerId hmem => ?_, fun addr' timer hheap _ => ?_,
        by simp⟩
      · rcases Finset.mem_insert.mp hmem with rfl | hmem
        · exact Or.inr (Nat.lt_succ_self _)
        · exact Or.inl hmem
      · have hkept := newTimer_heap hnew hheap
        exact hkept
  | cancel timerId =>
      simp only [TimerQueue.call, Option.some.injEq] at hcall
      have hsound := h.cancelInLoop hcall
      rcases cancelInLoop_eq hcall with ⟨hactive, timer, hheap, rfl⟩ | ⟨hinactive, rfl⟩
      · obtain ⟨timer', hheap', hseq, -⟩ := h.active timerId hactive
        cases hheap.symm.trans hheap'
        refine ⟨hsound, Nat.le_refl _, fun id hmem => Or.inl (Finset.mem_of_mem_erase hmem),
          fun addr' timer' hheap' hnot => ?_, ?_⟩
        · have hne : addr' ≠ timerId.1 := by
            rintro rfl
            cases hheap.symm.trans hheap'
            rw [hseq] at hnot
            exact hnot hactive
          simpa only [Function.update_of_ne hne] using hheap'
        · intro id heq
          cases heq
          simp
      · refine ⟨hsound, Nat.le_refl _, fun id hmem => Or.inl hmem, fun _ _ hheap _ => hheap, ?_⟩
        intro id heq
        cases heq
        exact hinactive

/-- `eraseExpired` takes the timers of the entries out of `_activeTimers` and does nothing
else. -/
theorem eraseExpired_eq : ∀ {expired : List TimerEntry} {q q' : TimerQueue},
    eraseExpired true expired q = .ok q' →
      (∃ active, active ⊆ q.activeTimers ∧ q' = { q with activeTimers := active }) ∧
        ∀ e ∈ expired, ∃ timer, q.heap (ofLex e).2 = some timer ∧
          ((ofLex e).2, timer.sequence) ∉ q'.activeTimers := by
  intro expired
  induction expired with
  | nil =>
      intro q q' h
      cases h
      exact ⟨⟨q.activeTimers, Finset.Subset.refl _, rfl⟩, by simp⟩
  | cons e rest ih =>
      intro q q' h
      simp only [eraseExpired, bind_eq_ok] at h
      obtain ⟨timer, hderef, -, -, h⟩ := h
      have hheap : q.heap (ofLex e).2 = some timer := by
        unfold deref at hderef
        split at hderef <;> cases hderef
        assumption
      obtain ⟨⟨active, hsub, rfl⟩, hrest⟩ := ih h
      refine ⟨⟨active, hsub.trans (Finset.erase_subset _ _), rfl⟩, fun e' he' => ?_⟩
      rcases List.mem_cons.mp he' with rfl | he'
      · refine ⟨timer, hheap, fun hmem => ?_⟩
        exact Finset.notMem_erase _ _ (hsub hmem)
      · exact hrest e' he'

/-- The entries of `_timers` that `getExpired` copies. -/
def dueEntries (q : TimerQueue) (now : Int) : List TimerEntry :=
  q.timers.sort.takeWhile (· < (toLex (now, uintptrMax) : TimerEntry))

theorem getExpired_eq {now : Int} {expired : List TimerEntry}
    (h : q.getExpired true now = .ok (expired, q')) :
    expired = q.dueEntries now ∧
      (∃ active, active ⊆ q.activeTimers ∧ q' = { q with activeTimers := active }) ∧
      ∀ e ∈ expired, ∃ timer, q.heap (ofLex e).2 = some timer ∧
        ((ofLex e).2, timer.sequence) ∉ q'.activeTimers := by
  simp only [getExpired, bind_eq_ok, Except.ok.injEq, Prod.mk.injEq] at h
  obtain ⟨-, -, -, -, q₁, herase, -, -, rfl, rfl⟩ := h
  obtain ⟨hq, hexpired⟩ := eraseExpired_eq herase
  exact ⟨rfl, hq, hexpired⟩

theorem mem_dueEntries {now : Int} {e : TimerEntry} (h : e ∈ q.dueEntries now) :
    e ∈ q.timers ∧ e < (toLex (now, uintptrMax) : TimerEntry) := by
  refine ⟨(Finset.mem_sort _).mp ((List.takeWhile_prefix _).subset h), ?_⟩
  simpa using List.mem_takeWhile_imp h

/-- Every entry before the sentry is copied: the entries in front of it are not later. -/
theorem mem_dueEntries_of {now : Int} {e : TimerEntry} (he : e ∈ q.timers)
    (hlt : e < (toLex (now, uintptrMax) : TimerEntry)) : e ∈ q.dueEntries now := by
  have hmem := (Finset.mem_sort (· ≤ ·)).mpr he
  have hsorted := Finset.pairwise_sort q.timers (· ≤ ·)
  unfold dueEntries
  generalize q.timers.sort = entries at hmem hsorted
  induction entries with
  | nil => cases hmem
  | cons first rest ih =>
      have hpair := List.pairwise_cons.mp hsorted
      rcases List.mem_cons.mp hmem with rfl | hmem
      · simp [hlt]
      · have hfirst : first < (toLex (now, uintptrMax) : TimerEntry) :=
          lt_of_le_of_lt (hpair.1 e hmem) hlt
        simp only [List.takeWhile_cons, hfirst, decide_true, if_true, List.mem_cons]
        exact Or.inr (ih hmem hpair.2)

theorem dueEntries_nodup (q : TimerQueue) (now : Int) : (q.dueEntries now).Nodup :=
  (Finset.sort_nodup _ _).sublist (List.takeWhile_prefix _).sublist

theorem Sound.getExpired (h : q.Sound created) {now : Int} {expired : List TimerEntry}
    (hget : q.getExpired true now = .ok (expired, q')) : q'.calling.Sound created := by
  obtain ⟨-, ⟨active, hsub, rfl⟩, -⟩ := getExpired_eq hget
  refine ⟨fun timerId hmem => h.active timerId (hsub hmem), h.entry, fun addr hmem => ?_, h.numbered⟩
  obtain ⟨hex, hinactive, hentry⟩ := h.created addr hmem
  exact ⟨hex, fun sequence hin => hinactive sequence (hsub hin), hentry⟩

end Sound

/-! ### Spent timers -/

/-- The timer was created but its `addTimerInLoop` has not run. -/
def Pending (q : TimerQueue) (created : Finset Nat) (timerId : ActiveTimer) : Prop :=
  timerId.1 ∈ created ∧ q.Exists timerId

/-- The id was given out, and its timer will not become active any more. -/
structure Spent (q : TimerQueue) (created : Finset Nat) (timerId : ActiveTimer) : Prop where
  issued : timerId.2 ≤ q.numCreated
  inactive : timerId ∉ q.activeTimers
  added : ¬ q.Pending created timerId

section Spent

variable {q q' : TimerQueue} {created : Finset Nat} {timerId : ActiveTimer}

theorem Sound.pending_call (h : q.Sound created) {c : TimerCall}
    (hcall : q.call true c = some (.ok q')) (hp : q'.Pending created timerId) :
    q.Pending created timerId := by
  obtain ⟨-, -, -, hheap, -⟩ := h.call hcall
  obtain ⟨hmem, timer', hheap', hseq⟩ := hp
  obtain ⟨⟨timer, hold⟩, hinactive, -⟩ := h.created _ hmem
  cases (hheap _ _ hold (hinactive _)).symm.trans hheap'
  exact ⟨hmem, _, hold, hseq⟩

theorem Spent.call (hs : q.Spent created timerId) (h : q.Sound created) {c : TimerCall}
    (hcall : q.call true c = some (.ok q')) : q'.Spent created timerId := by
  obtain ⟨-, hnum, hactive, -, -⟩ := h.call hcall
  refine ⟨hs.issued.trans hnum, fun hmem => ?_, fun hp => hs.added (h.pending_call hcall hp)⟩
  rcases hactive timerId hmem with hmem | hlt
  · exact hs.inactive hmem
  · exact absurd hs.issued (Nat.not_le_of_lt hlt)

/-- A timer is spent once `cancelInLoop` has run for its id, unless it was still to be added. -/
theorem Sound.spent_of_cancel (h : q.Sound created)
    (hcall : q.call true (.cancel timerId) = some (.ok q')) (hissued : timerId.2 ≤ q.numCreated)
    (hadded : ¬ q.Pending created timerId) : q'.Spent created timerId := by
  obtain ⟨-, hnum, -, -, hcancel⟩ := h.call hcall
  exact ⟨hissued.trans hnum, hcancel timerId rfl, fun hp => hadded (h.pending_call hcall hp)⟩

end Spent

/-- The id of the timer an entry belongs to. -/
def idOf (q : TimerQueue) (e : TimerEntry) : ActiveTimer :=
  ((ofLex e).2, (q.heap (ofLex e).2).elim 0 Timer.sequence)

/-- Entries of different timers. -/
theorem Sound.idOf_injOn {q : TimerQueue} {created : Finset Nat} (h : q.Sound created)
    {e e' : TimerEntry} (he : e ∈ q.timers) (he' : e' ∈ q.timers) (heq : q.idOf e = q.idOf e') :
    e = e' := by
  have haddr : (ofLex e).2 = (ofLex e').2 := (Prod.mk.inj heq).1
  obtain ⟨timer, hheap, hexp⟩ := h.entry (ofLex e).1 (ofLex e).2 he
  obtain ⟨timer', hheap', hexp'⟩ := h.entry (ofLex e').1 (ofLex e').2 he'
  rw [haddr] at hheap
  cases hheap.symm.trans hheap'
  exact ofLex.injective (Prod.ext (hexp.symm.trans hexp') haddr)

/-- No call cancels a timer that was created and is still to be added. -/
def CancelsAdded (created : Finset Nat) (q : TimerQueue) (c : TimerCall) : Prop :=
  ∀ timerId, c = .cancel timerId → ¬ q.Pending created timerId

/-- The timers that `handleRead`, called on `q₀`, has still to run are there and spent. -/
structure Remaining (q₀ : TimerQueue) (created : Finset Nat) (expired : List TimerEntry)
    (q : TimerQueue) : Prop where
  sound : q.Sound created
  rest : ∀ e ∈ expired, q.heap (ofLex e).2 = q₀.heap (ofLex e).2 ∧
    (∃ timer, q.heap (ofLex e).2 = some timer) ∧ q.Spent created (q₀.idOf e)

/-- What `handleRead` has run so far, and what is spent. -/
structure FiringLoop (q₀ : TimerQueue) (created : Finset Nat) (ids : List ActiveTimer)
    (expired : List TimerEntry) (q : TimerQueue) (log : List TimerEvent) : Prop
    extends Remaining q₀ created expired q where
  ran : log.filterMap TimerEvent.ranId ++ expired.map q₀.idOf = ids
  spent : ∀ timerId, timerId ∈ log.filterMap TimerEvent.ranId ∨ .cancelled timerId ∈ log →
    q.Spent created timerId
  kept : ∀ timerId, q₀.Spent created timerId → q.Spent created timerId

section Firing

variable {q₀ q q' : TimerQueue} {created : Finset Nat} {ids : List ActiveTimer}
  {expired : List TimerEntry} {log : List TimerEvent}

theorem ranId_callEvents (q : TimerQueue) (c : TimerCall) :
    (q.callEvents c).filterMap TimerEvent.ranId = [] := by
  cases c with
  | addTimer addr expiration interval clock => rfl
  | cancel timerId =>
      rw [callEvents]
      split <;> rfl

theorem cancelled_callEvents {c : TimerCall} {timerId : ActiveTimer}
    (h : .cancelled timerId ∈ q.callEvents c) :
    c = .cancel timerId ∧ timerId.2 ≤ q.numCreated := by
  cases c with
  | addTimer addr expiration interval clock => simp [callEvents] at h
  | cancel timerId' =>
      rw [callEvents] at h
      split at h
      · rename_i hle
        cases List.mem_singleton.mp h
        exact ⟨rfl, hle⟩
      · simp at h

theorem idOf_eq {e : TimerEntry} {timer : Timer} (h : q.heap (ofLex e).2 = some timer) :
    q.idOf e = ((ofLex e).2, timer.sequence) := by
  rw [idOf, h]
  rfl

/-- The id of the timer that `handleRead` runs next. -/
theorem Remaining.idOf_eq {e : TimerEntry} {timer : Timer} (h : Remaining q₀ created expired q)
    (he : e ∈ expired) (hheap : q.heap (ofLex e).2 = some timer) :
    q₀.idOf e = ((ofLex e).2, timer.sequence) :=
  TimerQueue.idOf_eq ((h.rest e he).1.symm.trans hheap)

/-- No call touches a timer that is still to be run. -/
theorem Remaining.call {c : TimerCall} (h : Remaining q₀ created expired q)
    (hcall : q.call true c = some (.ok q')) : Remaining q₀ created expired q' := by
  obtain ⟨hsound, -, -, hheap, -⟩ := h.sound.call hcall
  refine ⟨hsound, fun e he => ?_⟩
  obtain ⟨hsame, ⟨timer, htimer⟩, hspent⟩ := h.rest e he
  have hkept := hheap _ _ htimer (by rw [← h.idOf_eq he htimer]; exact hspent.inactive)
  exact ⟨by rw [hkept, ← hsame, htimer], ⟨timer, hkept⟩, hspent.call h.sound hcall⟩

/-- The timers of the entries that `getExpired` returned. -/
theorem Sound.remaining (h : q.Sound created) {now : Int}
    (hget : q.getExpired true now = .ok (expired, q')) : Remaining q created expired q'.calling := by
  have hsound := h.getExpired hget
  obtain ⟨rfl, ⟨active, hsub, rfl⟩, hexp⟩ := getExpired_eq hget
  refine ⟨hsound, fun e he => ?_⟩
  obtain ⟨timer, hheap, hinactive⟩ := hexp e he
  obtain ⟨hmem, -⟩ := mem_dueEntries he
  refine ⟨rfl, ⟨timer, hheap⟩, ?_, ?_, ?_⟩
  · rw [TimerQueue.idOf_eq hheap]
    exact h.numbered _ _ hheap
  · rw [TimerQueue.idOf_eq hheap]
    exact hinactive
  · rintro ⟨hcreated, -⟩
    exact (h.created _ hcreated).2.2 _ hmem

theorem FiringLoop.call {c : TimerCall} (h : FiringLoop q₀ created ids expired q log)
    (hadded : CancelsAdded created q c) (hcall : q.call true c = some (.ok q')) :
    FiringLoop q₀ created ids expired q' (log ++ q.callEvents c) := by
  refine ⟨h.toRemaining.call hcall, ?_, fun timerId hid => ?_,
    fun timerId hs => (h.kept timerId hs).call h.sound hcall⟩
  · rw [List.filterMap_append, ranId_callEvents, List.append_nil]
    exact h.ran
  · rw [List.filterMap_append, ranId_callEvents, List.append_nil, List.mem_append] at hid
    rcases hid with hid | hid | hid
    · exact (h.spent timerId (Or.inl hid)).call h.sound hcall
    · exact (h.spent timerId (Or.inr hid)).call h.sound hcall
    · obtain ⟨rfl, hissued⟩ := cancelled_callEvents hid
      exact h.sound.spent_of_cancel hcall hissued (hadded timerId rfl)

theorem FiringLoop.run {e : TimerEntry} {timer : Timer} {now : Int}
    (h : FiringLoop q₀ created ids (e :: expired) q log)
    (hheap : q.heap (ofLex e).2 = some timer) :
    FiringLoop q₀ created ids expired q
      (log ++ [.ran ((ofLex e).2, timer.sequence) timer.interval now]) := by
  obtain ⟨-, -, hspent⟩ := h.rest e (by simp)
  have hid := h.toRemaining.idOf_eq List.mem_cons_self hheap
  have hlog : (log ++ [TimerEvent.ran ((ofLex e).2, timer.sequence) timer.interval now]).filterMap
      TimerEvent.ranId = log.filterMap TimerEvent.ranId ++ [q₀.idOf e] := by
    rw [hid, List.filterMap_append]
    rfl
  refine ⟨⟨h.sound, fun e' he' => h.rest e' (List.mem_cons_of_mem _ he')⟩, ?_,
    fun timerId hmem => ?_, h.kept⟩
  · rw [hlog, List.append_assoc]
    exact h.ran
  · rw [hlog] at hmem
    simp only [List.mem_append, List.mem_singleton, reduceCtorEq, or_false] at hmem
    rcases hmem with (hmem | rfl) | hmem
    · exact h.spent timerId (Or.inl hmem)
    · exact hspent
    · exact h.spent timerId (Or.inr hmem)

/-- `handleRead` runs the timers of the entries that are due, in order, and leaves all of them
and all that were cancelled meanwhile spent. -/
theorem Sound.handleRead {now : Int} {callback : Nat → List TimerCall} (h : q.Sound created)
    (hread : q.handleRead true now callback = some (.ok q'))
    (hadded : ∀ expired q₁, q.getExpired true now = .ok (expired, q₁) →
      ExpiredMeet (CancelsAdded created) callback expired q₁.calling) :
    q'.Sound created ∧
      (q.handleReadEvents now callback).filterMap TimerEvent.ranId =
        (q.dueEntries now).map q.idOf ∧
      (∀ timerId, timerId ∈ (q.handleReadEvents now callback).filterMap TimerEvent.ranId ∨
        .cancelled timerId ∈ q.handleReadEvents now callback → q'.Spent created timerId) ∧
      ∀ timerId, q.Spent created timerId → q'.Spent created timerId := by
  obtain ⟨expired, q₁, q₂, hget, hloop, hevents, rfl⟩ := handleRead_eq hread
  rw [hevents]
  have hremaining := h.remaining hget
  have hmeet := hadded expired q₁ hget
  obtain ⟨rfl, ⟨active, hsub, rfl⟩, -⟩ := getExpired_eq hget
  have hstart : FiringLoop q created ((q.dueEntries now).map q.idOf) (q.dueEntries now)
      (calling { q with activeTimers := active }) [] :=
    ⟨hremaining, rfl, by simp, fun timerId hs =>
      ⟨hs.issued, fun hmem => hs.inactive (hsub hmem), hs.added⟩⟩
  have hend : FiringLoop q created ((q.dueEntries now).map q.idOf) [] q₂
      ([] ++ runExpiredEvents now callback (q.dueEntries now)
        (calling { q with activeTimers := active })) :=
    runExpired_rule (fun es q log c q' hI hP hcall => hI.call hP hcall)
      (fun e es q log timer hI hheap => hI.run hheap) hstart hmeet hloop
  rw [List.nil_append] at hend
  have hran := hend.ran
  rw [List.map_nil, List.append_nil] at hran
  refine ⟨⟨hend.sound.active, hend.sound.entry, hend.sound.created, hend.sound.numbered⟩,
    hran, fun timerId hid => ?_, fun timerId hspent => ?_⟩
  · have hs := hend.spent timerId hid
    exact ⟨hs.issued, hs.inactive, hs.added⟩
  · have hs := hend.kept timerId hspent
    exact ⟨hs.issued, hs.inactive, hs.added⟩

end Firing

end TimerQueue

/-! ### Runs -/

/-- The events of an operation. -/
def TimerState.events (s : TimerState) : TimerLabel → List TimerEvent
  | .newTimer _ _ _ => []
  | .addTimerInLoop addr _ =>
      match s.queue.heap addr with
      | some timer => [.added (addr, timer.sequence) timer.expiration]
      | none => []
  | .call c => s.queue.callEvents c
  | .handleRead now callback => s.queue.handleReadEvents now callback

/-- The queue, and the events of every operation so far. -/
structure TimerRun where
  state : TimerState
  history : List (List TimerEvent)

/-- Operations in any order, with `NDEBUG`. -/
def firingSystem : System TimerRun TimerLabel Fault where
  init r := r = ⟨⟨.create, ∅⟩, []⟩
  step label r :=
    (r.state.step true label).map fun out =>
      out.map fun state => ⟨state, r.history ++ [r.state.events label]⟩

/-- Timers fire the right number of times: a timer that runs again repeats, and its interval has
passed; `handleRead` runs each timer once at most; and a timer is not run by a `handleRead` that
comes after its `cancelInLoop`. -/
structure FiresRight (history : List (List TimerEvent)) : Prop where
  again : history.flatten.Pairwise fun x y => ∀ timerId interval now interval' now',
    x = .ran timerId interval now → y = .ran timerId interval' now' →
      0 < interval ∧ now + interval ≤ now'
  once : ∀ events ∈ history, (events.filterMap TimerEvent.ranId).Nodup
  cancelled : history.Pairwise fun events later => ∀ timerId, .cancelled timerId ∈ events →
    timerId ∉ later.filterMap TimerEvent.ranId

/-- `handleRead` finds no entry of a timer that has run before: the timers of the entries that
are due are still active. And no timer is cancelled while it is still to be added. -/
def NoLeftovers (r : TimerRun) : TimerLabel → Prop
  | .call c => TimerQueue.CancelsAdded r.state.created r.state.queue c
  | .handleRead now callback =>
      (∀ e ∈ r.state.queue.dueEntries now, r.state.queue.idOf e ∈ r.state.queue.activeTimers) ∧
      ∀ expired q, r.state.queue.getExpired true now = .ok (expired, q) →
        TimerQueue.ExpiredMeet (TimerQueue.CancelsAdded r.state.created) callback expired q.calling
  | _ => True

/-- No timer has run twice, and what has run or was cancelled is spent. -/
structure FiringInv (r : TimerRun) : Prop where
  sound : r.state.queue.Sound r.state.created
  runs : (r.history.flatten.filterMap TimerEvent.ranId).Nodup
  spent : ∀ timerId, timerId ∈ r.history.flatten.filterMap TimerEvent.ranId ∨
    .cancelled timerId ∈ r.history.flatten → r.state.queue.Spent r.state.created timerId
  cancelled : r.history.Pairwise fun events later => ∀ timerId, .cancelled timerId ∈ events →
    timerId ∉ later.filterMap TimerEvent.ranId

section Runs

variable {r r' : TimerRun} {label : TimerLabel}

/-- An operation whose events run only active timers, each once. -/
theorem FiringInv.append {state : TimerState} {events : List TimerEvent} (h : FiringInv r)
    (hsound : state.queue.Sound state.created)
    (hnodup : (events.filterMap TimerEvent.ranId).Nodup)
    (hactive : ∀ timerId ∈ events.filterMap TimerEvent.ranId,
      timerId ∈ r.state.queue.activeTimers)
    (hspent : ∀ timerId, timerId ∈ events.filterMap TimerEvent.ranId ∨
      .cancelled timerId ∈ events → state.queue.Spent state.created timerId)
    (hkept : ∀ timerId, r.state.queue.Spent r.state.created timerId →
      state.queue.Spent state.created timerId) :
    FiringInv ⟨state, r.history ++ [events]⟩ := by
  have hnew : ∀ timerId, timerId ∈ r.history.flatten.filterMap TimerEvent.ranId ∨
      .cancelled timerId ∈ r.history.flatten → timerId ∉ events.filterMap TimerEvent.ranId :=
    fun timerId hold hmem => (h.spent timerId hold).inactive (hactive timerId hmem)
  refine ⟨hsound, ?_, ?_, ?_⟩
  · rw [List.flatten_append, List.flatten_singleton, List.filterMap_append, List.nodup_append]
    refine ⟨h.runs, hnodup, fun a ha b hb hab => ?_⟩
    subst hab
    exact hnew a (Or.inl ha) hb
  · intro timerId hid
    simp only [List.flatten_append, List.flatten_singleton, List.filterMap_append,
      List.mem_append] at hid
    rcases hid with (hid | hid) | hid | hid
    · exact hkept timerId (h.spent timerId (Or.inl hid))
    · exact hspent timerId (Or.inl hid)
    · exact hkept timerId (h.spent timerId (Or.inr hid))
    · exact hspent timerId (Or.inr hid)
  · rw [List.pairwise_append]
    refine ⟨h.cancelled, List.pairwise_singleton _ _, ?_⟩
    intro earlier hearlier later hlater timerId hid
    rw [List.mem_singleton.mp hlater]
    exact hnew timerId (Or.inr (List.mem_flatten.mpr ⟨earlier, hearlier, hid⟩))

theorem FiringInv.newTimer {addr : Nat} {expiration interval : Int} {q : TimerQueue}
    (h : FiringInv r) (hnew : r.state.queue.newTimer addr expiration interval = some q) :
    FiringInv ⟨⟨q, insert addr r.state.created⟩,
      r.history ++ [r.state.events (.newTimer addr expiration interval)]⟩ := by
  refine h.append (h.sound.newTimer hnew) List.nodup_nil (by simp [TimerState.events])
    (by simp [TimerState.events]) fun timerId hs => ?_
  have hadded : ¬ (timerId.1 ∈ insert addr r.state.created ∧ q.Exists timerId) := by
    rintro ⟨hmem, timer, hheap, hseq⟩
    rcases TimerQueue.newTimer_heap_cases hnew hheap with ⟨-, rfl⟩ | hheap
    · -- the new timer has a new number
      exact absurd hs.issued (by rw [← hseq]; exact Nat.not_succ_le_self _)
    · have hne := TimerQueue.newTimer_ne hnew hheap
      exact hs.added ⟨(Finset.mem_insert.mp hmem).resolve_left hne, timer, hheap, hseq⟩
  obtain ⟨-, -, -, rfl⟩ := TimerQueue.newTimer_eq hnew
  exact ⟨Nat.le_succ_of_le hs.issued, hs.inactive, hadded⟩

theorem FiringInv.addTimerInLoop {addr : Nat} {clock : Int} {q : TimerQueue} (h : FiringInv r)
    (hmem : addr ∈ r.state.created)
    (hadd : r.state.queue.addTimerInLoop true addr clock = .ok q) :
    FiringInv ⟨⟨q, r.state.created.erase addr⟩,
      r.history ++ [r.state.events (.addTimerInLoop addr clock)]⟩ := by
  have hsound := h.sound.addTimerInLoop hadd
  obtain ⟨timer, hheap, rfl⟩ := TimerQueue.addTimerInLoop_eq hadd
  have hnone : (r.state.events (.addTimerInLoop addr clock)).filterMap TimerEvent.ranId = [] := by
    simp [TimerState.events, hheap, TimerEvent.ranId]
  refine h.append hsound (by rw [hnone]; exact List.nodup_nil) (by simp [hnone])
    (by rw [hnone]; simp [TimerState.events, hheap]) fun timerId hs => ?_
  refine ⟨hs.issued, fun hin => ?_, ?_⟩
  · rcases Finset.mem_insert.mp hin with rfl | hin
    · exact hs.added ⟨hmem, timer, hheap, rfl⟩
    · exact hs.inactive hin
  · rintro ⟨hin, hex⟩
    exact hs.added ⟨Finset.mem_of_mem_erase hin, hex⟩

theorem FiringInv.call {c : TimerCall} {q : TimerQueue} (h : FiringInv r)
    (hok : NoLeftovers r (.call c)) (hcall : r.state.queue.call true c = some (.ok q)) :
    FiringInv ⟨⟨q, r.state.created⟩, r.history ++ [r.state.events (.call c)]⟩ := by
  have hnone : (r.state.events (.call c)).filterMap TimerEvent.ranId = [] :=
    TimerQueue.ranId_callEvents _ _
  refine h.append (h.sound.call hcall).1 (by rw [hnone]; exact List.nodup_nil)
    (by simp [hnone]) (fun timerId hid => ?_) fun timerId hs => hs.call h.sound hcall
  rw [hnone] at hid
  obtain ⟨rfl, hissued⟩ := TimerQueue.cancelled_callEvents (hid.resolve_left (List.not_mem_nil))
  exact h.sound.spent_of_cancel hcall hissued (hok timerId rfl)

theorem FiringInv.handleRead {now : Int} {callback : Nat → List TimerCall} {q : TimerQueue}
    (h : FiringInv r) (hok : NoLeftovers r (.handleRead now callback))
    (hread : r.state.queue.handleRead true now callback = some (.ok q)) :
    FiringInv ⟨⟨q, r.state.created⟩,
      r.history ++ [r.state.events (.handleRead now callback)]⟩ := by
  obtain ⟨hsound, hran, hspent, hkept⟩ := h.sound.handleRead hread hok.2
  have hran' : (r.state.events (.handleRead now callback)).filterMap TimerEvent.ranId = _ := hran
  refine h.append hsound ?_ ?_ hspent hkept
  · rw [hran']
    refine List.Nodup.map_on ?_ (TimerQueue.dueEntries_nodup _ _)
    intro e he e' he' heq
    exact h.sound.idOf_injOn (TimerQueue.mem_dueEntries he).1
      (TimerQueue.mem_dueEntries he').1 heq
  · intro timerId hid
    rw [hran'] at hid
    obtain ⟨e, he, rfl⟩ := List.mem_map.mp hid
    exact hok.1 e he

theorem FiringInv.step (h : FiringInv r) (hok : NoLeftovers r label)
    (hnext : firingSystem.Next label r r') : FiringInv r' := by
  obtain ⟨state, hstep, rfl⟩ := map_eq_some_ok.mp hnext
  cases TimerState.steps hstep with
  | newTimer hnew => exact h.newTimer hnew
  | addTimerInLoop hmem hadd => exact h.addTimerInLoop hmem hadd
  | call hcall => exact h.call hok hcall
  | handleRead hread => exact h.handleRead hok hread

/-- **Timers fire once.** In every run in which `handleRead` never finds an entry that has run
before and no timer is cancelled before it was added, timers fire the right number of times. -/
theorem timers_fire_once (h : firingSystem.ReachableBy NoLeftovers r) : FiresRight r.history := by
  have hinv : FiringInv r := by
    refine h.invariant (P := FiringInv) ?_ ?_
    · rintro r rfl
      exact ⟨TimerQueue.create_sound, List.nodup_nil, by simp, List.Pairwise.nil⟩
    · intro r label r' _ hok hinv hnext
      exact hinv.step hok hnext
  refine ⟨?_, fun events hmem => ?_, hinv.cancelled⟩
  · -- no timer runs a second time
    have hpair := List.pairwise_filterMap.mp hinv.runs
    refine hpair.imp fun {x y} hxy timerId interval now interval' now' hx hy => ?_
    subst hx hy
    exact absurd rfl (hxy timerId rfl timerId rfl)
  · have hruns := hinv.runs
    rw [List.filterMap_flatten] at hruns
    exact (List.nodup_flatten.mp hruns).1 _ (List.mem_map.mpr ⟨events, hmem, rfl⟩)

end Runs

/-! ### Concrete runs -/

/-- A one-shot timer that expires at 100 is added, and `handleRead` finds it at 200 and again
at 300. -/
theorem one_shot_runs_twice :
    ∃ r, firingSystem.Reachable r ∧ ¬ FiresRight r.history := by
  obtain ⟨r, hr, hp⟩ := System.exists_reachable_of_replay firingSystem
    [.call (.addTimer 8 100 0 0), .handleRead 200 fun _ => [], .handleRead 300 fun _ => []]
    ⟨⟨.create, ∅⟩, []⟩
    (fun r => decide (r.history = [[.added (8, 1) 100], [.ran (8, 1) 0 200], [.ran (8, 1) 0 300]]))
    rfl (by decide +kernel)
  refine ⟨r, hr, fun hright => ?_⟩
  have hagain := hright.again
  rw [of_decide_eq_true hp] at hagain
  simp at hagain
  exact absurd (hagain 8 1 0 200 0 300 rfl rfl rfl rfl rfl rfl rfl rfl).1 (by decide)

/-- A timer is cancelled and another one runs, once. -/
theorem timers_fire_once_due :
    ∃ r, firingSystem.ReachableBy NoLeftovers r ∧
      r.history = [[.added (8, 1) 100], [.added (16, 2) 100], [.cancelled (16, 2)],
        [.ran (8, 1) 0 200]] ∧ FiresRight r.history := by
  have hok : ∀ label ∈ [TimerLabel.call (.addTimer 8 100 0 0), .call (.addTimer 16 100 0 0),
      .call (.cancel (16, 2)), .handleRead 200 fun _ => []], ∀ r,
      (match label with
        | .call _ => decide (r.state.created = ∅)
        | .handleRead now _ =>
            decide (∀ e ∈ r.state.queue.dueEntries now,
              r.state.queue.idOf e ∈ r.state.queue.activeTimers)
        | _ => false) = true → NoLeftovers r label := by
    intro label hlabel r htest
    simp only [List.mem_cons, List.not_mem_nil, or_false] at hlabel
    have hnone : r.state.created = ∅ → ∀ c, TimerQueue.CancelsAdded r.state.created
        r.state.queue c := by
      intro hempty c timerId _ hp
      rw [hempty] at hp
      exact absurd hp.1 (Finset.notMem_empty _)
    rcases hlabel with rfl | rfl | rfl | rfl
    · exact hnone (of_decide_eq_true htest) _
    · exact hnone (of_decide_eq_true htest) _
    · exact hnone (of_decide_eq_true htest) _
    · exact ⟨of_decide_eq_true htest, fun expired q _ => TimerQueue.expiredMeet_silent expired _⟩
  obtain ⟨r, hr, hp⟩ := System.exists_reachableBy_of_replay firingSystem _ _
    ⟨⟨.create, ∅⟩, []⟩
    (fun r => decide (r.history = [[.added (8, 1) 100], [.added (16, 2) 100], [.cancelled (16, 2)],
      [.ran (8, 1) 0 200]]))
    rfl (fun label hlabel r _ => hok label hlabel r) (by decide +kernel)
  exact ⟨r, hr, of_decide_eq_true hp, timers_fire_once hr⟩

end Reactor
