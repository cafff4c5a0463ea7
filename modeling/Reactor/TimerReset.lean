import Reactor.TimerAlarm

/-!
# Putting expired timers back (`TimerQueue::reset`, `Timer::restart`)

`reset` goes over the timers that have run. A repeating one that was not cancelled meanwhile is
restarted and inserted again, any other is deleted, and the timerfd is set for what is first
in the queue then. `handleRead` does not call it; here it is taken by itself, from any queue
whose sets agree.

* `TimerQueue.resetExpired` - the loop, with the addresses it deletes.
* `ResetTo` - what the loop makes of the queue. `resetExpired_ok` - it does so, and no
  assertion fails.
* `reset_restores_queue` - the whole function, with the alarm.
-/

namespace Reactor

open Reactor.Lib

def Timer.repeat (timer : Timer) : Bool := 0 < timer.interval

/-- `restart`; `Timestamp::invalid()` is zero. -/
def Timer.restart (timer : Timer) (now : Int) : Timer :=
  { timer with expiration := if timer.repeat then now + timer.interval else 0 }

/-- The `Timer*` of an entry. -/
def TimerEntry.addr (e : TimerEntry) : Nat := (ofLex e).2

namespace TimerQueue

/-- The loop of `reset`, with the addresses of the timers it deletes in order. -/
def resetExpired (ndebug : Bool) (now : Int) :
    List TimerEntry → TimerQueue → Exec (TimerQueue × List Nat)
  | [], q => .ok (q, [])
  | e :: rest, q => do
      let addr := TimerEntry.addr e
      let timer ← q.deref addr
      if timer.repeat ∧ (addr, timer.sequence) ∉ q.cancelingTimers then
        let restarted := { q with heap := Function.update q.heap addr (some (timer.restart now)) }
        let (_, q') ← restarted.insert ndebug addr
        resetExpired ndebug now rest q'
      else
        let (q', deleted) ← resetExpired ndebug now rest
          { q with heap := Function.update q.heap addr none }
        .ok (q', addr :: deleted)

/-- `reset`; `clock` is what `Timestamp::now()` returns in `howMuchTimeFromNow`. -/
def reset (ndebug : Bool) (q : TimerQueue) (expired : List TimerEntry) (now clock : Int) :
    Exec (TimerQueue × List Nat) := do
  let (q', deleted) ← resetExpired ndebug now expired q
  let nextExpire ← match q'.timers.sort.head? with
    | none => (.ok 0 : Exec Int)
    | some e => do
        let timer ← q'.deref (TimerEntry.addr e)
        .ok timer.expiration
  if 0 < nextExpire then .ok (q'.resetTimerfd nextExpire clock, deleted) else .ok (q', deleted)

/-! ### The loop -/

/-- The loop puts the timer back: it repeats and is not being cancelled. -/
def Restarts (q : TimerQueue) (e : TimerEntry) : Bool :=
  match q.heap (TimerEntry.addr e) with
  | some timer => timer.repeat && decide ((TimerEntry.addr e, timer.sequence) ∉ q.cancelingTimers)
  | none => false

/-- The entries name distinct timers that exist and are not active. -/
structure Outside (q : TimerQueue) (expired : List TimerEntry) : Prop where
  nodup : (expired.map TimerEntry.addr).Nodup
  exist : ∀ e ∈ expired, ∃ timer, q.heap (TimerEntry.addr e) = some timer
  inactive : ∀ e ∈ expired, ∀ sequence, (TimerEntry.addr e, sequence) ∉ q.activeTimers

/-- What the loop makes of the queue `q`: the sets agree again and hold what they held and the
timers put back, each due at its interval after `now`; the objects of the other expired timers
are gone, and every object that was not expired is as it was. -/
structure ResetTo (q : TimerQueue) (now : Int) (expired : List TimerEntry) (q' : TimerQueue) :
    Prop where
  agree : q'.SetsAgree
  active : ∀ a, a ∈ q'.activeTimers ↔ a ∈ q.activeTimers ∨
    ∃ e ∈ expired, q.Restarts e = true ∧ ∃ timer, q.heap (TimerEntry.addr e) = some timer ∧
      a = (TimerEntry.addr e, timer.sequence)
  timers : ∀ x, x ∈ q'.timers ↔ x ∈ q.timers ∨
    ∃ e ∈ expired, q.Restarts e = true ∧ ∃ timer, q.heap (TimerEntry.addr e) = some timer ∧
      x = toLex (now + timer.interval, TimerEntry.addr e)
  kept : ∀ addr, addr ∉ expired.map TimerEntry.addr → q'.heap addr = q.heap addr
  expired : ∀ e ∈ expired, ∀ timer, q.heap (TimerEntry.addr e) = some timer →
    q'.heap (TimerEntry.addr e) =
      if q.Restarts e then some { timer with expiration := now + timer.interval } else none

section Loop

variable {q q' q₁ : TimerQueue} {now : Int} {e : TimerEntry} {rest : List TimerEntry} {addr : Nat}
  {timer : Timer}

/-- Whether a timer is put back is decided by its object and the set of cancelled ids. -/
theorem Restarts.congr (hheap : q₁.heap (TimerEntry.addr e) = q.heap (TimerEntry.addr e))
    (hcancel : q₁.cancelingTimers = q.cancelingTimers) : q₁.Restarts e = q.Restarts e := by
  unfold Restarts
  rw [hheap, hcancel]

theorem Outside.addr_ne (hout : Outside q (e :: rest)) :
    ∀ e' ∈ rest, TimerEntry.addr e' ≠ TimerEntry.addr e := by
  have hnodup := hout.nodup
  rw [List.map_cons, List.nodup_cons] at hnodup
  intro e' he' heq
  exact hnodup.1 (heq ▸ List.mem_map_of_mem he')

/-- A round of the loop leaves the remaining timers outside. -/
theorem Outside.tail (hout : Outside q (e :: rest))
    (hkept : ∀ addr, addr ≠ TimerEntry.addr e → q₁.heap addr = q.heap addr)
    (hactive : ∀ a ∈ q₁.activeTimers, a ∈ q.activeTimers ∨ a.1 = TimerEntry.addr e) :
    Outside q₁ rest := by
  constructor
  · exact (List.nodup_cons.mp hout.nodup).2
  · intro e' he'
    rw [hkept _ (hout.addr_ne e' he')]
    exact hout.exist e' (List.mem_cons_of_mem _ he')
  · intro e' he' sequence hin
    rcases hactive _ hin with hin | heq
    · exact hout.inactive e' (List.mem_cons_of_mem _ he') sequence hin
    · exact hout.addr_ne e' he' heq

theorem ResetTo.refl (h : q.SetsAgree) : ResetTo q now [] q where
  agree := h
  active := by simp
  timers := by simp
  kept := by simp
  expired := by simp

/-- One round of the loop and the rounds that follow. -/
theorem ResetTo.cons (hrest : ResetTo q₁ now rest q') (hout : Outside q (e :: rest))
    (hheap : q.heap (TimerEntry.addr e) = some timer)
    (hkept : ∀ addr, addr ≠ TimerEntry.addr e → q₁.heap addr = q.heap addr)
    (hcancel : q₁.cancelingTimers = q.cancelingTimers)
    (hself : q₁.heap (TimerEntry.addr e) =
      if q.Restarts e then some { timer with expiration := now + timer.interval } else none)
    (hactive : ∀ a, a ∈ q₁.activeTimers ↔
      a ∈ q.activeTimers ∨ q.Restarts e = true ∧ a = (TimerEntry.addr e, timer.sequence))
    (htimers : ∀ x, x ∈ q₁.timers ↔
      x ∈ q.timers ∨ q.Restarts e = true ∧ x = toLex (now + timer.interval, TimerEntry.addr e)) :
    ResetTo q now (e :: rest) q' := by
  have hnodup := hout.nodup
  rw [List.map_cons, List.nodup_cons] at hnodup
  have hsame : ∀ e' ∈ rest, q₁.heap (TimerEntry.addr e') = q.heap (TimerEntry.addr e') :=
    fun e' he' => hkept _ (hout.addr_ne e' he')
  have hrestarts : ∀ e' ∈ rest, q₁.Restarts e' = q.Restarts e' :=
    fun e' he' => Restarts.congr (hsame e' he') hcancel
  -- what the later rounds add, in terms of the queue before the first
  have hlater : ∀ {α : Type} (f : TimerEntry → Timer → α) (y : α),
      (∃ e' ∈ rest, q₁.Restarts e' = true ∧ ∃ t, q₁.heap (TimerEntry.addr e') = some t ∧ y = f e' t) ↔
      ∃ e' ∈ rest, q.Restarts e' = true ∧ ∃ t, q.heap (TimerEntry.addr e') = some t ∧ y = f e' t := by
    intro α f y
    constructor
    · rintro ⟨e', he', hr, t, ht, rfl⟩
      exact ⟨e', he', hrestarts e' he' ▸ hr, t, hsame e' he' ▸ ht, rfl⟩
    · rintro ⟨e', he', hr, t, ht, rfl⟩
      exact ⟨e', he', (hrestarts e' he').trans hr, t, (hsame e' he').trans ht, rfl⟩
  have hfirst : ∀ {α : Type} (f : TimerEntry → Timer → α) (y : α),
      (∃ e' ∈ e :: rest, q.Restarts e' = true ∧
        ∃ t, q.heap (TimerEntry.addr e') = some t ∧ y = f e' t) ↔
      (q.Restarts e = true ∧ y = f e timer) ∨
        ∃ e' ∈ rest, q.Restarts e' = true ∧ ∃ t, q.heap (TimerEntry.addr e') = some t ∧ y = f e' t := by
    intro α f y
    simp [hheap]
  constructor
  · exact hrest.agree
  · intro a
    rw [hrest.active, hactive, hlater (fun e' t => (TimerEntry.addr e', t.sequence)),
      hfirst (fun e' t => (TimerEntry.addr e', t.sequence)), or_assoc]
  · intro x
    rw [hrest.timers, htimers, hlater (fun e' t => toLex (now + t.interval, TimerEntry.addr e')),
      hfirst (fun e' t => toLex (now + t.interval, TimerEntry.addr e')), or_assoc]
  · intro addr haddr
    rw [List.map_cons, List.mem_cons, not_or] at haddr
    rw [hrest.kept addr haddr.2, hkept addr haddr.1]
  · intro e' he' t ht
    rcases List.mem_cons.mp he' with rfl | he'
    · rw [hheap] at ht
      cases ht
      rw [hrest.kept _ hnodup.1, hself]
    · rw [hrest.expired e' he' t ((hsame e' he').trans ht), hrestarts e' he']

theorem restarts_iff (hheap : q.heap (TimerEntry.addr e) = some timer) :
    q.Restarts e = true ↔
      timer.repeat ∧ (TimerEntry.addr e, timer.sequence) ∉ q.cancelingTimers := by
  simp [Restarts, hheap]

/-- The first round puts the timer back. -/
theorem resetExpired_restart {ndebug : Bool} (h : q.SetsAgree) (hout : Outside q (e :: rest))
    (hheap : q.heap (TimerEntry.addr e) = some timer) (hrestarts : q.Restarts e = true) :
    ∃ q₁, resetExpired ndebug now (e :: rest) q = resetExpired ndebug now rest q₁ ∧
      q₁.SetsAgree ∧ Outside q₁ rest ∧ q₁.cancelingTimers = q.cancelingTimers ∧
      (∀ addr, addr ≠ TimerEntry.addr e → q₁.heap addr = q.heap addr) ∧
      ∀ q', ResetTo q₁ now rest q' → ResetTo q now (e :: rest) q' := by
  have hcond := (restarts_iff hheap).mp hrestarts
  have hinactive := hout.inactive e List.mem_cons_self
  have hderef : q.deref (TimerEntry.addr e) = .ok timer := by rw [deref, hheap]
  have hexp : timer.restart now = { timer with expiration := now + timer.interval } := by
    rw [Timer.restart, if_pos hcond.1]
  have hset := h.setHeap hinactive (some (timer.restart now))
  have hinsert : ∃ r, TimerQueue.insert ndebug { q with
      heap := Function.update q.heap (TimerEntry.addr e) (some (timer.restart now)) }
        (TimerEntry.addr e) = .ok r ∧ _ := hset.insert (Function.update_self ..) hinactive
  obtain ⟨r, hins, hagree, -⟩ := hinsert
  obtain ⟨timer', hheap', hr⟩ := insert_eq hins
  have hnow : timer' = timer.restart now :=
    Option.some.inj (hheap'.symm.trans (Function.update_self ..))
  subst hnow hr
  have hkept : ∀ addr, addr ≠ TimerEntry.addr e →
      Function.update q.heap (TimerEntry.addr e) (some (timer.restart now)) addr = q.heap addr :=
    fun addr hne => Function.update_of_ne hne _ _
  refine ⟨_, ?_, hagree, ?_, rfl, hkept, ?_⟩
  · simp only [resetExpired, hderef, ok_bind, if_pos hcond, hins]
  · refine hout.tail hkept ?_
    intro a ha
    rcases Finset.mem_insert.mp ha with rfl | ha
    · exact Or.inr rfl
    · exact Or.inl ha
  · intro q' hrest
    refine hrest.cons hout hheap hkept rfl ?_ ?_ ?_
    · rw [if_pos hrestarts, ← hexp]
      exact Function.update_self ..
    · intro a
      simp only [Finset.mem_insert, hrestarts, true_and]
      exact or_comm
    · intro x
      simp only [Finset.mem_insert, hrestarts, true_and, hexp]
      exact or_comm

/-- The first round deletes the timer. -/
theorem resetExpired_delete {ndebug : Bool} (h : q.SetsAgree) (hout : Outside q (e :: rest))
    (hheap : q.heap (TimerEntry.addr e) = some timer) (hrestarts : q.Restarts e = false) :
    ∃ q₁, resetExpired ndebug now (e :: rest) q =
        (resetExpired ndebug now rest q₁).map (fun r => (r.1, TimerEntry.addr e :: r.2)) ∧
      q₁.SetsAgree ∧ Outside q₁ rest ∧ q₁.cancelingTimers = q.cancelingTimers ∧
      (∀ addr, addr ≠ TimerEntry.addr e → q₁.heap addr = q.heap addr) ∧
      ∀ q', ResetTo q₁ now rest q' → ResetTo q now (e :: rest) q' := by
  have hcond : ¬ (timer.repeat ∧ (TimerEntry.addr e, timer.sequence) ∉ q.cancelingTimers) := by
    rw [← restarts_iff hheap, hrestarts]
    exact Bool.false_ne_true
  have hinactive := hout.inactive e List.mem_cons_self
  have hderef : q.deref (TimerEntry.addr e) = .ok timer := by rw [deref, hheap]
  have hkept : ∀ addr, addr ≠ TimerEntry.addr e →
      Function.update q.heap (TimerEntry.addr e) none addr = q.heap addr :=
    fun addr hne => Function.update_of_ne hne _ _
  refine ⟨{ q with heap := Function.update q.heap (TimerEntry.addr e) none }, ?_,
    h.setHeap hinactive none, hout.tail hkept fun a ha => Or.inl ha, rfl, hkept, ?_⟩
  · simp only [resetExpired, hderef, ok_bind, if_neg hcond]
    cases resetExpired ndebug now rest
      { q with heap := Function.update q.heap (TimerEntry.addr e) none } <;> rfl
  · intro q' hrest
    refine hrest.cons hout hheap hkept rfl ?_ ?_ ?_
    · rw [hrestarts]
      exact Function.update_self ..
    · simp [hrestarts]
    · simp [hrestarts]

/-- The loop returns, and deletes exactly the timers it does not put back, each once. -/
theorem resetExpired_ok {ndebug : Bool} {expired : List TimerEntry} (h : q.SetsAgree)
    (hout : Outside q expired) :
    ∃ q', resetExpired ndebug now expired q =
        .ok (q', (expired.filter fun e => !q.Restarts e).map TimerEntry.addr) ∧
      ResetTo q now expired q' := by
  induction expired generalizing q with
  | nil => exact ⟨q, rfl, .refl h⟩
  | cons e rest ih =>
      obtain ⟨timer, hheap⟩ := hout.exist e List.mem_cons_self
      have hsame (q₁ : TimerQueue) (hcancel : q₁.cancelingTimers = q.cancelingTimers)
          (hkept : ∀ addr, addr ≠ TimerEntry.addr e → q₁.heap addr = q.heap addr) :
          (rest.filter fun e' => !q₁.Restarts e') = rest.filter fun e' => !q.Restarts e' := by
        apply List.filter_congr
        intro e' he'
        rw [Restarts.congr (hkept _ (hout.addr_ne e' he')) hcancel]
      cases hrestarts : q.Restarts e with
      | true =>
          have hround : ∃ q₁, resetExpired ndebug now (e :: rest) q = _ ∧ _ :=
            resetExpired_restart h hout hheap hrestarts
          obtain ⟨q₁, heq, hagree, hout₁, hcancel, hkept, hto⟩ := hround
          obtain ⟨q', hloop, hrest⟩ := ih hagree hout₁
          refine ⟨q', ?_, hto q' hrest⟩
          rw [heq, hloop, hsame q₁ hcancel hkept]
          simp [hrestarts]
      | false =>
          have hround : ∃ q₁, resetExpired ndebug now (e :: rest) q = _ ∧ _ :=
            resetExpired_delete h hout hheap hrestarts
          obtain ⟨q₁, heq, hagree, hout₁, hcancel, hkept, hto⟩ := hround
          obtain ⟨q', hloop, hrest⟩ := ih hagree hout₁
          refine ⟨q', ?_, hto q' hrest⟩
          rw [heq, hloop, hsame q₁ hcancel hkept]
          simp [hrestarts, Except.map]

end Loop

/-! ### The alarm -/

section Alarm

variable {q q' : TimerQueue} {now clock : Int} {expired : List TimerEntry}

/-- The relative time of the alarm, at least 100 microseconds, as a valid `timespec`. -/
theorem howMuchTimeFromNow_valid (expiration clock : Int) :
    let ts := howMuchTimeFromNow expiration clock
    ts.sec * 1000000000 + ts.nsec = max 100 (expiration - clock) * 1000 ∧
      0 ≤ ts.sec ∧ 0 ≤ ts.nsec ∧ ts.nsec < 1000000000 ∧ ¬ (ts.sec = 0 ∧ ts.nsec = 0) := by
  have hmax : (if expiration - clock < 100 then 100 else expiration - clock) =
      max 100 (expiration - clock) := by
    split <;> omega
  have hpos : 0 ≤ max 100 (expiration - clock) := by omega
  simp only [howMuchTimeFromNow, hmax, Int.tdiv_eq_ediv_of_nonneg hpos,
    Int.tmod_eq_emod_of_nonneg hpos]
  omega

/-- The entry `_timers.begin()` points to: a timer that exists, with the first expiration. -/
theorem SetsAgree.first (h : q.SetsAgree) {e : TimerEntry} (he : q.timers.sort.head? = some e) :
    e ∈ q.timers ∧ (∀ x ∈ q.timers, (ofLex e).1 ≤ (ofLex x).1) ∧
      ∃ timer, q.heap (TimerEntry.addr e) = some timer ∧ timer.expiration = (ofLex e).1 := by
  have hsorted := Finset.pairwise_sort q.timers (· ≤ ·)
  have hmem : e ∈ q.timers := (Finset.mem_sort _).mp (List.mem_of_mem_head? he)
  refine ⟨hmem, ?_, ?_⟩
  · intro x hx
    have hx' := (Finset.mem_sort (· ≤ ·)).mpr hx
    cases hsort : q.timers.sort with
    | nil => simp [hsort] at he
    | cons first rest =>
        rw [hsort] at he hx' hsorted
        cases he
        rcases List.mem_cons.mp hx' with rfl | hin
        · exact le_refl _
        · have hle := (List.pairwise_cons.mp hsorted).1 x hin
          exact (Prod.Lex.le_iff.mp hle).elim le_of_lt fun hle => hle.1.le
  · obtain ⟨timer, hheap, -, hexp⟩ := (h.timers (ofLex e).1 (ofLex e).2).mp hmem
    exact ⟨timer, hheap, hexp.symm⟩

theorem ResetTo.resetTimerfd (h : ResetTo q now expired q') (expiration clock : Int) :
    ResetTo q now expired (q'.resetTimerfd expiration clock) where
  agree := ⟨h.agree.timers, h.agree.active⟩
  active := h.active
  timers := h.timers
  kept := h.kept
  expired := h.expired

/-- Every expiration of the queue that the loop leaves is valid. -/
theorem ResetTo.pos (h : ResetTo q now expired q') (hnow : 0 < now)
    (hpos : ∀ x ∈ q.timers, 0 < (ofLex x).1) : ∀ x ∈ q'.timers, 0 < (ofLex x).1 := by
  intro x hx
  rcases (h.timers x).mp hx with hx | ⟨e, -, hrestarts, timer, hheap, rfl⟩
  · exact hpos x hx
  · have hrepeat := ((restarts_iff hheap).mp hrestarts).1
    simp only [Timer.repeat, decide_eq_true_eq] at hrepeat
    show 0 < now + timer.interval
    omega

/-- The timerfd is set for the first of the timers in the queue. -/
def AlarmSet (q : TimerQueue) (clock : Int) : Prop :=
  ∃ earliest ts, (∃ x ∈ q.timers, (ofLex x).1 = earliest) ∧
    (∀ x ∈ q.timers, earliest ≤ (ofLex x).1) ∧ q.timerfd = some (clock, ts) ∧
    ts.sec * 1000000000 + ts.nsec = max 100 (earliest - clock) * 1000 ∧
    0 ≤ ts.sec ∧ 0 ≤ ts.nsec ∧ ts.nsec < 1000000000 ∧ ¬ (ts.sec = 0 ∧ ts.nsec = 0)

/-- Timers that have run: the entries are the expirations and addresses of existing timers,
each once, and in neither set. -/
structure HasRun (q : TimerQueue) (expired : List TimerEntry) : Prop where
  nodup : expired.Nodup
  entry : ∀ e ∈ expired, ∃ timer, q.heap (TimerEntry.addr e) = some timer ∧
    timer.expiration = (ofLex e).1 ∧ e ∉ q.timers ∧
    (TimerEntry.addr e, timer.sequence) ∉ q.activeTimers

theorem HasRun.outside (h : q.HasRun expired) (hagree : q.SetsAgree) : Outside q expired := by
  constructor
  · refine h.nodup.map_on ?_
    intro e he e' he' haddr
    obtain ⟨timer, hheap, hexp, -⟩ := h.entry e he
    obtain ⟨timer', hheap', hexp', -⟩ := h.entry e' he'
    rw [haddr, hheap'] at hheap
    cases hheap
    exact ofLex.injective (Prod.ext (hexp.symm.trans hexp') haddr)
  · intro e he
    obtain ⟨timer, hheap, -⟩ := h.entry e he
    exact ⟨timer, hheap⟩
  · intro e he sequence hin
    obtain ⟨timer, hheap, -, -, hnot⟩ := h.entry e he
    obtain ⟨timer', hheap', rfl⟩ := hagree.active _ _ hin
    rw [hheap] at hheap'
    cases hheap'
    exact hnot hin

end Alarm

end TimerQueue

open TimerQueue in
/-- **`reset` restores the queue.** For every queue whose sets agree, every list of timers that
have run and every set of cancelled ids: `reset` returns; the sets agree again and hold the
timers they held and the repeating ones that were not cancelled, due at their interval after
`now`; every other timer of the list is deleted exactly once; and if a timer is left, the
timerfd is set for the first one. -/
theorem reset_restores_queue {q : TimerQueue} {expired : List TimerEntry} {now : Int} (clock : Int)
    (h : q.SetsAgree) (hrun : q.HasRun expired) (hnow : 0 < now)
    (hpos : ∀ x ∈ q.timers, 0 < (ofLex x).1) :
    ∃ q' deleted, q.reset false expired now clock = .ok (q', deleted) ∧
      ResetTo q now expired q' ∧ deleted.Nodup ∧
      (∀ addr, addr ∈ deleted ↔
        ∃ e ∈ expired, q.Restarts e = false ∧ TimerEntry.addr e = addr) ∧
      (q'.timers.Nonempty → q'.AlarmSet clock) := by
  have hout := hrun.outside h
  have hloop : ∃ q', resetExpired false now expired q = .ok (q', _) ∧ _ := resetExpired_ok h hout
  obtain ⟨q', hloop, hto⟩ := hloop
  have hnodup : ((expired.filter fun e => !q.Restarts e).map TimerEntry.addr).Nodup :=
    hout.nodup.sublist (List.filter_sublist.map _)
  have hdeleted (addr : Nat) : addr ∈ (expired.filter fun e => !q.Restarts e).map TimerEntry.addr ↔
      ∃ e ∈ expired, q.Restarts e = false ∧ TimerEntry.addr e = addr := by
    simp [and_assoc]
  unfold reset
  rw [hloop, ok_bind]
  dsimp only
  cases hhead : q'.timers.sort.head? with
  | none =>
      refine ⟨q', _, rfl, hto, hnodup, hdeleted, ?_⟩
      intro hne
      have hempty : q'.timers.sort = [] := List.head?_eq_none_iff.mp hhead
      have hcard := Finset.length_sort (s := q'.timers) (· ≤ ·)
      rw [hempty] at hcard
      exact absurd hcard.symm (Finset.card_pos.mpr hne).ne'
  | some e =>
      obtain ⟨hmem, hleast, timer, hheap, hexp⟩ := hto.agree.first hhead
      have hvalid : 0 < timer.expiration := by
        rw [hexp]
        exact hto.pos hnow hpos e hmem
      simp only [deref, hheap, ok_bind, if_pos hvalid]
      refine ⟨_, _, rfl, hto.resetTimerfd _ _, hnodup, hdeleted, fun _ => ?_⟩
      exact ⟨timer.expiration, _, ⟨e, hmem, hexp.symm⟩, hexp ▸ hleast, rfl,
        howMuchTimeFromNow_valid _ _⟩

/-- A queue with one timer, at address 8, and two that have run, a repeating one at 16 and
one that does not repeat at 24. -/
def ranTwo : TimerQueue :=
  { TimerQueue.create with
    timers := {toLex (500, 8)}
    activeTimers := {(8, 1)}
    heap := fun addr => match addr with
      | 8 => some ⟨500, 0, 1⟩
      | 16 => some ⟨100, 50, 2⟩
      | 24 => some ⟨90, 0, 3⟩
      | _ => none }

theorem ranTwo_setsAgree : ranTwo.SetsAgree := by
  constructor
  · intro expiration addr
    simp only [ranTwo, Finset.mem_singleton, EmbeddingLike.apply_eq_iff_eq, Prod.mk.injEq]
    constructor
    · rintro ⟨rfl, rfl⟩
      exact ⟨_, rfl, ⟨rfl, rfl⟩, rfl⟩
    · rintro ⟨timer, hheap, ⟨rfl, -⟩, rfl⟩
      cases hheap
      exact ⟨rfl, rfl⟩
  · intro addr sequence hmem
    simp only [ranTwo, Finset.mem_singleton, Prod.mk.injEq] at hmem
    obtain ⟨rfl, rfl⟩ := hmem
    exact ⟨_, rfl, rfl⟩

theorem ranTwo_hasRun : ranTwo.HasRun [toLex (90, 24), toLex (100, 16)] := by
  constructor
  · decide
  · intro e he
    rcases List.mem_cons.mp he with rfl | he
    · exact ⟨_, rfl, rfl, by decide, by decide⟩
    · cases List.mem_singleton.mp he
      exact ⟨_, rfl, rfl, by decide, by decide⟩

/-- The repeating timer is due 50 microseconds after 200, the other one is deleted. -/
theorem reset_restores_queue_two :
    ∃ q' deleted, ranTwo.reset false [toLex (90, 24), toLex (100, 16)] 200 210 = .ok (q', deleted) ∧
      q'.SetsAgree ∧ toLex (250, 16) ∈ q'.timers ∧ 24 ∈ deleted ∧ q'.AlarmSet 210 := by
  obtain ⟨q', deleted, hreset, hto, -, hdeleted, halarm⟩ :=
    reset_restores_queue 210 ranTwo_setsAgree ranTwo_hasRun (show (0 : Int) < 200 by decide)
      (by decide)
  have hentry : toLex (250, 16) ∈ q'.timers :=
    (hto.timers _).mpr (Or.inr ⟨toLex (100, 16), by decide, rfl, _, rfl, rfl⟩)
  exact ⟨q', deleted, hreset, hto.agree, hentry,
    (hdeleted 24).mpr ⟨toLex (90, 24), by decide, rfl, rfl⟩, halarm ⟨_, hentry⟩⟩

end Reactor
