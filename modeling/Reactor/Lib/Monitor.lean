import Reactor.Lib.Outcome
import Reactor.Lib.Transition

/-!
# Monitors with condition variables

A monitor is shared data behind one mutex. An operation does what needs no mutex, takes the
mutex, waits on its condition variable in a `while` loop as long as it is blocked, acts on the
data and leaves, with at most one signal on the way out. Between two waits it holds the mutex, so
everything it does there is one step of the system; before it gets the mutex any other thread may
act. A signalled thread competes for the mutex with every newcomer and tests its loop again; a
wait may also end without a signal.

* `Monitor.system` - any number of threads calling the operations in any order.
* `Monitor.Keeps.reachable` - the rule for facts about the shared data and the calls under way.
* `Monitor.Counts.no_lost_wakeup` - the counting argument for `signal`: if an operation that makes
  room for one more caller signals one, then whatever is available while a thread sleeps has a
  woken thread of its own.
-/

namespace Reactor.Lib

/-- What an operation does to condition variables as it leaves: nothing, `notify`, `notifyAll`. -/
inductive Signal (κ : Type) where
  | none
  | one (c : κ)
  | all (c : κ)
deriving DecidableEq, Repr

/-- Shared data `σ`, condition variables `κ` and operations `ω`. `enter` is what a thread does
without the mutex, `locks` whether it takes it afterwards; an operation without a condition
variable never waits. -/
structure Monitor (σ κ ω ε : Type) where
  enter : ω → σ → Option σ
  locks : ω → σ → Bool
  cond : ω → Option κ
  blocked : ω → σ → Bool
  act : ω → σ → Except ε σ
  signal : ω → σ → Signal κ

namespace Monitor

/-- The shared data, the operations whose threads have entered and not yet taken the mutex, those
whose threads sleep on their condition variable, and those whose threads were woken and have not
yet taken the mutex again. -/
structure State (σ ω : Type) where
  shared : σ
  arriving : List ω
  waiting : List ω
  woken : List ω
deriving DecidableEq, Repr

/-- A new call up to the mutex, an arriving or a woken thread that gets the mutex, a wait that ends
by itself. `wake` is the position of the thread a `notify` wakes. -/
inductive Label (ω : Type) where
  | call (op : ω)
  | lock (index wake : Nat)
  | resume (index wake : Nat)
  | spurious (index : Nat)
deriving DecidableEq, Repr

variable {σ κ ω ε : Type} [DecidableEq κ]

/-- The operation waits on `c`. -/
def waitsOn (M : Monitor σ κ ω ε) (c : κ) (op : ω) : Bool := M.cond op = some c

/-- How many of the operations wait on `c`. -/
def count (M : Monitor σ κ ω ε) (c : κ) (ops : List ω) : Nat := ops.countP (M.waitsOn c)

/-- `notify`: one of the threads that sleep on `c`, if there is any. -/
def notify (M : Monitor σ κ ω ε) (c : κ) (wake : Nat) (s : State σ ω) : Option (State σ ω) :=
  if s.waiting.any (M.waitsOn c) then
    match s.waiting[wake]? with
    | some op =>
        if M.waitsOn c op then
          some { s with waiting := s.waiting.eraseIdx wake, woken := s.woken ++ [op] }
        else none
    | none => none
  else some s

/-- `notifyAll`. -/
def notifyAll (M : Monitor σ κ ω ε) (c : κ) (s : State σ ω) : State σ ω :=
  { s with
    waiting := s.waiting.filter fun op => !M.waitsOn c op
    woken := s.woken ++ s.waiting.filter (M.waitsOn c) }

def send (M : Monitor σ κ ω ε) (signal : Signal κ) (wake : Nat) (s : State σ ω) :
    Option (State σ ω) :=
  match signal with
  | .none => some s
  | .one c => M.notify c wake s
  | .all c => some (M.notifyAll c s)

/-- A thread that holds the mutex runs until it waits or leaves. -/
def run (M : Monitor σ κ ω ε) (op : ω) (wake : Nat) (s : State σ ω) :
    Option (Except ε (State σ ω)) :=
  if M.blocked op s.shared then some (.ok { s with waiting := s.waiting ++ [op] })
  else
    match M.act op s.shared with
    | .error e => some (.error e)
    | .ok shared => (M.send (M.signal op s.shared) wake { s with shared := shared }).map .ok

def step (M : Monitor σ κ ω ε) (label : Label ω) (s : State σ ω) :
    Option (Except ε (State σ ω)) :=
  match label with
  | .call op =>
      match M.enter op s.shared with
      | none => none
      | some shared =>
          if M.locks op s.shared then
            some (.ok { s with shared := shared, arriving := s.arriving ++ [op] })
          else some (.ok { s with shared := shared })
  | .lock index wake =>
      match s.arriving[index]? with
      | none => none
      | some op => M.run op wake { s with arriving := s.arriving.eraseIdx index }
  | .resume index wake =>
      match s.woken[index]? with
      | none => none
      | some op => M.run op wake { s with woken := s.woken.eraseIdx index }
  | .spurious index =>
      match s.waiting[index]? with
      | none => none
      | some op =>
          some (.ok { s with waiting := s.waiting.eraseIdx index, woken := s.woken ++ [op] })

/-- The threads of a process around one monitor. -/
def system (M : Monitor σ κ ω ε) (init : σ → Prop) : System (State σ ω) (Label ω) ε where
  init s := init s.shared ∧ s.arriving = [] ∧ s.waiting = [] ∧ s.woken = []
  step := M.step

/-! ### What a step does -/

/-- What a signal does: the threads it moves are woken, the others stay where they are. -/
inductive Sends (M : Monitor σ κ ω ε) (s : State σ ω) : Signal κ → State σ ω → Prop where
  | none : Sends M s .none s
  | nobody {c : κ} : M.count c s.waiting = 0 → Sends M s (.one c) s
  | one {c : κ} {op : ω} {rest : List ω} : M.waitsOn c op = true → s.waiting.Perm (op :: rest) →
      Sends M s (.one c) { s with waiting := rest, woken := s.woken ++ [op] }
  | all {c : κ} : Sends M s (.all c) (M.notifyAll c s)

/-- What a thread that holds the mutex does. -/
inductive Runs (M : Monitor σ κ ω ε) (op : ω) (s : State σ ω) : State σ ω → Prop where
  | waits : M.blocked op s.shared = true → Runs M op s { s with waiting := s.waiting ++ [op] }
  | leaves {shared : σ} {s' : State σ ω} : M.blocked op s.shared = false →
      M.act op s.shared = .ok shared →
      Sends M { s with shared := shared } (M.signal op s.shared) s' → Runs M op s s'

/-- What a step of the system does. -/
inductive Steps (M : Monitor σ κ ω ε) (s : State σ ω) : State σ ω → Prop where
  | arrives {op : ω} {shared : σ} : M.enter op s.shared = some shared →
      M.locks op s.shared = true →
      Steps M s { s with shared := shared, arriving := s.arriving ++ [op] }
  | passes {op : ω} {shared : σ} : M.enter op s.shared = some shared →
      M.locks op s.shared = false → Steps M s { s with shared := shared }
  | lock {op : ω} {rest : List ω} {s' : State σ ω} : s.arriving.Perm (op :: rest) →
      Runs M op { s with arriving := rest } s' → Steps M s s'
  | resume {op : ω} {rest : List ω} {s' : State σ ω} : s.woken.Perm (op :: rest) →
      Runs M op { s with woken := rest } s' → Steps M s s'
  | spurious {op : ω} {rest : List ω} : s.waiting.Perm (op :: rest) →
      Steps M s { s with waiting := rest, woken := s.woken ++ [op] }

variable {M : Monitor σ κ ω ε} {c : κ} {op : ω} {s s' : State σ ω}

theorem count_eq_zero {ops : List ω} : M.count c ops = 0 ↔ ∀ op ∈ ops, M.waitsOn c op = false := by
  simp [count, List.countP_eq_zero]

theorem count_perm {ops ops' : List ω} (h : ops.Perm ops') : M.count c ops = M.count c ops' :=
  h.countP_eq _

@[simp] theorem count_nil : M.count c [] = 0 := rfl

@[simp] theorem count_cons {ops : List ω} :
    M.count c (op :: ops) = M.count c ops + if M.waitsOn c op then 1 else 0 :=
  List.countP_cons

@[simp] theorem count_append {ops ops' : List ω} :
    M.count c (ops ++ ops') = M.count c ops + M.count c ops' :=
  List.countP_append

theorem perm_of_getElem? {ops : List ω} {i : Nat} (h : ops[i]? = some op) :
    ops.Perm (op :: ops.eraseIdx i) := by
  obtain ⟨hlt, rfl⟩ := List.getElem?_eq_some_iff.mp h
  exact (List.getElem_cons_eraseIdx_perm hlt).symm

theorem sends_of_send {signal : Signal κ} {wake : Nat} (h : M.send signal wake s = some s') :
    Sends M s signal s' := by
  cases signal with
  | none =>
      cases h
      exact .none
  | one c =>
      simp only [send, notify] at h
      split at h
      · split at h
        · rename_i op hop
          split at h
          · rename_i hc
            cases h
            exact .one hc (perm_of_getElem? hop)
          · cases h
        · cases h
      · rename_i hnone
        cases h
        exact .nobody (count_eq_zero.mpr (by simpa using hnone))
  | all c =>
      cases h
      exact .all

theorem runs_of_run {wake : Nat} (h : M.run op wake s = some (.ok s')) : Runs M op s s' := by
  simp only [run] at h
  split at h
  · rename_i hblocked
    cases h
    exact .waits hblocked
  · rename_i hfree
    split at h
    · cases h
    · rename_i shared hact
      obtain ⟨t, hsend, heq⟩ := Option.map_eq_some_iff.mp h
      cases heq
      exact .leaves (by simpa using hfree) hact (sends_of_send hsend)

/-- Inversion of the step function. -/
theorem steps_of_step {label : Label ω} (h : M.step label s = some (.ok s')) : Steps M s s' := by
  cases label with
  | call op =>
      simp only [step] at h
      split at h
      · cases h
      · rename_i shared henter
        split at h
        · rename_i hlocks
          cases h
          exact .arrives henter hlocks
        · rename_i hlocks
          cases h
          exact .passes henter (by simpa using hlocks)
  | lock index wake =>
      simp only [step] at h
      split at h
      · cases h
      · rename_i op hop
        exact .lock (perm_of_getElem? hop) (runs_of_run h)
  | resume index wake =>
      simp only [step] at h
      split at h
      · cases h
      · rename_i op hop
        exact .resume (perm_of_getElem? hop) (runs_of_run h)
  | spurious index =>
      simp only [step] at h
      split at h
      · cases h
      · rename_i op hop
        cases h
        exact .spurious (perm_of_getElem? hop)

theorem fails_of_run {wake : Nat} {e : ε} (h : M.run op wake s = some (.error e)) :
    M.blocked op s.shared = false ∧ M.act op s.shared = .error e := by
  simp only [run] at h
  split at h
  · cases h
  · rename_i hfree
    split at h
    · rename_i e' hact
      cases h
      exact ⟨by simpa using hfree, hact⟩
    · obtain ⟨t, -, heq⟩ := Option.map_eq_some_iff.mp h
      cases heq

/-- A step fails only where an operation that is not blocked does. -/
theorem fails_of_step {label : Label ω} {e : ε} (h : M.step label s = some (.error e)) :
    ∃ op rest, (s.arriving.Perm (op :: rest) ∨ s.woken.Perm (op :: rest)) ∧
      M.blocked op s.shared = false ∧ M.act op s.shared = .error e := by
  cases label with
  | call op =>
      simp only [step] at h
      split at h
      · cases h
      · split at h <;> cases h
  | lock index wake =>
      simp only [step] at h
      split at h
      · cases h
      · rename_i op hop
        have hfails := fails_of_run h
        exact ⟨op, _, .inl (perm_of_getElem? hop), hfails⟩
  | resume index wake =>
      simp only [step] at h
      split at h
      · cases h
      · rename_i op hop
        have hfails := fails_of_run h
        exact ⟨op, _, .inr (perm_of_getElem? hop), hfails⟩
  | spurious index =>
      simp only [step] at h
      split at h <;> cases h

theorem Sends.shared {signal : Signal κ} (h : Sends M s signal s') : s'.shared = s.shared := by
  cases h <;> rfl

/-- Someone can be signalled, if anyone sleeps there. -/
theorem exists_send (M : Monitor σ κ ω ε) (signal : Signal κ) (s : State σ ω) :
    ∃ wake s', M.send signal wake s = some s' := by
  cases signal with
  | none => exact ⟨0, s, rfl⟩
  | all c => exact ⟨0, _, rfl⟩
  | one c =>
      simp only [send, notify]
      split
      · rename_i hany
        obtain ⟨op, hop, hc⟩ := List.any_eq_true.mp hany
        obtain ⟨wake, hlt, hget⟩ := List.getElem_of_mem hop
        refine ⟨wake, ?_⟩
        simp [List.getElem?_eq_getElem hlt, hget, hc]
      · exact ⟨0, s, rfl⟩

/-- An arriving or woken thread whose operation is not blocked gets the mutex and goes through. -/
theorem exists_run (shared : σ) (hop : op ∈ s.arriving ∨ op ∈ s.woken)
    (hfree : M.blocked op s.shared = false) (hact : M.act op s.shared = .ok shared) :
    ∃ label s', M.step label s = some (.ok s') ∧ s'.shared = shared := by
  rcases hop with hop | hop
  · obtain ⟨index, hlt, hget⟩ := List.getElem_of_mem hop
    obtain ⟨wake, s', hsend⟩ := M.exists_send (M.signal op s.shared)
      { s with shared := shared, arriving := s.arriving.eraseIdx index }
    refine ⟨.lock index wake, s', ?_, (sends_of_send hsend).shared⟩
    simp [step, run, List.getElem?_eq_getElem hlt, hget, hfree, hact, hsend]
  · obtain ⟨index, hlt, hget⟩ := List.getElem_of_mem hop
    obtain ⟨wake, s', hsend⟩ := M.exists_send (M.signal op s.shared)
      { s with shared := shared, woken := s.woken.eraseIdx index }
    refine ⟨.resume index wake, s', ?_, (sends_of_send hsend).shared⟩
    simp [step, run, List.getElem?_eq_getElem hlt, hget, hfree, hact, hsend]

/-- So does a call that takes no mutex. -/
theorem exists_call (op : ω) (shared : σ) (henter : M.enter op s.shared = some shared)
    (hlocks : M.locks op s.shared = false) :
    ∃ label s', M.step label s = some (.ok s') ∧ s'.shared = shared :=
  ⟨.call op, { s with shared := shared }, by simp [step, henter, hlocks], rfl⟩

/-! ### Facts about the shared data -/

/-- The operations that waited and have not gone through. -/
def State.pending (s : State σ ω) : Multiset ω := ((s.waiting ++ s.woken : List ω) : Multiset ω)

/-- The operations under way. -/
def State.underWay (s : State σ ω) : Multiset ω := s.arriving + s.pending

theorem Sends.pending {signal : Signal κ} (h : Sends M s signal s') : s'.pending = s.pending := by
  cases h with
  | none => rfl
  | nobody => rfl
  | @one c op rest hop hperm =>
      refine Multiset.coe_eq_coe.mpr ?_
      calc (rest ++ (s.woken ++ [op])).Perm (op :: (rest ++ s.woken)) := by
            rw [← List.append_assoc]
            exact List.perm_append_singleton op _
        _ |>.Perm (s.waiting ++ s.woken) := (hperm.symm.append_right s.woken)
  | @all c =>
      refine Multiset.coe_eq_coe.mpr ?_
      calc (s.waiting.filter (fun op => !M.waitsOn c op) ++
              (s.woken ++ s.waiting.filter (M.waitsOn c))).Perm
            (s.waiting.filter (fun op => !M.waitsOn c op) ++
              (s.waiting.filter (M.waitsOn c) ++ s.woken)) :=
              List.perm_append_comm.append_left _
        _ |>.Perm (s.waiting ++ s.woken) := by
              rw [← List.append_assoc]
              refine List.Perm.append_right _ ?_
              exact (List.perm_append_comm.trans (List.filter_append_perm _ _))

theorem Sends.underWay {signal : Signal κ} (h : Sends M s signal s') :
    s'.underWay = s.underWay := by
  have hsame : s'.arriving = s.arriving := by cases h <;> rfl
  rw [State.underWay, State.underWay, hsame, h.pending]

/-- A fact about the shared data and the operations under way that entering, with the mutex to
come or without, and acting preserve. -/
structure Keeps (M : Monitor σ κ ω ε) (init : σ → Prop) (P : σ → Multiset ω → Prop) : Prop where
  init : ∀ a, init a → P a 0
  enter : ∀ op a a' ops, P a ops → M.enter op a = some a' → M.locks op a = true →
    P a' (op ::ₘ ops)
  pass : ∀ op a a' ops, P a ops → M.enter op a = some a' → M.locks op a = false → P a' ops
  act : ∀ op a a' ops, P a (op ::ₘ ops) → M.blocked op a = false → M.act op a = .ok a' → P a' ops

variable {init : σ → Prop} {P : σ → Multiset ω → Prop}

theorem pending_resume {rest : List ω} (h : s.woken.Perm (op :: rest)) :
    s.pending = op ::ₘ State.pending { s with woken := rest } :=
  Multiset.coe_eq_coe.mpr ((h.append_left s.waiting).trans List.perm_middle)

theorem pending_waits :
    State.pending { s with waiting := s.waiting ++ [op] } = op ::ₘ s.pending :=
  Multiset.coe_eq_coe.mpr (by simp)

theorem pending_spurious {rest : List ω} (h : s.waiting.Perm (op :: rest)) :
    State.pending { s with waiting := rest, woken := s.woken ++ [op] } = s.pending := by
  refine Multiset.coe_eq_coe.mpr ?_
  rw [← List.append_assoc]
  exact (List.perm_append_singleton op _).trans (h.symm.append_right s.woken)

theorem underWay_arrives (shared : σ) :
    State.underWay { s with shared := shared, arriving := s.arriving ++ [op] } =
      op ::ₘ s.underWay := by
  have hperm : ((s.arriving ++ [op] : List ω) : Multiset ω) = op ::ₘ (s.arriving : Multiset ω) :=
    Multiset.coe_eq_coe.mpr (List.perm_append_singleton op _)
  change ((s.arriving ++ [op] : List ω) : Multiset ω) + s.pending = op ::ₘ (s.arriving + s.pending)
  rw [hperm, Multiset.cons_add]

theorem underWay_lock {rest : List ω} (h : s.arriving.Perm (op :: rest)) :
    s.underWay = op ::ₘ State.underWay { s with arriving := rest } := by
  have hperm : (s.arriving : Multiset ω) = op ::ₘ (rest : Multiset ω) := Multiset.coe_eq_coe.mpr h
  rw [State.underWay, hperm, Multiset.cons_add]
  rfl

theorem underWay_resume {rest : List ω} (h : s.woken.Perm (op :: rest)) :
    s.underWay = op ::ₘ State.underWay { s with woken := rest } := by
  rw [State.underWay, pending_resume h, Multiset.add_cons]
  rfl

theorem underWay_waits :
    State.underWay { s with waiting := s.waiting ++ [op] } = op ::ₘ s.underWay := by
  rw [State.underWay, pending_waits, Multiset.add_cons]
  rfl

theorem Runs.keeps (hP : M.Keeps init P) (hs : P s.shared (op ::ₘ s.underWay))
    (hrun : Runs M op s s') : P s'.shared s'.underWay := by
  cases hrun with
  | waits =>
      rw [underWay_waits]
      exact hs
  | leaves hfree hok hsend =>
      rw [hsend.shared, hsend.underWay]
      exact hP.act op _ _ _ hs hfree hok

theorem Steps.keeps (hP : M.Keeps init P) (hs : P s.shared s.underWay) (hstep : Steps M s s') :
    P s'.shared s'.underWay := by
  cases hstep with
  | @arrives op shared henter hlocks =>
      rw [underWay_arrives]
      exact hP.enter _ _ _ _ hs henter hlocks
  | passes henter hlocks => exact hP.pass _ _ _ _ hs henter hlocks
  | @lock op rest s' hperm hrun =>
      exact hrun.keeps (s := { s with arriving := rest }) hP (underWay_lock hperm ▸ hs)
  | @resume op rest s' hperm hrun =>
      exact hrun.keeps (s := { s with woken := rest }) hP (underWay_resume hperm ▸ hs)
  | spurious hperm =>
      rw [State.underWay, pending_spurious hperm]
      exact hs

theorem Runs.relates {R : σ → σ → Prop} (hrefl : ∀ a, R a a)
    (hact : ∀ op a a' ops, P a (op ::ₘ ops) → M.blocked op a = false → M.act op a = .ok a' → R a a')
    (hs : P s.shared (op ::ₘ s.underWay)) (hrun : Runs M op s s') : R s.shared s'.shared := by
  cases hrun with
  | waits => exact hrefl _
  | leaves hfree hok hsend =>
      rw [hsend.shared]
      exact hact op _ _ _ hs hfree hok

/-- What relates the data before and after entering, and before and after acting, relates it
before and after a step. -/
theorem Steps.relates {R : σ → σ → Prop} (hrefl : ∀ a, R a a)
    (henter : ∀ op a a' ops, P a ops → M.enter op a = some a' → R a a')
    (hact : ∀ op a a' ops, P a (op ::ₘ ops) → M.blocked op a = false → M.act op a = .ok a' → R a a')
    (hs : P s.shared s.underWay) (hstep : Steps M s s') : R s.shared s'.shared := by
  cases hstep with
  | arrives hent => exact henter _ _ _ _ hs hent
  | passes hent => exact henter _ _ _ _ hs hent
  | @lock op rest s' hperm hrun =>
      exact hrun.relates (s := { s with arriving := rest }) hrefl hact (underWay_lock hperm ▸ hs)
  | @resume op rest s' hperm hrun =>
      exact hrun.relates (s := { s with woken := rest }) hrefl hact (underWay_resume hperm ▸ hs)
  | spurious => exact hrefl _

/-- It holds in every reachable state. -/
theorem Keeps.reachable (hP : M.Keeps init P) (h : (M.system init).Reachable s) :
    P s.shared s.underWay := by
  refine h.invariant (P := fun s => P s.shared s.underWay) ?_ ?_
  · intro s h0
    simpa [State.underWay, State.pending, h0.2.1, h0.2.2.1, h0.2.2.2] using hP.init _ h0.1
  · intro _ _ _ _ _ hs hnext
    exact (steps_of_step hnext).keeps hP hs

theorem Runs.pending_subset (h : Runs M op s s') :
    ∀ op' ∈ s'.pending, op' ∈ s.pending ∨ op' = op ∧ M.blocked op s.shared = true := by
  intro op' hop'
  cases h with
  | waits hblocked =>
      rw [pending_waits, Multiset.mem_cons] at hop'
      rcases hop' with rfl | hop'
      · exact .inr ⟨rfl, hblocked⟩
      · exact .inl hop'
  | leaves _ _ hsend =>
      rw [hsend.pending] at hop'
      exact .inl hop'

/-- Only an operation that was blocked once waits or was woken. -/
theorem blocked_of_pending (h : (M.system init).Reachable s) (hop : op ∈ s.pending) :
    ∃ a, M.blocked op a = true := by
  refine h.invariant (P := fun s => ∀ op ∈ s.pending, ∃ a, M.blocked op a = true) ?_ ?_ op hop
  · intro s h0 op hop
    simp [State.pending, h0.2.2.1, h0.2.2.2] at hop
  · intro s _ s' _ _ hs hnext op hop
    cases steps_of_step hnext with
    | arrives => exact hs op hop
    | passes => exact hs op hop
    | lock _ hrun =>
        rcases hrun.pending_subset op hop with hold | ⟨rfl, hblocked⟩
        · exact hs op hold
        · exact ⟨_, hblocked⟩
    | resume hperm hrun =>
        rcases hrun.pending_subset op hop with hold | ⟨rfl, hblocked⟩
        · exact hs op (pending_resume hperm ▸ Multiset.mem_cons_of_mem hold)
        · exact ⟨_, hblocked⟩
    | spurious hperm =>
        rw [pending_spurious hperm] at hop
        exact hs op hop

/-- Where no operation that is not blocked can fail, no step does. -/
theorem Keeps.never_fails (hP : M.Keeps init P)
    (hact : ∀ op a ops e, P a (op ::ₘ ops) → M.blocked op a = false → M.act op a ≠ .error e)
    (h : (M.system init).Reachable s) {label : Label ω} {e : ε} :
    ¬ (M.system init).Fails label s e := by
  intro hfails
  have hs := hP.reachable h
  obtain ⟨op, rest, hperm | hperm, hfree, herr⟩ := fails_of_step hfails
  · exact hact op _ _ e (underWay_lock hperm ▸ hs) hfree herr
  · exact hact op _ _ e (underWay_resume hperm ▸ hs) hfree herr

/-! ### Signals are not lost -/

/-- How many of the threads that sleep on `c` a signal is sure to wake, if there are as many. -/
def worth (c : κ) : Signal κ → ℕ∞
  | .none => 0
  | .one c' => if c' = c then 1 else 0
  | .all c' => if c' = c then ⊤ else 0

/-- One for an operation that waits on `c`. -/
def uses (M : Monitor σ κ ω ε) (c : κ) (op : ω) : ℕ := if M.waitsOn c op then 1 else 0

/-- `avail` counts the calls on `c` that could still go through: none when one is blocked, one
less after each, and no more than before plus those that get a signal. -/
structure Counts (M : Monitor σ κ ω ε) (P : σ → Multiset ω → Prop) (c : κ) (avail : σ → ℕ∞) :
    Prop where
  enter : ∀ op a a' ops, P a ops → M.enter op a = some a' → avail a' ≤ avail a
  blocked : ∀ op a ops, P a (op ::ₘ ops) → M.waitsOn c op = true → M.blocked op a = true →
    avail a = 0
  act : ∀ op a a' ops, P a (op ::ₘ ops) → M.blocked op a = false → M.act op a = .ok a' →
    avail a' + M.uses c op ≤ avail a + worth c (M.signal op a)

/-- While a thread sleeps on `c`, no more is available than threads are on their way. -/
def Awake (M : Monitor σ κ ω ε) (c : κ) (avail : σ → ℕ∞) (s : State σ ω) : Prop :=
  0 < M.count c s.waiting → avail s.shared ≤ M.count c s.woken

/-- What is left to share out after the running thread took its `k`, against the threads on
their way, of which it may have been one. -/
theorem Sends.awake {avail : σ → ℕ∞} {signal : Signal κ} {n : ℕ∞} {k : ℕ}
    (h : Sends M s signal s') (hn : avail s.shared + k ≤ n + worth c signal)
    (hs : 0 < M.count c s.waiting → n ≤ M.count c s.woken + k) : M.Awake c avail s' := by
  intro hwait
  refine (ENat.add_le_add_iff_right (ENat.natCast_ne_top k)).mp ?_
  cases h with
  | none => exact hn.trans (by simpa [worth] using hs hwait)
  | @nobody c' hnobody =>
      have hne : c' ≠ c := by
        rintro rfl
        omega
      exact hn.trans (by simpa [worth, hne] using hs hwait)
  | @one c' op rest hop hperm =>
      have hcount := M.count_perm (c := c) hperm
      rw [count_cons] at hcount
      have hworth : worth c (.one c') = ((if M.waitsOn c op then 1 else 0 : ℕ) : ℕ∞) := by
        have hcond : M.cond op = some c' := by simpa [waitsOn] using hop
        by_cases hc : c' = c <;> simp [worth, waitsOn, hcond, hc]
      calc avail s.shared + k ≤ n + worth c (.one c') := hn
        _ ≤ (M.count c s.woken + k) + ((if M.waitsOn c op then 1 else 0 : ℕ) : ℕ∞) := by
            rw [hworth]
            gcongr
            exact hs (by simp only at hwait; omega)
        _ = M.count c (s.woken ++ [op]) + k := by
            simp only [count_append, count_cons, count_nil]
            push_cast
            ring
  | @all c' =>
      have hne : c' ≠ c := by
        rintro rfl
        rw [count_eq_zero.mpr (by simp [notifyAll])] at hwait
        exact absurd hwait (lt_irrefl 0)
      have hsame : 0 < M.count c s.waiting := hwait.trans_le List.filter_sublist.countP_le
      calc avail s.shared + k ≤ n := by simpa [worth, hne] using hn
        _ ≤ M.count c s.woken + k := hs hsame
        _ ≤ M.count c (s.woken ++ s.waiting.filter (M.waitsOn c')) + k := by
            rw [count_append]
            gcongr
            exact Nat.le_add_right _ _

/-- The thread that runs may be one of those that were woken. -/
theorem Runs.awake {avail : σ → ℕ∞} {ops : Multiset ω} (hA : M.Counts P c avail)
    (h : Runs M op s s') (hP : P s.shared (op ::ₘ ops))
    (hs : 0 < M.count c s.waiting → avail s.shared ≤ M.count c s.woken + M.uses c op) :
    M.Awake c avail s' := by
  cases h with
  | waits hblocked =>
      intro hwait
      cases hop : M.waitsOn c op with
      | true => simp [hA.blocked op _ _ hP hop hblocked]
      | false =>
          have hcount : 0 < M.count c s.waiting := by simpa [hop] using hwait
          simpa [uses, hop] using hs hcount
  | leaves hfree hok hsend => exact hsend.awake (hA.act op _ _ _ hP hfree hok) hs

theorem Steps.awake {avail : σ → ℕ∞} (hA : M.Counts P c avail)
    (h : Steps M s s') (hP : P s.shared s.underWay) (hs : M.Awake c avail s) :
    M.Awake c avail s' := by
  cases h with
  | arrives henter => exact fun hwait => (hA.enter _ _ _ _ hP henter).trans (hs hwait)
  | passes henter => exact fun hwait => (hA.enter _ _ _ _ hP henter).trans (hs hwait)
  | lock hperm hrun =>
      exact hrun.awake hA (underWay_lock hperm ▸ hP) fun hwait => (hs hwait).trans le_self_add
  | @resume op rest s' hperm hrun =>
      refine hrun.awake hA (underWay_resume hperm ▸ hP) fun hwait => ?_
      have hcount := M.count_perm (c := c) hperm
      rw [count_cons] at hcount
      calc avail s.shared ≤ M.count c s.woken := hs hwait
        _ = M.count c rest + M.uses c op := by rw [hcount, uses]; push_cast; rfl
  | @spurious op rest hperm =>
      intro hwait
      have hcount := M.count_perm (c := c) hperm
      rw [count_cons] at hcount
      calc avail s.shared ≤ M.count c s.woken := hs (by simp only at hwait; omega)
        _ ≤ M.count c (s.woken ++ [op]) := by
            rw [count_append]
            exact_mod_cast Nat.le_add_right _ _

/-- **No lost wakeup.** In every reachable state, whatever is available while a thread sleeps has
a woken thread of its own. -/
theorem Counts.no_lost_wakeup {avail : σ → ℕ∞} (hA : M.Counts P c avail) (hP : M.Keeps init P)
    (h : (M.system init).Reachable s) : M.Awake c avail s := by
  refine h.invariant (P := M.Awake c avail) (fun s h0 => by simp [Awake, h0.2.2.1]) ?_
  intro s _ _ hr _ hs hnext
  exact (steps_of_step hnext).awake hA (hP.reachable hr) hs

end Monitor

end Reactor.Lib
