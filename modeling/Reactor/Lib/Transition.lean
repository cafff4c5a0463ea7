import Mathlib

/-!
# Labelled transition systems with aborting steps

A system is a set of initial states and a partial step function. A step that is
not enabled has no result; an enabled one either gives the next state or ends the
process with a fault, after which there is no next state.

* `ReachableBy S ok` - the states of the runs all of whose steps meet `ok`; the
  condition sees the state before the step and the label. `Reachable` is the
  special case of no condition.
* `ReachableBy.invariant` - the induction rule of every safety result.
* `replay` - runs a list of labels; a concrete run is reached by evaluating it. `after` and
  `fault` evaluate the step that follows it.
-/

namespace Reactor.Lib

/-- A transition system over states `σ` and labels `ι` whose steps may fail
with a fault in `ε`. -/
structure System (σ ι ε : Type) where
  init : σ → Prop
  step : ι → σ → Option (Except ε σ)

namespace System

variable {σ ι ε : Type}

/-- The step labelled `i` leads from `s` to `s'`. -/
def Next (S : System σ ι ε) (i : ι) (s s' : σ) : Prop := S.step i s = some (.ok s')

/-- The step labelled `i` is enabled in `s` and ends the process with `e`. -/
def Fails (S : System σ ι ε) (i : ι) (s : σ) (e : ε) : Prop := S.step i s = some (.error e)

/-- The state after the step labelled `i`. -/
def after (S : System σ ι ε) (i : ι) (s : σ) : Option σ := (S.step i s).bind Except.toOption

/-- The fault the step labelled `i` ends with. -/
def fault (S : System σ ι ε) (i : ι) (s : σ) : Option ε :=
  match S.step i s with
  | some (.error e) => some e
  | _ => none

theorem next_of_after {S : System σ ι ε} {i : ι} {s s' : σ} (h : S.after i s = some s') :
    S.Next i s s' := by
  obtain ⟨r, hstep, hr⟩ := Option.bind_eq_some_iff.mp h
  cases r with
  | error e => cases hr
  | ok t =>
      cases hr
      exact hstep

theorem fails_of_fault {S : System σ ι ε} {i : ι} {s : σ} {e : ε} (h : S.fault i s = some e) :
    S.Fails i s e := by
  unfold fault at h
  split at h
  · cases h
    assumption
  · cases h

/-- The states reached by runs whose steps all meet `ok`. -/
inductive ReachableBy (S : System σ ι ε) (ok : σ → ι → Prop) : σ → Prop where
  | init {s : σ} : S.init s → ReachableBy S ok s
  | step {s s' : σ} {i : ι} : ReachableBy S ok s → ok s i → S.Next i s s' → ReachableBy S ok s'

/-- The states reached by any run. -/
abbrev Reachable (S : System σ ι ε) : σ → Prop := S.ReachableBy fun _ _ => True

namespace ReachableBy

variable {S : System σ ι ε} {ok ok' : σ → ι → Prop} {s : σ}

/-- What holds initially and is preserved by every step that meets `ok`, from a
state reached so, holds of every state reached so. -/
theorem invariant {P : σ → Prop} (h : S.ReachableBy ok s) (hinit : ∀ s, S.init s → P s)
    (hstep : ∀ s i s', S.ReachableBy ok s → ok s i → P s → S.Next i s s' → P s') : P s := by
  induction h with
  | init h0 => exact hinit _ h0
  | step hr hok hnext ih => exact hstep _ _ _ hr hok ih hnext

/-- A weaker condition reaches more states. -/
theorem mono (h : S.ReachableBy ok s) (himp : ∀ s i, ok s i → ok' s i) : S.ReachableBy ok' s := by
  induction h with
  | init h0 => exact .init h0
  | step _ hok hnext ih => exact .step ih (himp _ _ hok) hnext

theorem reachable (h : S.ReachableBy ok s) : S.Reachable s := h.mono fun _ _ _ => trivial

end ReachableBy

/-- Performs the labels in order, as long as each is enabled and passes the test. -/
def replay (S : System σ ι ε) (test : σ → ι → Bool) : List ι → σ → Option σ
  | [], s => some s
  | i :: rest, s =>
      match test s i, S.step i s with
      | true, some (.ok s') => replay S test rest s'
      | _, _ => none

theorem ReachableBy.replay {S : System σ ι ε} {ok : σ → ι → Prop} {test : σ → ι → Bool} :
    ∀ {labels : List ι} {s s' : σ}, S.ReachableBy ok s →
      (∀ i ∈ labels, ∀ s, S.ReachableBy ok s → test s i = true → ok s i) →
      S.replay test labels s = some s' → S.ReachableBy ok s'
  | [], s, s', hs, _, h => by
      simp only [System.replay, Option.some.injEq] at h
      exact h ▸ hs
  | i :: rest, s, s', hs, hok, h => by
      simp only [System.replay] at h
      split at h
      · rename_i t htest hstep
        have hnext : S.ReachableBy ok t := .step hs (hok i List.mem_cons_self s hs htest) hstep
        exact ReachableBy.replay hnext (fun j hj => hok j (List.mem_cons_of_mem _ hj)) h
      · simp at h

/-- A replayed run that ends in a state with the property `p` shows such a state is
reached by steps that meet `ok`, where the labels that pass the test in such a run do. -/
theorem exists_reachableBy_of_replay (S : System σ ι ε) {ok : σ → ι → Prop} (test : σ → ι → Bool)
    (labels : List ι) (s : σ) (p : σ → Bool) (hinit : S.init s)
    (hok : ∀ i ∈ labels, ∀ s, S.ReachableBy ok s → test s i = true → ok s i)
    (h : (S.replay test labels s).map p = some true) : ∃ s', S.ReachableBy ok s' ∧ p s' = true := by
  cases hrun : S.replay test labels s with
  | none => simp [hrun] at h
  | some s' =>
      simp only [hrun, Option.map_some, Option.some.injEq] at h
      exact ⟨s', ReachableBy.replay (.init hinit) hok hrun, h⟩

/-- The same for a run of any steps. -/
theorem exists_reachable_of_replay (S : System σ ι ε) (labels : List ι) (s : σ) (p : σ → Bool)
    (hinit : S.init s) (h : (S.replay (fun _ _ => true) labels s).map p = some true) :
    ∃ s', S.Reachable s' ∧ p s' = true :=
  S.exists_reachableBy_of_replay (fun _ _ => true) labels s p hinit (fun _ _ _ _ _ => trivial) h

end System

end Reactor.Lib
