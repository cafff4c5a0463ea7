import Mathlib

/-!
# Computations that may fail

Inversion lemmas for `Except`: what a computation that succeeded, or failed, went
through. `require` is a guard with its own error.
-/

namespace Reactor.Lib

variable {α β ε : Type}

/-- Goes on when `c` holds and fails with `e` otherwise. -/
def require (c : Prop) [Decidable c] (e : ε) : Except ε Unit :=
  if c then .ok () else .error e

@[simp] theorem require_eq_ok {c : Prop} [Decidable c] {e : ε} {u : Unit} :
    require c e = .ok u ↔ c := by
  unfold require
  split <;> simp_all

@[simp] theorem require_eq_error {c : Prop} [Decidable c] {e e' : ε} :
    require c e = .error e' ↔ ¬ c ∧ e = e' := by
  unfold require
  split <;> simp_all

theorem require_of {c : Prop} [Decidable c] {e : ε} (h : c) : require c e = .ok () := if_pos h

@[simp] theorem ok_bind {a : α} {f : α → Except ε β} : (Except.ok a >>= f) = f a := rfl

/-- A sequence succeeds when its first part does and the rest does on its result. -/
@[simp] theorem bind_eq_ok {x : Except ε α} {f : α → Except ε β} {b : β} :
    (x >>= f) = .ok b ↔ ∃ a, x = .ok a ∧ f a = .ok b := by
  cases x <;> simp [bind, Except.bind]

/-- A sequence fails where its first part does, or where the rest does. -/
@[simp] theorem bind_eq_error {x : Except ε α} {f : α → Except ε β} {e : ε} :
    (x >>= f) = .error e ↔ x = .error e ∨ ∃ a, x = .ok a ∧ f a = .error e := by
  cases x <;> simp [bind, Except.bind]

/-- A step whose result is mapped gives what the map makes of a result of the step. -/
theorem map_eq_some_ok {x : Option (Except ε α)} {f : α → β} {b : β} :
    (x.map fun r => r.map f) = some (.ok b) ↔ ∃ a, x = some (.ok a) ∧ f a = b := by
  cases x with
  | none => simp
  | some r => cases r <;> simp [Except.map]

end Reactor.Lib
