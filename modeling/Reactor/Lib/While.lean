import Mathlib

/-!
# Loops that emit events

`whileLoop` repeats a pass that may fail; a pass hands out events and says whether the loop
goes on. Every pass takes a unit of fuel, and `none` means that it did not suffice.

* `whileLoop_total` - the rule of total correctness: an invariant, a variant, and a
  postcondition of every outcome.
-/

namespace Reactor.Lib

variable {S E ε : Type}

/-- `while (go) { pass }`. -/
def whileLoop (pass : S → Except ε (Bool × List E × S)) :
    Nat → S → Option (Except ε (List E × S))
  | 0, _ => none
  | fuel + 1, s =>
      match pass s with
      | .error e => some (.error e)
      | .ok (false, out, s') => some (.ok (out, s'))
      | .ok (true, out, s') =>
          (whileLoop pass fuel s').map fun r => r.map fun p => (out ++ p.1, p.2)

variable {pass : S → Except ε (Bool × List E × S)}

/-- What the pass from a state of the invariant `I` must do for `Q` to hold of the outcome. -/
structure PassSpec (pass : S → Except ε (Bool × List E × S)) (I : S → Prop) (variant : S → Nat)
    (Q : S → Except ε (List E × S) → Prop) (s : S) : Prop where
  fails : ∀ e, pass s = .error e → Q s (.error e)
  leaves : ∀ out s', pass s = .ok (false, out, s') → Q s (.ok (out, s'))
  goes_on : ∀ out s', pass s = .ok (true, out, s') → I s' ∧ variant s' < variant s ∧
    ∀ r, Q s' r → Q s (r.map fun p => (out ++ p.1, p.2))

/-- A loop with an invariant and a variant ends, in an outcome of the postcondition. -/
theorem whileLoop_total {I : S → Prop} {variant : S → Nat} {Q : S → Except ε (List E × S) → Prop}
    (hpass : ∀ s, I s → PassSpec pass I variant Q s) {fuel : Nat} {s : S} (hs : I s)
    (hfuel : variant s < fuel) : ∃ r, whileLoop pass fuel s = some r ∧ Q s r := by
  induction fuel generalizing s with
  | zero => exact absurd hfuel (Nat.not_lt_zero _)
  | succ fuel ih =>
      have hspec := hpass s hs
      unfold whileLoop
      split
      · rename_i e heq
        exact ⟨_, rfl, hspec.fails e heq⟩
      · rename_i out s' heq
        exact ⟨_, rfl, hspec.leaves out s' heq⟩
      · rename_i out s' heq
        obtain ⟨hs', hlt, hback⟩ := hspec.goes_on out s' heq
        obtain ⟨r, hr, hq⟩ := ih hs' (by omega)
        exact ⟨_, by rw [hr]; rfl, hback r hq⟩

end Reactor.Lib
