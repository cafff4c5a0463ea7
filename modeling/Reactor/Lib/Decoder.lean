import Mathlib

/-!
# Decoders of a stream that arrives in pieces

A decoder looks at the input it has not consumed yet. A step consumes some of it, hands out
items and moves to another state; where the input is only a part of what the decoder needs,
no step is possible. More input changes no step that is possible without it.

* `Run` - steps one after another. A run goes the same way whatever input follows
  (`Run.append`), and two runs from one place lie on one path (`Run.linear`).
* `decode` - the longest run; every run hands out a prefix of its items (`Run.items_first`), and
  one that cannot go on all of them (`Run.eq_decode`).
* `Run.decode_rest` - decoding may stop on the way and go on with the rest and what follows, so
  the input may come in pieces.
* `Run.flatMap` - encoded items one after another are decoded one after another.
-/

namespace Reactor.Lib

/-- A decoder with states `σ`, input symbols `α` and items `ω`. -/
structure Decoder (σ α ω : Type) where
  /-- the next state, the items handed out and the number of symbols consumed -/
  step : σ → List α → Option (σ × List ω × Nat)
  consumes : ∀ {s xs s' out k}, step s xs = some (s', out, k) → 0 < k ∧ k ≤ xs.length
  extends_step : ∀ {s xs r}, step s xs = some r → ∀ more, step s (xs ++ more) = some r

/-- What a decoder has handed out, its state and the input it has not consumed. -/
structure Decoded (σ α ω : Type) where
  items : List ω
  state : σ
  rest : List α

namespace Decoder

variable {σ α ω μ : Type} (d : Decoder σ α ω)

/-- No step is possible. -/
def Waiting (s : σ) (xs : List α) : Prop := d.step s xs = none

/-- Steps from state `s` and input `xs` to `t` and `ys`, with the items handed out. -/
inductive Run : σ → List α → List ω → σ → List α → Prop where
  | refl (s : σ) (xs : List α) : Run s xs [] s xs
  | step {s s' t : σ} {xs ys : List α} {out outs : List ω} {k : Nat} :
      d.step s xs = some (s', out, k) → Run s' (xs.drop k) outs t ys →
      Run s xs (out ++ outs) t ys

/-- The first `n` steps, or as many as are possible. -/
def decodeUpTo : Nat → σ → List α → Decoded σ α ω
  | 0, s, xs => ⟨[], s, xs⟩
  | n + 1, s, xs =>
      match d.step s xs with
      | none => ⟨[], s, xs⟩
      | some (s', out, k) =>
          let r := decodeUpTo n s' (xs.drop k)
          { r with items := out ++ r.items }

/-- As many steps as are possible. -/
def decode (s : σ) (xs : List α) : Decoded σ α ω := d.decodeUpTo xs.length s xs

variable {d} {s t t' : σ} {xs ys ys' : List α} {outs outs' : List ω}

theorem waiting_nil (s : σ) : d.Waiting s [] := by
  cases h : d.step s [] with
  | none => exact h
  | some r =>
      obtain ⟨s', out, k⟩ := r
      obtain ⟨hpos, hle⟩ := d.consumes h
      exact absurd (hpos.trans_le hle) (Nat.lt_irrefl 0)

theorem Run.single {s' : σ} {out : List ω} {k : Nat} (h : d.step s xs = some (s', out, k)) :
    d.Run s xs out s' (xs.drop k) := by
  have hrun := Run.step h (.refl s' (xs.drop k))
  rwa [List.append_nil] at hrun

theorem Run.trans (h : d.Run s xs outs t ys) (h' : d.Run t ys outs' t' ys') :
    d.Run s xs (outs ++ outs') t' ys' := by
  induction h with
  | refl => exact h'
  | step hstep _ ih =>
      rw [List.append_assoc]
      exact .step hstep (ih h')

/-- More input changes nothing of what a run has done. -/
theorem Run.append (h : d.Run s xs outs t ys) (more : List α) :
    d.Run s (xs ++ more) outs t (ys ++ more) := by
  induction h with
  | refl => exact .refl _ _
  | @step s s' t xs ys out outs k hstep _ ih =>
      refine .step (d.extends_step hstep more) ?_
      rwa [List.drop_append_of_le_length (d.consumes hstep).2]

/-- Two runs from one place: one of them goes on from where the other ends. -/
theorem Run.linear (h : d.Run s xs outs t ys) (h' : d.Run s xs outs' t' ys') :
    (∃ more, outs' = outs ++ more ∧ d.Run t ys more t' ys') ∨
      (∃ more, outs = outs' ++ more ∧ d.Run t' ys' more t ys) := by
  induction h generalizing outs' with
  | refl => exact Or.inl ⟨outs', rfl, h'⟩
  | @step s s' t xs ys out outs k hstep hrest ih =>
      cases h' with
      | refl => exact Or.inr ⟨out ++ outs, rfl, .step hstep hrest⟩
      | @step _ _ _ _ _ out' outs' _ hstep' hrest' =>
          rw [hstep] at hstep'
          cases hstep'
          rcases ih hrest' with ⟨more, rfl, hrun⟩ | ⟨more, rfl, hrun⟩
          · exact Or.inl ⟨more, (List.append_assoc _ _ _).symm, hrun⟩
          · exact Or.inr ⟨more, (List.append_assoc _ _ _).symm, hrun⟩

theorem Run.of_waiting (hw : d.Waiting s xs) (h : d.Run s xs outs t ys) :
    outs = [] ∧ t = s ∧ ys = xs := by
  cases h with
  | refl => exact ⟨rfl, rfl, rfl⟩
  | step hstep _ => exact absurd (hw.symm.trans hstep) (by simp)

theorem decodeUpTo_run (n : Nat) (s : σ) (xs : List α) :
    d.Run s xs (d.decodeUpTo n s xs).items (d.decodeUpTo n s xs).state
      (d.decodeUpTo n s xs).rest := by
  induction n generalizing s xs with
  | zero => exact .refl s xs
  | succ n ih =>
      unfold decodeUpTo
      split
      · exact .refl s xs
      · rename_i s' out k hstep
        exact .step hstep (ih s' (xs.drop k))

theorem decodeUpTo_waiting {n : Nat} (h : xs.length ≤ n) :
    d.Waiting (d.decodeUpTo n s xs).state (d.decodeUpTo n s xs).rest := by
  induction n generalizing s xs with
  | zero =>
      rw [List.eq_nil_of_length_eq_zero (Nat.le_zero.mp h)]
      exact waiting_nil s
  | succ n ih =>
      unfold decodeUpTo
      split
      · assumption
      · rename_i s' out k hstep
        obtain ⟨hpos, hle⟩ := d.consumes hstep
        exact ih (by rw [List.length_drop]; omega)

theorem decode_run (s : σ) (xs : List α) :
    d.Run s xs (d.decode s xs).items (d.decode s xs).state (d.decode s xs).rest :=
  decodeUpTo_run xs.length s xs

theorem decode_waiting (s : σ) (xs : List α) :
    d.Waiting (d.decode s xs).state (d.decode s xs).rest :=
  decodeUpTo_waiting (Nat.le_refl _)

/-- Every run hands out a prefix of what decoding hands out. -/
theorem Run.items_first (h : d.Run s xs outs t ys) : outs <+: (d.decode s xs).items := by
  rcases h.linear (decode_run s xs) with ⟨more, heq, -⟩ | ⟨more, heq, hrun⟩
  · exact ⟨more, heq.symm⟩
  · obtain ⟨rfl, -, -⟩ := hrun.of_waiting (decode_waiting s xs)
    rw [List.append_nil] at heq
    exact ⟨[], by rw [List.append_nil, heq]⟩

/-- A run that cannot go on is the longest. -/
theorem Run.eq_decode (h : d.Run s xs outs t ys) (hw : d.Waiting t ys) :
    d.decode s xs = ⟨outs, t, ys⟩ := by
  have hdec := decode_run (d := d) s xs
  have hwait := decode_waiting (d := d) s xs
  generalize d.decode s xs = r at hdec hwait
  obtain ⟨items, state, rest⟩ := r
  dsimp only at hdec hwait
  rcases h.linear hdec with ⟨more, heq, hrun⟩ | ⟨more, heq, hrun⟩
  · obtain ⟨rfl, rfl, rfl⟩ := hrun.of_waiting hw
    rw [List.append_nil] at heq
    rw [heq]
  · obtain ⟨rfl, rfl, rfl⟩ := hrun.of_waiting hwait
    rw [List.append_nil] at heq
    rw [heq]

/-- What is left of the input does not depend on where decoding stopped on the way. -/
theorem Run.decode_rest (h : d.Run s xs outs t ys) (more : List α) :
    (d.decode s (xs ++ more)).rest = (d.decode t (ys ++ more)).rest := by
  have hrun := (h.append more).trans (decode_run t (ys ++ more))
  rw [hrun.eq_decode (decode_waiting t (ys ++ more))]

/-! ### Encoded items -/

/-- Where every encoding is decoded to its items, whatever follows, so is a list of them. -/
theorem Run.flatMap (encode : μ → List α) (items : μ → List ω) (ms : List μ)
    (h : ∀ m ∈ ms, ∀ more, d.Run s (encode m ++ more) (items m) s more) (more : List α) :
    d.Run s (ms.flatMap encode ++ more) (ms.flatMap items) s more := by
  induction ms with
  | nil => exact .refl s more
  | cons m ms ih =>
      rw [List.flatMap_cons, List.flatMap_cons, List.append_assoc]
      exact (h m List.mem_cons_self _).trans
        (ih fun m' hm' => h m' (List.mem_cons_of_mem m hm'))

end Decoder

end Reactor.Lib
