import Mathlib

/-!
# Integers as bytes

The bytes of a number in a fixed width: least significant first (`leBytes`), and of an integer
in two's complement, most significant first (`beBytes`). Floor division is what makes the
second one two's complement.
-/

namespace Reactor.Lib

/-- The `k` low bytes of `n`, least significant first. -/
def leBytes (k n : Nat) : List UInt8 := (List.range k).map fun i => UInt8.ofNat (n / 256 ^ i)

/-- The number whose bytes are `bytes`, least significant first. -/
def leValue (bytes : List UInt8) : Nat := bytes.foldr (fun byte acc => byte.toNat + 256 * acc) 0

/-- The two's complement of `z` in `k` bytes, most significant first. -/
def beBytes (k : Nat) (z : Int) : List UInt8 :=
  (List.range k).map fun i => UInt8.ofNat (z / 256 ^ (k - 1 - i) % 256).toNat

@[simp] theorem length_leBytes (k n : Nat) : (leBytes k n).length = k := by
  simp [leBytes]

@[simp] theorem length_beBytes (k : Nat) (z : Int) : (beBytes k z).length = k := by
  simp [beBytes]

theorem leBytes_succ (k n : Nat) : leBytes (k + 1) n = UInt8.ofNat n :: leBytes k (n / 256) := by
  simp only [leBytes, List.range_succ_eq_map, List.map_cons, List.map_map, Nat.pow_zero,
    Nat.div_one]
  congr 1
  apply List.map_congr_left
  intro i _
  simp only [Function.comp, Nat.succ_eq_add_one, Nat.pow_succ', Nat.div_div_eq_div_mul]

theorem leValue_leBytes (k n : Nat) : leValue (leBytes k n) = n % 256 ^ k := by
  induction k generalizing n with
  | zero => simp [leBytes, leValue, Nat.mod_one]
  | succ k ih =>
      have hbyte : (UInt8.ofNat n).toNat = n % 256 := by simp
      have hrest := ih (n / 256)
      rw [leValue] at hrest ⊢
      rw [leBytes_succ, List.foldr_cons, hrest, hbyte, Nat.pow_succ', Nat.mod_mul]

theorem leBytes_leValue (bytes : List UInt8) : leBytes bytes.length (leValue bytes) = bytes := by
  induction bytes with
  | nil => rfl
  | cons byte rest ih =>
      have hbyte := byte.toNat_lt
      have hvalue : leValue (byte :: rest) = byte.toNat + 256 * leValue rest := rfl
      have hdiv : (byte.toNat + 256 * leValue rest) / 256 = leValue rest := by omega
      have hlow : UInt8.ofNat (byte.toNat + 256 * leValue rest) = byte := by
        apply UInt8.toNat_inj.mp
        simp only [UInt8.toNat_ofNat']
        omega
      rw [List.length_cons, hvalue, leBytes_succ, hdiv, ih, hlow]

/-- Most significant first is the other order around. -/
theorem reverse_leBytes (k n : Nat) : (leBytes k n).reverse = beBytes k n := by
  apply List.ext_getElem (by simp)
  intro i hi _
  have hk : i < k := by simpa using hi
  have hcast : ((n : Int) / 256 ^ (k - 1 - i) % 256).toNat = n / 256 ^ (k - 1 - i) % 256 := by
    have hpow : (256 : Int) ^ (k - 1 - i) = ((256 ^ (k - 1 - i) : Nat) : Int) :=
      (Int.natCast_pow 256 _).symm
    rw [hpow, ← Int.natCast_ediv]
    omega
  apply UInt8.toNat_inj.mp
  simp only [leBytes, beBytes, List.getElem_reverse, List.getElem_map, List.getElem_range,
    List.length_map, List.length_range, hcast, UInt8.toNat_ofNat']
  omega

/-- Only the low bytes of an integer are encoded. -/
theorem beBytes_emod (k : Nat) (z : Int) : beBytes k (z % 256 ^ k) = beBytes k z := by
  apply List.map_congr_left
  intro i hi
  have hk : i < k := List.mem_range.mp hi
  set j := k - 1 - i with hj
  have hpow : (256 : Int) ^ k = 256 ^ j * (256 * 256 ^ i) := by
    rw [← Int.pow_succ', ← Int.pow_add]
    congr 1
    omega
  have hsplit : z = z % 256 ^ k + 256 ^ j * (256 * 256 ^ i * (z / 256 ^ k)) := by
    have h := Int.emod_add_mul_ediv z (256 ^ k)
    rw [← Int.mul_assoc, ← hpow]
    exact h.symm
  have hdiv : z / 256 ^ j = z % 256 ^ k / 256 ^ j + 256 * (256 ^ i * (z / 256 ^ k)) := by
    conv_lhs => rw [hsplit]
    rw [Int.add_mul_ediv_left _ _ (Int.pow_ne_zero (by decide)), Int.mul_assoc]
  rw [hdiv, Int.add_mul_emod_self_left]

end Reactor.Lib
