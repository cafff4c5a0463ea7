import Mathlib

/-!
# Ranges of a flat memory

A memory is a list of cells. `slice` reads the cells between two positions,
`overwrite` stores a run of cells at a position, `resize` cuts the memory or
extends it with a fill value.
-/

namespace Reactor.Lib

variable {α : Type}

/-- The cells of `mem` from position `i` up to, but not including, `j`. -/
def slice (mem : List α) (i j : Nat) : List α := (mem.take j).drop i

/-- `mem` with `data` stored from position `p` on. -/
def overwrite (mem : List α) (p : Nat) (data : List α) : List α :=
  mem.take p ++ data ++ mem.drop (p + data.length)

/-- `mem` cut or extended to `n` cells. -/
def resize (mem : List α) (n : Nat) (fill : α) : List α :=
  mem.take n ++ List.replicate (n - mem.length) fill

@[simp] theorem slice_self (mem : List α) (i : Nat) : slice mem i i = [] := by
  simp [slice]

theorem length_slice {mem : List α} {i j : Nat} (hj : j ≤ mem.length) :
    (slice mem i j).length = j - i := by
  simp only [slice, List.length_drop, List.length_take]
  omega

/-- The rest of a slice after its first `n` cells. -/
theorem drop_slice (mem : List α) (i j n : Nat) : (slice mem i j).drop n = slice mem (i + n) j := by
  simp only [slice, List.drop_drop]

/-- The beginning of a slice. -/
theorem take_slice (mem : List α) {i j n : Nat} (hij : i + n ≤ j) :
    (slice mem i j).take n = slice mem i (i + n) := by
  unfold slice
  rw [List.take_drop, List.take_take, Nat.min_eq_left hij]

theorem length_overwrite {mem data : List α} {p : Nat} (h : p + data.length ≤ mem.length) :
    (overwrite mem p data).length = mem.length := by
  simp only [overwrite, List.length_append, List.length_take, List.length_drop]
  omega

theorem take_overwrite {mem data : List α} {p : Nat} (hp : p ≤ mem.length) :
    (overwrite mem p data).take (p + data.length) = mem.take p ++ data := by
  have hlen : (mem.take p ++ data).length = p + data.length := by
    simp only [List.length_append, List.length_take]
    omega
  rw [overwrite, ← hlen, List.take_left]

/-- What is read back across the end of the old content: the old cells, then the
stored ones. -/
theorem slice_overwrite {mem data : List α} {i p : Nat} (hip : i ≤ p) (hp : p ≤ mem.length) :
    slice (overwrite mem p data) i (p + data.length) = slice mem i p ++ data := by
  unfold slice
  rw [take_overwrite hp, List.drop_append_of_le_length]
  simp only [List.length_take]
  omega

/-- What is read back from where a run of cells was stored: those cells, then the old ones. -/
theorem slice_overwrite_front {mem data : List α} {p j : Nat} (hp : p ≤ mem.length)
    (hj : p + data.length ≤ j) :
    slice (overwrite mem p data) p j = data ++ slice mem (p + data.length) j := by
  have hlen : (mem.take p).length = p := by
    rw [List.length_take, Nat.min_eq_left hp]
  unfold slice overwrite
  rw [List.append_assoc, List.take_append, List.take_take, hlen, Nat.min_eq_right (by omega),
    List.drop_left' hlen, List.take_append, List.take_of_length_le (by omega), List.take_drop]
  congr 2
  · congr 1
    omega

theorem length_resize (mem : List α) (n : Nat) (fill : α) : (resize mem n fill).length = n := by
  simp only [resize, List.length_append, List.length_take, List.length_replicate]
  omega

/-- Extending a memory keeps what it held. -/
theorem slice_resize {mem : List α} {i j n : Nat} {fill : α} (hj : j ≤ mem.length)
    (hn : mem.length ≤ n) : slice (resize mem n fill) i j = slice mem i j := by
  unfold slice resize
  rw [List.take_of_length_le hn, List.take_append_of_le_length hj]

end Reactor.Lib
