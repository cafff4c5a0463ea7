import Reactor.BufferSequence

/-!
# Lines in a buffer (`Buffer::findCRLF`)

The searches, with positions in the vector for pointers, as elsewhere for `retrieveUntil`.

* `search` - `std::search`, and what it finds: the first occurrence (`search_found`,
  `search_first`), which more input does not move (`search_append`).
* `findCRLF_eq` - the first line of the content ends where the search says.
* `retrieve_content`, `retrieveUntil_content`, `slice_content` - taking bytes out of a buffer
  that has them.
-/

namespace Reactor

open Reactor.Lib

/-- `std::search`: the offset of the first occurrence of `pattern`, the end of the range where
there is none. -/
def search (pattern : Bytes) : Bytes → Nat
  | [] => 0
  | x :: xs => if pattern.isPrefixOf (x :: xs) then 0 else search pattern xs + 1

def kCRLF : Bytes := [13, 10]

/-- How the parsers of lines can end the process: in a call of the buffer, or in an assertion
of a search from a position. -/
inductive LineFault where
  | buffer (f : Fault)
  | peek_le_start
  | start_le_beginWrite
deriving DecidableEq, Repr

/-- A call of the buffer within such a parser. -/
def liftBuffer {α : Type} (x : Exec α) : Except LineFault α := x.mapError .buffer

@[simp] theorem liftBuffer_ok {α : Type} (a : α) : liftBuffer (.ok a) = .ok a := rfl

namespace Buffer

/-- The position of the next `"\r\n"` from `start` on, which is `peek()` or a later position. -/
def searchCRLF (b : Buffer) (start : Nat) : Option Nat :=
  let crlf := start + search kCRLF (slice b.buffer start b.writerIndex)
  if crlf = b.writerIndex then none else some crlf

def findCRLF (b : Buffer) : Option Nat := b.searchCRLF b.readerIndex

/-- `findCRLF(start)`. -/
def findCRLFFrom (b : Buffer) (start : Nat) : Except LineFault (Option Nat) := do
  require (b.readerIndex ≤ start) .peek_le_start
  require (start ≤ b.writerIndex) .start_le_beginWrite
  .ok (b.searchCRLF start)

end Buffer

/-! ### Searching -/

section Search

variable {pattern xs : Bytes}

theorem search_le (pattern xs : Bytes) : search pattern xs ≤ xs.length := by
  induction xs with
  | nil => exact Nat.le_refl _
  | cons x xs ih =>
      unfold search
      split
      · exact Nat.zero_le _
      · exact Nat.succ_le_succ ih

/-- What is found is an occurrence. -/
theorem search_found (h : search pattern xs < xs.length) :
    pattern <+: xs.drop (search pattern xs) := by
  induction xs with
  | nil => exact absurd h (Nat.lt_irrefl 0)
  | cons x xs ih =>
      unfold search at h ⊢
      split at h
      · rename_i hp
        rw [if_pos hp]
        exact List.isPrefixOf_iff_prefix.mp hp
      · rename_i hp
        rw [if_neg hp, List.drop_succ_cons]
        exact ih (Nat.lt_of_succ_lt_succ h)

/-- It is the first one. -/
theorem search_first {i : Nat} (h : i < search pattern xs) : ¬ pattern <+: xs.drop i := by
  induction xs generalizing i with
  | nil => exact absurd h (Nat.not_lt_zero i)
  | cons x xs ih =>
      unfold search at h
      split at h
      · exact absurd h (Nat.not_lt_zero i)
      · rename_i hp
        cases i with
        | zero => exact fun hfirst => hp (List.isPrefixOf_iff_prefix.mpr hfirst)
        | succ i => exact ih (Nat.lt_of_succ_lt_succ h)

/-- The first occurrence of a pattern is its only first occurrence. -/
theorem search_eq {k : Nat} (hk : pattern <+: xs.drop k) (hlt : k < xs.length)
    (hfirst : ∀ i < k, ¬ pattern <+: xs.drop i) : search pattern xs = k := by
  rcases Nat.lt_trichotomy (search pattern xs) k with h | h | h
  · exact absurd (search_found (h.trans hlt)) (hfirst _ h)
  · exact h
  · exact absurd hk (search_first h)

/-- An occurrence ends within what was searched. -/
theorem search_add_le (h : search pattern xs < xs.length) :
    search pattern xs + pattern.length ≤ xs.length := by
  have hlen := (search_found h).length_le
  rw [List.length_drop] at hlen
  omega

/-- More input behind an occurrence does not move it. -/
theorem search_append (h : search pattern xs < xs.length) (more : Bytes) :
    search pattern (xs ++ more) = search pattern xs := by
  have hfits := search_add_le h
  refine search_eq ?_ (by rw [List.length_append]; omega) fun i hi hfirst => ?_
  · rw [List.drop_append_of_le_length h.le]
    exact (search_found h).trans (List.prefix_append _ _)
  · refine search_first hi (List.prefix_of_prefix_length_le hfirst ?_ ?_)
    · rw [List.drop_append_of_le_length (by omega)]
      exact List.prefix_append _ _
    · rw [List.length_drop]
      omega

/-- Bytes with no `"\r\n"` in them. -/
def IsLine (line : Bytes) : Prop := search kCRLF line = line.length

instance (line : Bytes) : Decidable (IsLine line) := inferInstanceAs (Decidable (_ = _))

/-- A line ends at its `"\r\n"`, also where its last byte is a `'\r'`. -/
theorem IsLine.search_eq {line : Bytes} (h : IsLine line) (rest : Bytes) :
    search kCRLF (line ++ kCRLF ++ rest) = line.length := by
  refine Reactor.search_eq ?_ (by simp [kCRLF]) fun i hi hfirst => ?_
  · rw [List.append_assoc, List.drop_left]
    exact List.prefix_append _ _
  · refine search_first (h.symm ▸ hi) ?_
    -- an occurrence before the end of the line lies in the line
    rw [List.append_assoc, List.drop_append_of_le_length hi.le] at hfirst
    rw [kCRLF] at hfirst ⊢
    cases hd : line.drop i with
    | nil => exact absurd (List.drop_eq_nil_iff.mp hd) (Nat.not_le.mpr hi)
    | cons x xs =>
        rw [hd] at hfirst
        cases xs with
        | nil => simp at hfirst
        | cons y ys => simpa using hfirst

/-- What stands before an occurrence is a line. -/
theorem isLine_take (h : search kCRLF xs < xs.length) : IsLine (xs.take (search kCRLF xs)) := by
  have hlen : (xs.take (search kCRLF xs)).length = search kCRLF xs := by
    rw [List.length_take, Nat.min_eq_left h.le]
  rcases Nat.lt_or_ge (search kCRLF (xs.take (search kCRLF xs)))
      (xs.take (search kCRLF xs)).length with hlt | hge
  · have hsame := search_append hlt (xs.drop (search kCRLF xs))
    rw [List.take_append_drop] at hsame
    omega
  · exact Nat.le_antisymm (search_le _ _) hge

theorem IsLine.append {line line' : Bytes} (h : 13 ∉ line) (h' : IsLine line') :
    IsLine (line ++ line') := by
  induction line with
  | nil => exact h'
  | cons x line ih =>
      simp only [List.mem_cons, not_or] at h
      have hnot : ¬ kCRLF.isPrefixOf (x :: (line ++ line')) = true := by
        simp [kCRLF, h.1]
      have hrest : search kCRLF (line ++ line') = (line ++ line').length := ih h.2
      rw [List.cons_append, IsLine, search, if_neg hnot, hrest, List.length_cons]

theorem IsLine.drop {line : Bytes} (h : IsLine line) (i : Nat) : IsLine (line.drop i) := by
  rcases Nat.lt_or_ge (search kCRLF (line.drop i)) (line.drop i).length with hlt | hge
  · have hfound := search_found hlt
    rw [List.drop_drop] at hfound
    rw [List.length_drop] at hlt
    exact absurd hfound (search_first (by rw [h]; omega))
  · exact Nat.le_antisymm (search_le _ _) hge

end Search

/-! ### Lines of a buffer -/

namespace Buffer

section Lines

variable {b : Buffer} {len : Nat}

/-- The first `len` readable bytes, at `peek()`. -/
theorem slice_content (h : b.WF) (hlen : len ≤ b.content.length) :
    slice b.buffer b.readerIndex (b.readerIndex + len) = b.content.take len := by
  have hread := h.readableBytes_eq
  have hr := h.reader_le
  rw [h.length_content] at hlen
  rw [Buffer.content, take_slice _ (by omega)]

/-- No pointer into the readable bytes wraps around. -/
theorem sizeAdd_readerIndex (h : b.WF) (hlen : len ≤ b.content.length) :
    sizeAdd b.readerIndex len = b.readerIndex + len := by
  have hread := h.readableBytes_eq
  have hw := h.writer_le
  have hs := h.size_le
  have hr := h.reader_le
  have hmax := maxSize_lt_sizeMod
  rw [h.length_content] at hlen
  exact sizeAdd_eq (by omega)

/-- Bytes that are there can be taken out. -/
theorem retrieve_content (h : b.WF) (hlen : len ≤ b.content.length) :
    ∃ b', b.retrieve len = .ok b' ∧ b'.WF ∧ b'.content = b.content.drop len := by
  rw [h.length_content] at hlen
  cases hret : b.retrieve len with
  | error f => exact absurd hret (retrieve_ne_error hlen)
  | ok b' => exact ⟨b', rfl, retrieve_ok h hret⟩

theorem retrieveUntil_content (h : b.WF) (hlen : len ≤ b.content.length) :
    ∃ b', b.retrieveUntil (b.readerIndex + len) = .ok b' ∧ b'.WF ∧
      b'.content = b.content.drop len := by
  have hread := h.readableBytes_eq
  have hr := h.reader_le
  have hend : b.readerIndex + len ≤ b.writerIndex := by
    rw [h.length_content] at hlen
    omega
  rw [retrieveUntil, check_of (Nat.le_add_right _ _), ok_bind, check_of hend, ok_bind,
    Nat.add_sub_cancel_left]
  exact retrieve_content h hlen

/-- The search in the readable bytes: the end of the first line, if there is one. -/
theorem findCRLF_eq (h : b.WF) :
    b.findCRLF = if search kCRLF b.content < b.content.length then
      some (b.readerIndex + search kCRLF b.content) else none := by
  have hread := h.readableBytes_eq
  have hr := h.reader_le
  have hle := search_le kCRLF b.content
  have hlen := h.length_content
  rw [findCRLF, searchCRLF]
  change (if b.readerIndex + search kCRLF b.content = b.writerIndex then _ else _) = _
  by_cases hfound : search kCRLF b.content < b.content.length
  · rw [if_pos hfound, if_neg (by omega)]
    rfl
  · rw [if_neg hfound, if_pos (by omega)]

/-- The same from a later position. -/
theorem findCRLFFrom_eq (h : b.WF) (hlen : len ≤ b.content.length) :
    b.findCRLFFrom (b.readerIndex + len) =
      .ok (if search kCRLF (b.content.drop len) < (b.content.drop len).length then
        some (b.readerIndex + len + search kCRLF (b.content.drop len)) else none) := by
  have hread := h.readableBytes_eq
  have hr := h.reader_le
  have hle := search_le kCRLF (b.content.drop len)
  have hlength := h.length_content
  have hdrop : b.content.drop len = slice b.buffer (b.readerIndex + len) b.writerIndex :=
    drop_slice _ _ _ _
  have hend : b.readerIndex + len ≤ b.writerIndex := by omega
  rw [findCRLFFrom, require_of (Nat.le_add_right _ _), ok_bind, require_of hend, ok_bind,
    searchCRLF, ← hdrop]
  have hrest : (b.content.drop len).length = b.content.length - len := List.length_drop
  by_cases hfound : search kCRLF (b.content.drop len) < (b.content.drop len).length
  · simp only [if_pos hfound]
    rw [if_neg (by omega)]
  · simp only [if_neg hfound]
    rw [if_pos (by omega)]

/-- Bytes of the content, between two positions in it. -/
theorem slice_content_mid {i j : Nat} (h : b.WF) (hj : j ≤ b.content.length) :
    slice b.buffer (b.readerIndex + i) (b.readerIndex + j) = (b.content.take j).drop i := by
  rw [← slice_content h hj, drop_slice]

end Lines

end Buffer

end Reactor
