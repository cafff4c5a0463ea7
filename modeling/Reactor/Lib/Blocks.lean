import Mathlib

/-!
# Pieces in blocks

A sequence of pieces, each of which goes whole to the end of the last block, while new blocks may
be opened at any time: lines in buffers, lines in files.
-/

namespace Reactor.Lib

/-- The blocks hold the lines in order, each line whole in one block. -/
def InBlocks {α : Type} (lines blocks : List (List α)) : Prop :=
  ∃ groups : List (List (List α)), groups.flatten = lines ∧ groups.map List.flatten = blocks

namespace InBlocks

variable {α : Type} {lines blocks : List (List α)}

theorem flatten_eq (h : InBlocks lines blocks) : blocks.flatten = lines.flatten := by
  obtain ⟨groups, rfl, rfl⟩ := h
  exact List.flatten_flatten.symm

/-- An empty block may be opened at any time. -/
theorem open_block (h : InBlocks lines blocks) : InBlocks lines (blocks ++ [[]]) := by
  obtain ⟨groups, hlines, hblocks⟩ := h
  exact ⟨groups ++ [[]], by simp [hlines], by simp [hblocks]⟩

/-- A line goes to the end of the last block. -/
theorem add_line {block : List α} (h : InBlocks lines (blocks ++ [block])) (line : List α) :
    InBlocks (lines ++ [line]) (blocks ++ [block ++ line]) := by
  obtain ⟨groups, hlines, hblocks⟩ := h
  obtain ⟨init, last, rfl, hinit, hlast⟩ := List.map_eq_append_iff.mp hblocks
  obtain ⟨group, hgroup, rfl⟩ : ∃ group, last = [group] ∧ group.flatten = block := by
    cases last with
    | nil => cases hlast
    | cons group rest =>
        obtain ⟨hhead, htail⟩ := List.cons.inj hlast
        exact ⟨group, by rw [List.map_eq_nil_iff.mp htail], hhead⟩
  subst hgroup
  exact ⟨init ++ [group ++ [line]], by simp [← hlines], by simp [hinit]⟩

/-- The first blocks hold the first pieces. -/
theorem take_blocks (h : InBlocks lines blocks) (m : Nat) :
    ∃ n, InBlocks (lines.take n) (blocks.take m) := by
  obtain ⟨groups, rfl, rfl⟩ := h
  refine ⟨(groups.take m).flatten.length, groups.take m, ?_, List.map_take⟩
  have hsplit : groups.flatten = (groups.take m).flatten ++ (groups.drop m).flatten := by
    rw [← List.flatten_append, List.take_append_drop]
  rw [hsplit, List.take_left]

/-- Pieces in blocks in larger blocks. -/
theorem trans {larger : List (List α)} (h : InBlocks lines blocks) (h' : InBlocks blocks larger) :
    InBlocks lines larger := by
  obtain ⟨groups, rfl, hblocks⟩ := h
  obtain ⟨outer, houter, rfl⟩ := h'
  rw [← houter] at hblocks
  clear houter
  induction outer generalizing groups with
  | nil =>
      have hnil : groups = [] := by simpa using hblocks
      exact ⟨[], by simp [hnil], rfl⟩
  | cons group rest ih =>
      obtain ⟨first, others, rfl, hfirst, hothers⟩ := List.map_eq_append_iff.mp hblocks
      obtain ⟨big, hbig, hrest⟩ := ih others hothers
      refine ⟨first.flatten :: big, by simp [hbig], ?_⟩
      rw [List.map_cons, hrest, List.map_cons, ← hfirst, List.flatten_flatten]

end InBlocks

end Reactor.Lib
