/-
# Blocks of memory

An allocated block is a list of cells, and a cell that has not been set since
the allocation is `none`.  A copy into a block fails if the block has no room for
it.

* `copy_append`, `store_append`: a copy to the start of the second part of a
  block leaves the first part alone.
* `store_replicate`: bytes behind those that have been set.
-/
import Mathlib.Data.List.Basic
import Mathlib.Tactic.Common

namespace DectManager

/-- An allocated block. -/
abbrev Block := List (Option UInt8)

namespace Block

/-- `malloc` sets nothing. -/
def malloc (size : ℕ) : Block := List.replicate size none

/-- `calloc` sets all bytes to zero. -/
def calloc (size : ℕ) : Block := List.replicate size (some 0)

/-- Copy bytes into a block, which must have room for them. -/
def store (offset : ℕ) (bytes : List UInt8) (b : Block) : Option Block :=
  if offset + bytes.length ≤ b.length then
    some (b.take offset ++ bytes.map some ++ b.drop (offset + bytes.length))
  else none

/-- Copy the cells of another block, set or not. -/
def copy (offset : ℕ) (cells : List (Option UInt8)) (b : Block) : Option Block :=
  if offset + cells.length ≤ b.length then
    some (b.take offset ++ cells ++ b.drop (offset + cells.length))
  else none

/-- Bytes are cells that have been set. -/
theorem store_eq_copy (offset : ℕ) (bytes : List UInt8) (b : Block) :
    store offset bytes b = copy offset (bytes.map some) b := by
  rw [store, copy, List.length_map]

/-- A copy fails exactly when there is no room. -/
theorem copy_eq_none_iff {offset : ℕ} {cells : List (Option UInt8)} {b : Block} :
    copy offset cells b = none ↔ b.length < offset + cells.length := by
  rw [copy]
  split_ifs with h
  · exact iff_of_false (by simp) (Nat.not_lt.mpr h)
  · exact iff_of_true rfl (Nat.not_le.mp h)

/-- A copy to the start of the second part of a block. -/
theorem copy_append (a b : Block) {cells : List (Option UInt8)} (h : cells.length ≤ b.length) :
    copy a.length cells (a ++ b) = some (a ++ cells ++ b.drop cells.length) := by
  rw [copy, if_pos (by rw [List.length_append]; omega), List.take_left, List.drop_append,
    List.drop_of_length_le (Nat.le_add_right _ _), List.nil_append, Nat.add_sub_cancel_left]

theorem store_append (a b : Block) {bytes : List UInt8} (h : bytes.length ≤ b.length) :
    store a.length bytes (a ++ b) = some (a ++ bytes.map some ++ b.drop bytes.length) := by
  have hle : (bytes.map some).length ≤ b.length := by
    rw [List.length_map]
    exact h
  rw [store_eq_copy, copy_append a b hle, List.length_map]

/-- **Bytes behind those that have been set**, in a block that is all the same from there
on. -/
theorem store_replicate {n : ℕ} (before bytes : List UInt8) (rest : ℕ) (c : Option UInt8)
    (hn : n = before.length) :
    store n bytes (before.map some ++ List.replicate (bytes.length + rest) c) =
      some ((before ++ bytes).map some ++ List.replicate rest c) := by
  have hle : bytes.length ≤ (List.replicate (bytes.length + rest) c).length := by
    rw [List.length_replicate]
    exact Nat.le_add_right _ _
  have h := store_append (before.map some) (List.replicate (bytes.length + rest) c) hle
  rw [List.length_map] at h
  rw [hn, h, List.map_append, List.drop_replicate, Nat.add_sub_cancel_left]

/-- A block that has not been set further. -/
theorem store_next {n : ℕ} (before bytes : List UInt8) (rest : ℕ) (hn : n = before.length) :
    store n bytes (before.map some ++ malloc (bytes.length + rest)) =
      some ((before ++ bytes).map some ++ malloc rest) :=
  store_replicate before bytes rest none hn

/-- The members before the array of a block that is all the same. -/
theorem store_header (header : List UInt8) (n : ℕ) (c : Option UInt8) :
    store 0 header (List.replicate (header.length + n) c) =
      some (header.map some ++ List.replicate n c) :=
  store_replicate [] header n c rfl

/-- The array behind them. -/
theorem store_array (header : List UInt8) {n : ℕ} (c : Option UInt8) {bytes : List UInt8}
    (h : bytes.length ≤ n) :
    store header.length bytes (header.map some ++ List.replicate n c) =
      some (header.map some ++ bytes.map some ++ List.replicate (n - bytes.length) c) := by
  have hstore := store_replicate header bytes (n - bytes.length) c rfl
  rw [Nat.add_sub_cancel' h, List.map_append] at hstore
  exact hstore

end Block

end DectManager
