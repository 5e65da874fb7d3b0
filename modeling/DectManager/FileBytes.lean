/-
# Reading and writing at an offset of a file

The content of a file is a list of bytes.  `writeAt` is what `lseek` and `write`
make of it: behind the end of the file a hole is filled.  `stored` is the memory
that some bytes have been read into.

* `getD_writeAt`: what stands where.
* `readAt_writeAt`, `writeAt_writeAt`: what was written is read, and a second write
  to the same place replaces the first.
-/
import Mathlib.Data.List.Basic
import Mathlib.Data.List.GetD
import Mathlib.Tactic.Common

namespace FileBytes

variable {α : Type*}

/-- What `read` returns at an offset. -/
def readAt (file : List α) (off n : ℕ) : List α := (file.drop off).take n

/-- What the file holds after `write` at an offset. -/
def writeAt (fill : α) (file : List α) (off : ℕ) (bytes : List α) : List α :=
  if bytes = [] then file
  else (file ++ List.replicate (off - file.length) fill).take off ++
    (bytes ++ file.drop (off + bytes.length))

/-- Memory that some bytes have been stored to. -/
def stored (memory : ℕ → α) (bytes : List α) (i : ℕ) : α := bytes.getD i (memory i)

theorem stored_of_getElem? {memory : ℕ → α} {bytes : List α} {i : ℕ} {b : α}
    (h : bytes[i]? = some b) : stored memory bytes i = b := by
  rw [stored, List.getD_eq_getElem?_getD, h, Option.getD_some]

theorem stored_of_lt (memory : ℕ → α) {bytes : List α} {i : ℕ} (h : i < bytes.length) :
    stored memory bytes i = bytes[i] := List.getD_eq_getElem _ _ h

theorem stored_of_le (memory : ℕ → α) {bytes : List α} {i : ℕ} (h : bytes.length ≤ i) :
    stored memory bytes i = memory i := List.getD_eq_default _ _ h

variable {fill : α}

/-- The part before the offset. -/
theorem length_take_hole (file : List α) (off : ℕ) :
    ((file ++ List.replicate (off - file.length) fill).take off).length = off := by
  rw [List.length_take, List.length_append, List.length_replicate]
  omega

theorem writeAt_of_ne_nil {bytes : List α} (hne : bytes ≠ []) (file : List α) (off : ℕ) :
    writeAt fill file off bytes =
      (file ++ List.replicate (off - file.length) fill).take off ++
        (bytes ++ file.drop (off + bytes.length)) := if_neg hne

/-- The file reaches to the end of what was written, if it was shorter. -/
theorem length_writeAt {bytes : List α} (hne : bytes ≠ []) (file : List α) (off : ℕ) :
    (writeAt fill file off bytes).length = max file.length (off + bytes.length) := by
  rw [writeAt_of_ne_nil hne, List.length_append, length_take_hole, List.length_append,
    List.length_drop]
  omega

/-- The hole holds nothing else than what stands behind the end of a file. -/
theorem getD_append_fill (file : List α) (n i : ℕ) :
    (file ++ List.replicate n fill).getD i fill = file.getD i fill := by
  by_cases hi : i < file.length
  · rw [List.getD_append _ _ _ _ hi]
  · rw [List.getD_append_right _ _ _ _ (Nat.not_lt.mp hi),
      List.getD_eq_default file _ (Nat.not_lt.mp hi), List.getD_eq_getElem?_getD,
      List.getElem?_getD_replicate_default_eq]

/-- **What stands where** after a write. -/
theorem getD_writeAt (file : List α) (off : ℕ) (bytes : List α) (i : ℕ) :
    (writeAt fill file off bytes).getD i fill =
      if off ≤ i ∧ i < off + bytes.length then bytes.getD (i - off) fill
      else file.getD i fill := by
  by_cases hne : bytes = []
  · subst hne
    rw [if_neg (by rw [List.length_nil]; omega)]
    rfl
  · have hlen := @length_take_hole α fill file off
    rw [writeAt_of_ne_nil hne]
    by_cases hbefore : i < off
    · rw [List.getD_append _ _ _ _ (by omega), if_neg (by omega)]
      rw [← getD_append_fill file (off - file.length)]
      simp only [List.getD_eq_getElem?_getD, List.getElem?_take, if_pos hbefore]
    · rw [List.getD_append_right _ _ _ _ (by omega), hlen]
      by_cases hin : i < off + bytes.length
      · rw [List.getD_append _ _ _ _ (by omega), if_pos ⟨by omega, hin⟩]
      · rw [List.getD_append_right _ _ _ _ (by omega), if_neg (by omega)]
        simp only [List.getD_eq_getElem?_getD, List.getElem?_drop]
        rw [show off + bytes.length + (i - off - bytes.length) = i by omega]

/-- A file is what it is as long as it is, and what it holds. -/
theorem eq_of_getD {file file' : List α} (hlen : file.length = file'.length)
    (h : ∀ i, file.getD i fill = file'.getD i fill) : file = file' := by
  refine List.ext_getElem hlen fun i hi hi' => ?_
  have hget := h i
  rwa [List.getD_eq_getElem _ _ hi, List.getD_eq_getElem _ _ hi'] at hget

/-- One byte is read, unless the file ends before it. -/
theorem headD_readAt (file : List α) (off : ℕ) :
    (readAt file off 1).headD fill = file.getD off fill := by
  rw [readAt, List.headD_eq_head?_getD, List.head?_take, if_neg Nat.one_ne_zero, List.head?_drop,
    List.getD_eq_getElem?_getD]

/-- **What was written is read.** -/
theorem readAt_writeAt {bytes : List α} (hne : bytes ≠ []) (file : List α) (off : ℕ) :
    readAt (writeAt fill file off bytes) off bytes.length = bytes := by
  rw [readAt, writeAt_of_ne_nil hne, List.drop_left' (length_take_hole file off), List.take_left]

/-- **A second write** to the same place replaces the first. -/
theorem writeAt_writeAt {bytes bytes' : List α} (hlen : bytes.length = bytes'.length)
    (file : List α) (off : ℕ) :
    writeAt fill (writeAt fill file off bytes) off bytes' = writeAt fill file off bytes' := by
  by_cases hne : bytes = []
  · subst hne
    rw [show writeAt fill file off [] = file from if_pos rfl]
  · have hne' : bytes' ≠ [] := by
      rintro rfl
      exact hne (List.length_eq_zero_iff.mp hlen)
    refine @eq_of_getD α fill _ _ ?_ fun i => ?_
    · rw [length_writeAt hne', length_writeAt hne', length_writeAt hne, hlen]
      omega
    · rw [getD_writeAt, getD_writeAt, getD_writeAt, hlen]
      split_ifs <;> rfl

end FileBytes
