/-
# The parts of a text

A text is printed part by part.  What can be told of the parts when only their
concatenation is seen?

* `flatten_lines_inj`: lines that end in their only mark are told apart.
* `flatMap_eq_flatMap_iff`: so are parts whose lengths are known.
* `byte_inj`: two hexadecimal digits tell a byte.
-/
import Mathlib.Data.List.Basic
import Mathlib.Tactic.Common

namespace TextParts

/-! ## Lines -/

section Lines

variable {α : Type*} {mark : α}

/-- The list ends in its only `mark`. -/
def IsLine (mark : α) (l : List α) : Prop := ∃ w, mark ∉ w ∧ l = w ++ [mark]

/-- The first mark ends the line. -/
theorem append_mark_inj {w w' rest rest' : List α} (hw : mark ∉ w) (hw' : mark ∉ w')
    (h : w ++ mark :: rest = w' ++ mark :: rest') : w = w' ∧ rest = rest' := by
  induction w generalizing w' with
  | nil =>
      cases w' with
      | nil => exact ⟨rfl, List.tail_eq_of_cons_eq h⟩
      | cons b w' =>
          obtain ⟨rfl, -⟩ := List.cons.inj h
          exact absurd List.mem_cons_self hw'
  | cons a w ih =>
      cases w' with
      | nil =>
          obtain ⟨rfl, -⟩ := List.cons.inj h
          exact absurd List.mem_cons_self hw
      | cons b w' =>
          obtain ⟨rfl, htail⟩ := List.cons.inj h
          obtain ⟨rfl, hrest⟩ := ih (List.not_mem_of_not_mem_cons hw)
            (List.not_mem_of_not_mem_cons hw') htail
          exact ⟨rfl, hrest⟩

/-- A line is told apart from what follows it. -/
theorem IsLine.append_inj {l l' rest rest' : List α} (hl : IsLine mark l) (hl' : IsLine mark l')
    (h : l ++ rest = l' ++ rest') : l = l' ∧ rest = rest' := by
  obtain ⟨w, hw, rfl⟩ := hl
  obtain ⟨w', hw', rfl⟩ := hl'
  rw [List.append_assoc, List.append_assoc] at h
  obtain ⟨rfl, hrest⟩ := append_mark_inj hw hw' h
  exact ⟨rfl, hrest⟩

/-- **Lines** are told apart in their concatenation, and from what follows them. -/
theorem flatten_lines_inj {ls ls' : List (List α)} {rest rest' : List α}
    (hls : ∀ l ∈ ls, IsLine mark l) (hls' : ∀ l ∈ ls', IsLine mark l)
    (hlen : ls.length = ls'.length) (h : ls.flatten ++ rest = ls'.flatten ++ rest') :
    ls = ls' ∧ rest = rest' := by
  induction ls generalizing ls' with
  | nil =>
      obtain rfl := List.length_eq_zero_iff.mp hlen.symm
      exact ⟨rfl, h⟩
  | cons l ls ih =>
      cases ls' with
      | nil => cases hlen
      | cons l' ls' =>
          obtain ⟨hl, htail⟩ := List.forall_mem_cons.mp hls
          obtain ⟨hl', htail'⟩ := List.forall_mem_cons.mp hls'
          rw [List.flatten_cons, List.flatten_cons, List.append_assoc, List.append_assoc] at h
          obtain ⟨rfl, hflatten⟩ := hl.append_inj hl' h
          obtain ⟨rfl, hrest⟩ := ih htail htail' (by simpa using hlen) hflatten
          exact ⟨rfl, hrest⟩

end Lines

/-! ## Parts of known lengths -/

/-- **Parts of the same lengths** are told apart in their concatenation. -/
theorem flatMap_eq_flatMap_iff {α β : Type*} {f g : α → List β} {l : List α}
    (hlen : ∀ a ∈ l, (f a).length = (g a).length) :
    l.flatMap f = l.flatMap g ↔ ∀ a ∈ l, f a = g a := by
  have hlens : (l.map f).map List.length = (l.map g).map List.length := by
    rw [List.map_map, List.map_map]
    exact List.map_congr_left hlen
  rw [List.flatMap_def, List.flatMap_def, ← List.map_inj_left, List.eq_iff_flatten_eq]
  exact (and_iff_left hlens).symm

/-- The two digits of a byte tell it, if digits are told apart. -/
theorem byte_inj {digit : ℕ → Char}
    (hdigit : ∀ m < 16, ∀ n < 16, digit m = digit n → m = n) {a b : UInt8}
    (hhigh : digit (a.toNat / 16) = digit (b.toNat / 16))
    (hlow : digit (a.toNat % 16) = digit (b.toNat % 16)) : a = b := by
  have ha := a.toNat_lt
  have hb := b.toNat_lt
  have hdiv := hdigit _ (by omega) _ (by omega) hhigh
  have hmod := hdigit _ (by omega) _ (by omega) hlow
  apply UInt8.toNat_inj.mp
  omega

end TextParts
