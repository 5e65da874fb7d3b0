/-
# Cutting a stream of encoded items

Items are sent one after the other as `xs.flatMap enc` and arrive in pieces that
have nothing to do with their boundaries.  This module is about where a cut
falls:

* `InBody enc header xs p` says that position `p` lies in the body of an item,
  that is after its first `header` elements and before its end;
* `CutInBody` says that a sequence of pieces has a cut there;
* `exists_place` splits what has arrived into complete items and a beginning of
  the next one, and `inBody_append` says where its end lies;
* `isPrefix_iff_map_length` says when pieces of a stream are its first items.
-/
import Mathlib.Data.List.Infix
import Mathlib.Tactic.Common

namespace Streams

variable {α β : Type*} (enc : α → List β)

/-- Position `p` of the stream lies in the body of an item: after the first
`header` elements of its encoding and before the end of it. -/
def InBody (header : ℕ) : List α → ℕ → Prop
  | [], _ => False
  | x :: xs, p => if p < (enc x).length then header ≤ p else InBody header xs (p - (enc x).length)

instance (header : ℕ) : (xs : List α) → (p : ℕ) → Decidable (InBody enc header xs p)
  | [], _ => inferInstanceAs (Decidable False)
  | x :: xs, p =>
    have := instDecidableInBody header xs (p - (enc x).length)
    inferInstanceAs (Decidable (if p < (enc x).length then header ≤ p else _))

/-- Some piece ends in the body of an item. -/
def CutInBody (header : ℕ) (xs : List α) (pieces : List (List β)) : Prop :=
  ∃ arrived, arrived <+: pieces ∧ InBody enc header xs arrived.flatten.length

instance (header : ℕ) (xs : List α) (pieces : List (List β)) :
    Decidable (CutInBody enc header xs pieces) :=
  decidable_of_iff (∃ arrived ∈ pieces.inits, InBody enc header xs arrived.flatten.length)
    (by simp [CutInBody])

/-- The place of a position past some items is its place in the others. -/
theorem inBody_append (header : ℕ) (xs ys : List α) (p : ℕ) :
    InBody enc header (xs ++ ys) ((xs.flatMap enc).length + p) ↔ InBody enc header ys p := by
  induction xs with
  | nil => simp
  | cons x xs ih =>
      have hlt : ¬ ((x :: xs).flatMap enc).length + p < (enc x).length := by
        rw [List.flatMap_cons, List.length_append]
        omega
      have hsub : ((x :: xs).flatMap enc).length + p - (enc x).length =
          (xs.flatMap enc).length + p := by
        rw [List.flatMap_cons, List.length_append]
        omega
      rw [List.cons_append, InBody, if_neg hlt, hsub]
      exact ih

/-- A position inside the first item is in its body exactly when it is past the
header. -/
theorem inBody_cons_of_lt (header : ℕ) {x : α} {xs : List α} {p : ℕ} (h : p < (enc x).length) :
    InBody enc header (x :: xs) p ↔ header ≤ p := by
  rw [InBody, if_pos h]

/-- The end of the stream lies in no body. -/
theorem not_inBody_end (header : ℕ) (xs : List α) :
    ¬ InBody enc header xs (xs.flatMap enc).length := by
  have h := inBody_append enc header xs [] 0
  rw [List.append_nil, Nat.add_zero] at h
  exact h.not.mpr id

variable {enc}

theorem cutInBody_nil_iff {header : ℕ} {xs : List α} :
    CutInBody enc header xs [] ↔ InBody enc header xs 0 := by
  simp [CutInBody]

/-- The cuts of a longer sequence of pieces. -/
theorem cutInBody_concat_iff {header : ℕ} {xs : List α} {pieces : List (List β)}
    {piece : List β} :
    CutInBody enc header xs (pieces ++ [piece]) ↔
      CutInBody enc header xs pieces ∨
        InBody enc header xs (pieces ++ [piece]).flatten.length := by
  constructor
  · rintro ⟨arrived, hpre, hin⟩
    rcases List.prefix_concat_iff.mp hpre with rfl | hpre'
    · exact .inr hin
    · exact .inl ⟨arrived, hpre', hin⟩
  · rintro (⟨arrived, hpre, hin⟩ | hin)
    · exact ⟨arrived, hpre.trans (List.prefix_append _ _), hin⟩
    · exact ⟨_, List.prefix_refl _, hin⟩

/-- No cut lies at the start of a stream of items that have a header. -/
theorem not_inBody_zero {header : ℕ} (hpos : 0 < header) {xs : List α}
    (hne : ∀ x ∈ xs, enc x ≠ []) : ¬ InBody enc header xs 0 := by
  cases xs with
  | nil => exact id
  | cons x xs =>
      have hlen : 0 < (enc x).length := List.length_pos_iff.mpr (hne x List.mem_cons_self)
      rw [inBody_cons_of_lt enc header hlen]
      omega

/-- What has arrived of a stream: the complete items `done`, and `part`, the
beginning of the next item or of what follows the items. -/
theorem exists_place {xs : List α} {tail arrived rest : List β}
    (h : arrived ++ rest = xs.flatMap enc ++ tail) :
    ∃ done post part, xs = done ++ post ∧ arrived = done.flatMap enc ++ part ∧
      part ++ rest = post.flatMap enc ++ tail ∧
      ∀ x ∈ post.head?, part.length < (enc x).length := by
  induction xs generalizing arrived with
  | nil => exact ⟨[], [], arrived, rfl, rfl, h, by simp⟩
  | cons x xs ih =>
      rcases Nat.lt_or_ge arrived.length (enc x).length with hlt | hge
      · exact ⟨[], x :: xs, arrived, rfl, rfl, h, by simpa using hlt⟩
      · -- the first item has arrived
        rw [List.flatMap_cons, List.append_assoc] at h
        obtain ⟨arrived', rfl⟩ : enc x <+: arrived :=
          List.prefix_of_prefix_length_le ⟨_, h.symm⟩ (List.prefix_append _ _) hge
        rw [List.append_assoc, List.append_cancel_left_eq] at h
        obtain ⟨done, post, part, rfl, rfl, hrest, hpart⟩ := ih h
        exact ⟨x :: done, post, part, rfl, by simp, hrest, hpart⟩

/-- Pieces that begin a stream are its first items exactly when they have their lengths. -/
theorem isPrefix_iff_map_length {pieces items : List (List β)}
    (h : pieces.flatten <+: items.flatten) :
    pieces <+: items ↔ pieces.map List.length <+: items.map List.length := by
  refine ⟨fun hpre => hpre.map List.length, fun hlen => ?_⟩
  obtain ⟨n, hn⟩ : ∃ n, pieces.map List.length = (items.take n).map List.length :=
    ⟨_, by rw [List.map_take]; exact List.prefix_iff_eq_take.mp hlen⟩
  have hitems : (items.take n).flatten <+: items.flatten := by
    conv_rhs => rw [← List.take_append_drop n items, List.flatten_append]
    exact List.prefix_append _ _
  -- two beginnings of one stream with the same length
  have hflat : pieces.flatten = (items.take n).flatten := by
    have hsame : pieces.flatten.length = (items.take n).flatten.length := by
      rw [List.length_flatten, List.length_flatten, hn]
    rw [List.prefix_iff_eq_take.mp h, List.prefix_iff_eq_take.mp hitems, hsame]
  rw [List.eq_iff_flatten_eq.mpr ⟨hflat, hn⟩]
  exact List.take_prefix _ _

end Streams
