/-
# Programs that read cells through a pointer

`Reads β α` is a program that reads cells of type `β` at offsets of its choice
and returns an `α`.  It can be run in two ways: against a whole memory
(`run`, with the cells it `Touches`), or against a list of cells with a bounds
check on every read (`check`).  `touches_lt_iff` says that the first stays inside
the list exactly when the second succeeds, and `run_congr` that the result
depends on the cells touched only.
-/
import Mathlib.Data.List.Basic
import Mathlib.Tactic.Common

namespace ByteReads

/-- A program that reads cells.  `scan` reads on from an offset until a cell that
stops it. -/
inductive Reads (β α : Type)
  | ret (a : α)
  | cell (off : ℕ) (k : β → Reads β α)
  | scan (stop : β → Bool) (off : ℕ) (k : Reads β α)

namespace Reads

variable {β α γ : Type}

/-- Sequencing. -/
protected def bind : Reads β α → (α → Reads β γ) → Reads β γ
  | ret a, f => f a
  | cell off k, f => cell off fun b => (k b).bind f
  | scan stop off k, f => scan stop off (k.bind f)

instance : Monad (Reads β) where
  pure := ret
  bind := Reads.bind

/-- The result of a program on a memory. -/
def run (mem : ℕ → β) : Reads β α → α
  | ret a => a
  | cell off k => run mem (k (mem off))
  | scan _ _ k => run mem k

/-- The program reads cell `i` of the memory. -/
def Touches (mem : ℕ → β) : Reads β α → ℕ → Prop
  | ret _, _ => False
  | cell off k, i => i = off ∨ Touches mem (k (mem off)) i
  | scan stop off k, i =>
    (off ≤ i ∧ ∀ j, off ≤ j → j < i → stop (mem j) = false) ∨ Touches mem k i

/-- The result of a program on a list of cells, `none` if it reads past the end. -/
def check (cells : List β) : Reads β α → Option α
  | ret a => some a
  | cell off k => (cells[off]?).bind fun b => check cells (k b)
  | scan stop off k => if (cells.drop off).any stop then check cells k else none

@[simp] theorem check_pure (cells : List β) (a : α) :
    check cells (pure a : Reads β α) = some a := rfl

/-- Checking a sequence. -/
theorem check_bind (cells : List β) (p : Reads β α) (f : α → Reads β γ) :
    check cells (p >>= f) = (check cells p).bind fun a => check cells (f a) := by
  show check cells (p.bind f) = _
  induction p with
  | ret a => rfl
  | cell off k ih =>
      simp only [Reads.bind, check]
      cases cells[off]? with
      | none => rfl
      | some b => exact ih b
  | scan stop off k ih =>
      simp only [Reads.bind, check]
      split
      · exact ih
      · rfl

/-- A scan of a memory that begins with `cells` stays inside `cells` exactly when
one of them stops it. -/
theorem scan_lt_iff {mem : ℕ → β} {cells : List β}
    (hmem : ∀ i (h : i < cells.length), mem i = cells[i]) (stop : β → Bool) (off : ℕ) :
    (∀ i, (off ≤ i ∧ ∀ j, off ≤ j → j < i → stop (mem j) = false) → i < cells.length) ↔
      (cells.drop off).any stop = true := by
  have hany : (cells.drop off).any stop = true ↔
      ∃ j, off ≤ j ∧ j < cells.length ∧ stop (mem j) = true := by
    rw [List.any_eq_true]
    constructor
    · rintro ⟨b, hb, hstop⟩
      obtain ⟨n, hn, rfl⟩ := List.getElem_of_mem hb
      rw [List.length_drop] at hn
      have hlt : off + n < cells.length := by omega
      refine ⟨off + n, Nat.le_add_right _ _, hlt, ?_⟩
      rw [hmem _ hlt, ← List.getElem_drop]
      exact hstop
    · rintro ⟨j, hle, hlt, hstop⟩
      refine ⟨cells[j], ?_, by rw [← hmem j hlt]; exact hstop⟩
      have hj : off + (j - off) = j := by omega
      refine List.mem_iff_getElem.mpr ⟨j - off, by rw [List.length_drop]; omega, ?_⟩
      simp only [List.getElem_drop, hj]
  rw [hany]
  constructor
  · -- otherwise the scan would reach the end
    intro h
    by_contra hno
    have hfalse : ∀ j, off ≤ j → j < cells.length → stop (mem j) = false := by
      intro j hle hlt
      by_contra hstop
      exact hno ⟨j, hle, hlt, by simpa using hstop⟩
    have hend := h (max off cells.length)
      ⟨by omega, fun j hle hlt => hfalse j hle (by omega)⟩
    omega
  · rintro ⟨j, hle, hlt, hstop⟩ i ⟨-, hi⟩
    by_contra hge
    have hfalse := hi j hle (by omega)
    rw [hstop] at hfalse
    exact absurd hfalse (by decide)

/-- **Bounds.**  On a memory that begins with `cells`, a program reads inside
`cells` only, exactly when it passes the bounds checks. -/
theorem touches_lt_iff {mem : ℕ → β} {cells : List β}
    (hmem : ∀ i (h : i < cells.length), mem i = cells[i]) (p : Reads β α) :
    (∀ i, p.Touches mem i → i < cells.length) ↔ (p.check cells).isSome := by
  induction p with
  | ret a => simp [Touches, check]
  | cell off k ih =>
      simp only [Touches, check, forall_eq_or_imp]
      rcases Nat.lt_or_ge off cells.length with hlt | hge
      · rw [hmem off hlt, List.getElem?_eq_getElem hlt, Option.bind_some, ← ih]
        exact and_iff_right hlt
      · rw [List.getElem?_eq_none hge]
        exact iff_of_false (fun h => absurd h.1 (Nat.not_lt.mpr hge)) (by simp)
  | scan stop off k ih =>
      simp only [Touches, check, or_imp, forall_and]
      rw [scan_lt_iff hmem, ih]
      split
      · rename_i hstop
        exact and_iff_right hstop
      · rename_i hstop
        simp [hstop]

/-- The result of a program depends on the cells that it touches only. -/
theorem run_congr {mem mem' : ℕ → β} (p : Reads β α)
    (h : ∀ i, p.Touches mem i → mem' i = mem i) : p.run mem' = p.run mem := by
  induction p with
  | ret a => rfl
  | cell off k ih =>
      simp only [run]
      rw [h off (.inl rfl)]
      exact ih _ fun i hi => h i (.inr hi)
  | scan stop off k ih => exact ih fun i hi => h i (.inr hi)

/-- A program that passes the bounds checks has the same result on the memory. -/
theorem run_of_check {mem : ℕ → β} {cells : List β}
    (hmem : ∀ i (h : i < cells.length), mem i = cells[i]) {p : Reads β α} {a : α}
    (h : check cells p = some a) : p.run mem = a := by
  induction p with
  | ret a' => exact Option.some.inj h
  | cell off k ih =>
      obtain ⟨b, hb, hk⟩ := Option.bind_eq_some_iff.mp h
      obtain ⟨hlt, rfl⟩ := List.getElem?_eq_some_iff.mp hb
      rw [run, hmem off hlt]
      exact ih _ hk
  | scan stop off k ih =>
      rw [check, Option.ite_none_right_eq_some] at h
      exact ih h.2

/-! ## Blocks of cells -/

/-- Read `n` cells one after the other. -/
def block (off : ℕ) : ℕ → Reads β (List β)
  | 0 => ret []
  | n + 1 => cell off fun b => do
    let bs ← block (off + 1) n
    return b :: bs

/-- A block is read if it lies inside. -/
theorem check_block (cells : List β) (off n : ℕ) :
    check cells (block off n) =
      if n = 0 ∨ off + n ≤ cells.length then some ((cells.drop off).take n) else none := by
  induction n generalizing off with
  | zero => simp [block, check]
  | succ n ih =>
      simp only [block, check, check_bind, ih, check_pure]
      rcases Nat.lt_or_ge off cells.length with hlt | hge
      · rw [List.getElem?_eq_getElem hlt, Option.bind_some, List.drop_eq_getElem_cons hlt]
        by_cases hfit : off + (n + 1) ≤ cells.length
        · rw [if_pos (.inr (by omega)), if_pos (.inr hfit)]
          rfl
        · rw [if_neg (by omega), if_neg (by omega)]
          rfl
      · have hno : ¬ (n + 1 = 0 ∨ off + (n + 1) ≤ cells.length) := by omega
        rw [List.getElem?_eq_none hge, if_neg hno]
        rfl

end Reads

end ByteReads
