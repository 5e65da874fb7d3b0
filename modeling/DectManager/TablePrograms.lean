/-
# Programs over an indexed table

A `TableProgram` reads entries of a table and stores to them, at indices that it
computes from what it has read, and returns a result.  As in C nobody checks an
index: a read outside the table returns `beyond`, whatever lies in memory around
it, and a store outside is no store to the table.  `run` is what a program does
and returns, and `indices` lists the indices that it uses, in their order; so
both come from one text.

* `run_bind`: one program after the other.
* `Within`: what all indices that a program can use have in common, and all its
  results; it is proved along the text of the program, whatever the table holds.
* `run_of_not_mem_indices`: an entry whose index is not used stays as it is.
* `run_beyond`: what lies around the table has no part in a program that stays
  inside.
-/
import Mathlib.Data.Int.Notation
import Mathlib.Data.List.Basic
import Mathlib.Tactic.Common

namespace TablePrograms

variable {ε α β : Type} {n : ℕ}

/-! ## Tables -/

/-- The index is that of an entry. -/
def Inside (n : ℕ) (i : ℤ) : Prop := 0 ≤ i ∧ i < n

instance (i : ℤ) : Decidable (Inside n i) := inferInstanceAs (Decidable (_ ∧ _))

theorem Inside.toNat_lt {i : ℤ} (h : Inside n i) : i.toNat < n := by
  obtain ⟨hlow, hhigh⟩ := h
  omega

/-- What a read at an index returns. -/
def readAt (t : Fin n → ε) (beyond : ε) (i : ℤ) : ε :=
  if h : Inside n i then t ⟨i.toNat, h.toNat_lt⟩ else beyond

/-- What a store at an index leaves of the table. -/
def storeAt (t : Fin n → ε) (i : ℤ) (f : ε → ε) : Fin n → ε :=
  fun k => if (k.val : ℤ) = i then f (t k) else t k

/-- Stores to one entry are one. -/
theorem storeAt_storeAt (t : Fin n → ε) (i : ℤ) (f g : ε → ε) :
    storeAt (storeAt t i f) i g = storeAt t i fun x => g (f x) := by
  funext k
  unfold storeAt
  split_ifs <;> rfl

/-! ## Programs -/

/-- A program over a table with entries of type `ε`. -/
inductive TableProgram (ε α : Type)
  | done (a : α)
  | read (i : ℤ) (k : ε → TableProgram ε α)
  | store (i : ℤ) (f : ε → ε) (next : TableProgram ε α)

namespace TableProgram

/-- The result of a program, and the table that it leaves. -/
def run (beyond : ε) : TableProgram ε α → (Fin n → ε) → α × (Fin n → ε)
  | done a, t => (a, t)
  | read i k, t => (k (readAt t beyond i)).run beyond t
  | store i f next, t => next.run beyond (storeAt t i f)

/-- The indices that a program uses. -/
def indices (beyond : ε) : TableProgram ε α → (Fin n → ε) → List ℤ
  | done _, _ => []
  | read i k, t => i :: (k (readAt t beyond i)).indices beyond t
  | store i f next, t => i :: next.indices beyond (storeAt t i f)

/-- One program, and then another that depends on its result. -/
protected def bind : TableProgram ε α → (α → TableProgram ε β) → TableProgram ε β
  | done a, q => q a
  | read i k, q => read i fun x => (k x).bind q
  | store i f next, q => store i f (next.bind q)

/-- Running a sequence. -/
theorem run_bind (beyond : ε) (p : TableProgram ε α) (q : α → TableProgram ε β) (t : Fin n → ε) :
    (p.bind q).run beyond t = (q (p.run beyond t).1).run beyond (p.run beyond t).2 := by
  induction p generalizing t with
  | done a => rfl
  | read i k ih => exact ih (readAt t beyond i) t
  | store i f next ih => exact ih (storeAt t i f)

/-- Every index that a program can use satisfies `I`, and every result that it can
return satisfies `P`. -/
def Within (I : ℤ → Prop) (P : α → Prop) : TableProgram ε α → Prop
  | done a => P a
  | read i k => I i ∧ ∀ x, (k x).Within I P
  | store i _ next => I i ∧ next.Within I P

section Within

variable {I : ℤ → Prop} {P : α → Prop} {p : TableProgram ε α}

/-- The indices of a run. -/
theorem Within.indices (h : p.Within I P) (beyond : ε) (t : Fin n → ε) :
    ∀ i ∈ p.indices beyond t, I i := by
  induction p generalizing t with
  | done a => exact List.forall_mem_nil _
  | read i k ih => exact List.forall_mem_cons.mpr ⟨h.1, ih _ (h.2 _) t⟩
  | store i f next ih => exact List.forall_mem_cons.mpr ⟨h.1, ih h.2 (storeAt t i f)⟩

/-- The result of a run. -/
theorem Within.result (h : p.Within I P) (beyond : ε) (t : Fin n → ε) :
    P (p.run beyond t).1 := by
  induction p generalizing t with
  | done a => exact h
  | read i k ih => exact ih _ (h.2 _) t
  | store i f next ih => exact ih h.2 (storeAt t i f)

/-- A sequence. -/
theorem Within.bind {Q : β → Prop} {q : α → TableProgram ε β} (h : p.Within I P)
    (hq : ∀ a, P a → (q a).Within I Q) : (p.bind q).Within I Q := by
  induction p with
  | done a => exact hq a h
  | read i k ih => exact ⟨h.1, fun x => ih x (h.2 x)⟩
  | store i f next ih => exact ⟨h.1, ih h.2⟩

/-- Another bound for the indices. -/
theorem Within.mono {J : ℤ → Prop} (h : p.Within I P) (hJ : ∀ i, I i → J i) : p.Within J P := by
  induction p with
  | done a => exact h
  | read i k ih => exact ⟨hJ i h.1, fun x => ih x (h.2 x)⟩
  | store i f next ih => exact ⟨hJ i h.1, ih h.2⟩

end Within

/-- **Entries that are not used** stay as they are. -/
theorem run_of_not_mem_indices {beyond : ε} {p : TableProgram ε α} {t : Fin n → ε} {k : Fin n}
    (hk : (k.val : ℤ) ∉ p.indices beyond t) : (p.run beyond t).2 k = t k := by
  induction p generalizing t with
  | done a => rfl
  | read i next ih => exact ih _ fun h => hk (List.mem_cons_of_mem _ h)
  | store i f next ih =>
      have hne : (k.val : ℤ) ≠ i := fun h => hk (h ▸ List.mem_cons_self)
      refine (ih fun h => hk (List.mem_cons_of_mem _ h)).trans ?_
      exact if_neg hne

/-- **What lies around the table** has no part in a program that stays inside. -/
theorem run_beyond {beyond : ε} {p : TableProgram ε α} {t : Fin n → ε}
    (h : ∀ i ∈ p.indices beyond t, Inside n i) (beyond' : ε) :
    p.run beyond' t = p.run beyond t := by
  induction p generalizing t with
  | done a => rfl
  | read i k ih =>
      obtain ⟨hi, hrest⟩ := List.forall_mem_cons.mp h
      have hread : readAt t beyond' i = readAt t beyond i := by
        rw [readAt, dif_pos hi, readAt, dif_pos hi]
      rw [run, run, hread]
      exact ih _ hrest
  | store i f next ih => exact ih (List.forall_mem_cons.mp h).2

end TableProgram

end TablePrograms
