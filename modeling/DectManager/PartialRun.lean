/-
# Runs of a partial step function

A reactive program is a state type `σ`, an event type `ε` and a step function
`step : σ → ε → Option σ`; `none` is a step after which the program is gone.
This module is the part of the theory of such programs that knows nothing of
any particular one:

* `run` executes a list of events, `run_concat` exposes its last step;
* `Along C` says that every step of a run meets `C`, `Throughout Q` that every
  state of a run meets `Q`; both may look at the events processed before;
* `run_induction` and `run_induction_along` are the invariant rules;
* `throughout_iff_along` turns an exact one-step law into an exact law of runs;
* `proj_run` says that a component which every step updates by a fixed function
  of the event is, after a run, the fold of that function over the events;
* `run_lift` says that history variables do not restrict the runs;
* `Since S C` says that an event meeting `S` has been processed and none meeting
  `C` since then, and `iff_since_run` that this is what a flag tells after a run
  which the events meeting `S` set and those meeting `C` clear; `SinceAt` and
  `iff_sinceAt_run` are the same where `S` depends on the events processed before.
-/
import Mathlib.Data.List.Infix
import Mathlib.Tactic.Common

namespace PartialRun

variable {σ ε : Type*} (step : σ → ε → Option σ)

/-- Execute a list of events from `s`, stopping with `none` at a failing step. -/
def run (s : σ) (es : List ε) : Option σ := es.foldlM step s

@[simp] theorem run_nil (s : σ) : run step s [] = some s := rfl

@[simp] theorem run_cons (s : σ) (e : ε) (es : List ε) :
    run step s (e :: es) = (step s e).bind fun s' => run step s' es := rfl

/-- A run over a concatenation is one run after the other. -/
theorem run_append (s : σ) (es es' : List ε) :
    run step s (es ++ es') = (run step s es).bind fun s' => run step s' es' := by
  unfold run
  rw [List.foldlM_append]
  rfl

/-- The last step of a run. -/
theorem run_concat (s : σ) (es : List ε) (e : ε) :
    run step s (es ++ [e]) = (run step s es).bind fun s' => step s' e := by
  rw [run_append]
  congr 1
  funext s'
  rw [run_cons]
  cases step s' e <;> rfl

/-- A run that ends with `e` splits at the state before `e`. -/
theorem run_concat_eq_some {s₀ s' : σ} {es : List ε} {e : ε} :
    run step s₀ (es ++ [e]) = some s' ↔ ∃ s, run step s₀ es = some s ∧ step s e = some s' := by
  rw [run_concat, Option.bind_eq_some_iff]

/-- A run through an event `e` splits at the states around `e`. -/
theorem run_split {s₀ s' : σ} {pre post : List ε} {e : ε}
    (h : run step s₀ (pre ++ e :: post) = some s') :
    ∃ s t, run step s₀ pre = some s ∧ step s e = some t ∧ run step t post = some s' := by
  rw [run_append, Option.bind_eq_some_iff] at h
  obtain ⟨s, hs, hrest⟩ := h
  rw [run_cons, Option.bind_eq_some_iff] at hrest
  obtain ⟨t, ht, hpost⟩ := hrest
  exact ⟨s, t, hs, ht, hpost⟩

/-- A split of a history at an event `e`, seen from its last event `x`: either
`e` is the last one, or the history before `x` splits at `e`. -/
theorem split_concat_iff {pre post es : List ε} {e x : ε} :
    pre ++ e :: post = es ++ [x] ↔
      (pre = es ∧ e = x ∧ post = []) ∨ ∃ post', post = post' ++ [x] ∧ pre ++ e :: post' = es := by
  constructor
  · intro h
    rcases List.eq_nil_or_concat post with rfl | ⟨post', y, rfl⟩
    · obtain ⟨rfl, he⟩ := List.append_inj' h rfl
      exact .inl ⟨rfl, List.singleton_inj.mp he, rfl⟩
    · rw [List.concat_eq_append, ← List.cons_append, ← List.append_assoc] at h
      obtain ⟨hes, hx⟩ := List.append_inj' h rfl
      obtain rfl := List.singleton_inj.mp hx
      exact .inr ⟨post', List.concat_eq_append, hes⟩
  · rintro (⟨rfl, rfl, rfl⟩ | ⟨post', rfl, rfl⟩)
    · rfl
    · rw [List.append_assoc, List.cons_append]

/-! ## Laws of the steps and of the states of a run -/

/-- Every step of the run from `s₀` meets `C`, which sees the events processed
before the step, the state before it, the event and the state after it. -/
def Along (C : List ε → σ → ε → σ → Prop) (s₀ : σ) (es : List ε) : Prop :=
  ∀ pre e post s s', es = pre ++ e :: post → run step s₀ pre = some s → step s e = some s' →
    C pre s e s'

/-- Every state that the run from `s₀` reaches, the first one included, meets
`Q`, which sees the events processed so far and the state. -/
def Throughout (Q : List ε → σ → Prop) (s₀ : σ) (es : List ε) : Prop :=
  ∀ pre s, pre <+: es → run step s₀ pre = some s → Q pre s

variable {step}

theorem along_nil (C : List ε → σ → ε → σ → Prop) (s₀ : σ) : Along step C s₀ [] := by
  intro pre e post s s' h
  simp at h

/-- A condition that holds along a run holds along its beginnings. -/
theorem Along.of_append {C : List ε → σ → ε → σ → Prop} {s₀ : σ} {es es' : List ε}
    (h : Along step C s₀ (es ++ es')) : Along step C s₀ es := by
  intro pre e post s s' hes hrun he
  refine h pre e (post ++ es') s s' ?_ hrun he
  rw [hes, List.append_assoc, List.cons_append]

/-- A condition holds along a run exactly when it holds along the run without
its last step and at that step. -/
theorem along_concat_iff {C : List ε → σ → ε → σ → Prop} {s₀ : σ} {es : List ε} {e : ε} :
    Along step C s₀ (es ++ [e]) ↔
      Along step C s₀ es ∧
        ∀ s s', run step s₀ es = some s → step s e = some s' → C es s e s' := by
  constructor
  · intro h
    refine ⟨fun pre e' post s s' hes hrun he => ?_, fun s s' hrun he => ?_⟩
    · exact h pre e' (post ++ [e]) s s' (by rw [hes]; simp) hrun he
    · exact h es e [] s s' rfl hrun he
  · rintro ⟨hpre, hlast⟩ pre e' post s s' hes hrun he
    -- the step is the last one, or one of the run before
    rcases split_concat_iff.mp hes.symm with ⟨rfl, rfl, rfl⟩ | ⟨post', rfl, hes'⟩
    · exact hlast s s' hrun he
    · exact hpre pre e' post' s s' hes'.symm hrun he

/-- A condition holds along a run exactly when it holds at its first step and
along the rest. -/
theorem along_cons_iff {C : List ε → σ → ε → σ → Prop} {s₀ : σ} {e : ε} {es : List ε} :
    Along step C s₀ (e :: es) ↔
      ∀ s, step s₀ e = some s → C [] s₀ e s ∧ Along step (fun pre => C (e :: pre)) s es := by
  constructor
  · intro h s he
    refine ⟨h [] e es s₀ s rfl rfl he, fun pre e' post t t' hes hrun he' => ?_⟩
    refine h (e :: pre) e' post t t' (by rw [hes]; rfl) ?_ he'
    rw [run_cons, he]
    exact hrun
  · intro h pre e' post t t' hes hrun he'
    cases pre with
    | nil =>
        obtain ⟨rfl, rfl⟩ := List.cons.inj hes
        obtain rfl : s₀ = t := by simpa using hrun
        exact (h t' he').1
    | cons x pre =>
        obtain ⟨rfl, hes'⟩ := List.cons.inj hes
        rw [run_cons, Option.bind_eq_some_iff] at hrun
        obtain ⟨s, hs, hrest⟩ := hrun
        exact (h s hs).2 pre e' post t t' hes' hrest he'

/-- Conditions that agree on the steps of a run hold along it together. -/
theorem along_congr {C D : List ε → σ → ε → σ → Prop} {s₀ : σ} {es : List ε}
    (h : ∀ pre e post s s', es = pre ++ e :: post → run step s₀ pre = some s →
      step s e = some s' → (C pre s e s' ↔ D pre s e s')) :
    Along step C s₀ es ↔ Along step D s₀ es := by
  constructor
  · intro hC pre e post s s' hes hrun he
    exact (h pre e post s s' hes hrun he).mp (hC pre e post s s' hes hrun he)
  · intro hD pre e post s s' hes hrun he
    exact (h pre e post s s' hes hrun he).mpr (hD pre e post s s' hes hrun he)

/-- A condition that holds at a step and along the run from there holds along the
longer run. -/
theorem Along.cons {C : List ε → σ → ε → σ → Prop} {s₀ s : σ} {e : ε} {es : List ε}
    (he : step s₀ e = some s) (hC : C [] s₀ e s)
    (hes : Along step (fun pre => C (e :: pre)) s es) : Along step C s₀ (e :: es) := by
  refine along_cons_iff.mpr fun s' he' => ?_
  obtain rfl : s = s' := Option.some.inj (he.symm.trans he')
  exact ⟨hC, hes⟩

theorem throughout_nil_iff {Q : List ε → σ → Prop} {s₀ : σ} :
    Throughout step Q s₀ [] ↔ Q [] s₀ := by
  constructor
  · intro h
    exact h [] s₀ (List.prefix_refl _) rfl
  · intro h pre s hpre hrun
    obtain rfl : pre = [] := List.prefix_nil.mp hpre
    obtain rfl : s₀ = s := by simpa using hrun
    exact h

/-- A property holds throughout a run exactly when it holds throughout the run
without its last step and in the last state, if there is one. -/
theorem throughout_concat_iff {Q : List ε → σ → Prop} {s₀ : σ} {es : List ε} {e : ε} :
    Throughout step Q s₀ (es ++ [e]) ↔
      Throughout step Q s₀ es ∧ ∀ s, run step s₀ (es ++ [e]) = some s → Q (es ++ [e]) s := by
  constructor
  · intro h
    refine ⟨fun pre s hpre hrun => ?_, fun s hrun => h _ s (List.prefix_refl _) hrun⟩
    exact h pre s (hpre.trans (List.prefix_append _ _)) hrun
  · rintro ⟨hpre, hlast⟩ pre s hp hrun
    rcases List.prefix_concat_iff.mp hp with rfl | hp'
    · exact hlast s hrun
    · exact hpre pre s hp' hrun

/-- A property that holds throughout a run holds in its last state. -/
theorem Throughout.last {Q : List ε → σ → Prop} {s₀ s : σ} {es : List ε}
    (h : Throughout step Q s₀ es) (hrun : run step s₀ es = some s) : Q es s :=
  h es s (List.prefix_refl _) hrun

/-! ## Invariant rules -/

/-- **The invariant rule under a condition on the steps.**  A property of
history and state that holds initially and is preserved by every step meeting
`C` holds after every run whose steps all meet `C`. -/
theorem run_induction_along {C : List ε → σ → ε → σ → Prop} {P : List ε → σ → Prop} {s₀ : σ}
    (h0 : P [] s₀)
    (hstep : ∀ es s e s', run step s₀ es = some s → P es s → step s e = some s' →
      C es s e s' → P (es ++ [e]) s') :
    ∀ es s, Along step C s₀ es → run step s₀ es = some s → P es s := by
  intro es
  induction es using List.reverseRecOn with
  | nil =>
      intro s _ hrun
      obtain rfl : s₀ = s := by simpa using hrun
      exact h0
  | append_singleton es e ih =>
      intro s' hC hrun
      obtain ⟨s, hs, he⟩ := (run_concat_eq_some step).mp hrun
      obtain ⟨hCes, hCe⟩ := along_concat_iff.mp hC
      exact hstep es s e s' hs (ih s hCes hs) he (hCe s s' hs he)

/-- **The invariant rule.**  A property of history and state that holds
initially and is preserved by every step holds after every run. -/
theorem run_induction {P : List ε → σ → Prop} {s₀ : σ} (h0 : P [] s₀)
    (hstep : ∀ es s e s', run step s₀ es = some s → P es s → step s e = some s' →
      P (es ++ [e]) s') :
    ∀ es s, run step s₀ es = some s → P es s := by
  intro es s hrun
  refine run_induction_along (C := fun _ _ _ _ => True) h0 ?_ es s ?_ hrun
  · intro es s e s' hs hP he _
    exact hstep es s e s' hs hP he
  · intro pre e post s s' _ _ _
    trivial

/-- A property that holds after every run holds throughout every run. -/
theorem throughout_of_run {P : List ε → σ → Prop} {s₀ : σ}
    (h : ∀ es s, run step s₀ es = some s → P es s) (es : List ε) :
    Throughout step P s₀ es :=
  fun pre s _ hrun => h pre s hrun

/-- **From an exact step law to an exact law of runs.**  Suppose that from any
reachable state with `Q` a step keeps `Q` exactly when it meets `C`.  Then a run
from a state with `Q` keeps `Q` throughout exactly when all its steps meet
`C`. -/
theorem throughout_iff_along {C : List ε → σ → ε → σ → Prop} {Q : List ε → σ → Prop} {s₀ : σ}
    (h0 : Q [] s₀)
    (hstep : ∀ es s e s', run step s₀ es = some s → Q es s → step s e = some s' →
      (Q (es ++ [e]) s' ↔ C es s e s')) :
    ∀ es, Throughout step Q s₀ es ↔ Along step C s₀ es := by
  intro es
  induction es using List.reverseRecOn with
  | nil =>
      rw [throughout_nil_iff]
      exact iff_of_true h0 (along_nil C s₀)
  | append_singleton es e ih =>
      rw [throughout_concat_iff, along_concat_iff, ← ih]
      refine and_congr_right fun hes => ?_
      constructor
      · intro h s s' hs he
        refine (hstep es s e s' hs (hes.last hs) he).mp ?_
        exact h s' ((run_concat_eq_some step).mpr ⟨s, hs, he⟩)
      · intro h s' hs'
        obtain ⟨s, hs, he⟩ := (run_concat_eq_some step).mp hs'
        exact (hstep es s e s' hs (hes.last hs) he).mpr (h s s' hs he)

/-- **Projection of runs.**  A component that every step updates by `f` is,
after a run, the fold of `f` over the events. -/
theorem proj_run {π : Type*} {view : σ → π} {f : π → ε → π}
    (hstep : ∀ s e s', step s e = some s' → view s' = f (view s) e) :
    ∀ es s s', run step s es = some s' → view s' = es.foldl f (view s) := by
  intro es
  induction es with
  | nil =>
      intro s s' hrun
      obtain rfl : s = s' := by simpa using hrun
      rfl
  | cons e es ih =>
      intro s s' hrun
      rw [run_cons, Option.bind_eq_some_iff] at hrun
      obtain ⟨t, ht, hrest⟩ := hrun
      rw [ih t s' hrest, hstep s e t ht, List.foldl_cons]

/-- **History variables.**  Suppose that a program with more variables can follow
every step of `step`.  Then it can follow every run. -/
theorem run_lift {τ : Type*} {view : τ → σ} {step' : τ → ε → Option τ}
    (h : ∀ t e s', step (view t) e = some s' → ∃ t', step' t e = some t' ∧ view t' = s') :
    ∀ es t s', run step (view t) es = some s' → ∃ t', run step' t es = some t' ∧ view t' = s' := by
  intro es
  induction es with
  | nil =>
      intro t s' hrun
      exact ⟨t, rfl, Option.some.inj hrun⟩
  | cons e es ih =>
      intro t s' hrun
      rw [run_cons, Option.bind_eq_some_iff] at hrun
      obtain ⟨u, hu, hrest⟩ := hrun
      obtain ⟨t₁, ht₁, rfl⟩ := h t e u hu
      obtain ⟨t', ht', hview⟩ := ih t₁ s' hrest
      exact ⟨t', by rw [run_cons, ht₁, Option.bind_some, ht'], hview⟩

/-! ## What has happened since -/

/-- An event that meets `S` has been processed, and none that meets `C` since.
`S` also sees the events processed before. -/
def SinceAt (S : List ε → ε → Prop) (C : ε → Prop) (es : List ε) : Prop :=
  ∃ pre e post, es = pre ++ e :: post ∧ S pre e ∧ ∀ x ∈ post, ¬ C x

/-- An event that meets `S` has been processed, and none that meets `C` since. -/
def Since (S C : ε → Prop) (es : List ε) : Prop :=
  ∃ pre e post, es = pre ++ e :: post ∧ S e ∧ ∀ x ∈ post, ¬ C x

theorem not_sinceAt_nil (S : List ε → ε → Prop) (C : ε → Prop) : ¬ SinceAt S C [] := by
  rintro ⟨pre, e, post, h, -⟩
  simp at h

theorem not_since_nil (S C : ε → Prop) : ¬ Since S C [] := not_sinceAt_nil (fun _ => S) C

/-- What one more event makes of it. -/
theorem sinceAt_concat_iff {S : List ε → ε → Prop} {C : ε → Prop} {es : List ε} {e : ε} :
    SinceAt S C (es ++ [e]) ↔ S es e ∨ SinceAt S C es ∧ ¬ C e := by
  constructor
  · rintro ⟨pre, x, post, hes, hx, hpost⟩
    rcases split_concat_iff.mp hes.symm with ⟨rfl, rfl, rfl⟩ | ⟨post', rfl, rfl⟩
    · exact .inl hx
    · rw [List.forall_mem_append, List.forall_mem_singleton] at hpost
      exact .inr ⟨⟨pre, x, post', rfl, hx, hpost.1⟩, hpost.2⟩
  · rintro (he | ⟨⟨pre, x, post, rfl, hx, hpost⟩, he⟩)
    · exact ⟨es, e, [], rfl, he, List.forall_mem_nil _⟩
    · refine ⟨pre, x, post ++ [e], by rw [List.append_assoc, List.cons_append], hx, ?_⟩
      rw [List.forall_mem_append, List.forall_mem_singleton]
      exact ⟨hpost, he⟩

/-- What one more event makes of it. -/
theorem since_concat_iff {S C : ε → Prop} {es : List ε} {e : ε} :
    Since S C (es ++ [e]) ↔ S e ∨ Since S C es ∧ ¬ C e :=
  sinceAt_concat_iff (S := fun _ => S)

/-- Suppose that `A` has happened since `B` last did, where every `A` is a `B`.
Then it has happened since `D` last did exactly when no `D` has happened since
`B` last did. -/
theorem since_iff_not_since {A B D : ε → Prop} (hAB : ∀ e, A e → B e) (hAD : ∀ e, A e → ¬ D e)
    {es : List ε} (h : Since A B es) : Since A D es ↔ ¬ Since D B es := by
  induction es using List.reverseRecOn with
  | nil => exact absurd h (not_since_nil A B)
  | append_singleton es e ih =>
      rw [since_concat_iff] at h
      rw [since_concat_iff, since_concat_iff]
      by_cases hA : A e
      · have hB : B e := hAB e hA
        have hD : ¬ D e := hAD e hA
        simp [hA, hB, hD]
      · obtain ⟨hes, hB⟩ := h.resolve_left hA
        have hiff := ih hes
        by_cases hD : D e <;> simp [hA, hB, hD, hiff]

/-- **A flag after a run.**  A flag that is not set initially, that the events
meeting `S` set and the other events meeting `C` clear, is set exactly when `S`
has happened since `C` last did. -/
theorem iff_sinceAt_run {flag : σ → Prop} {S : List ε → ε → Prop} {C : ε → Prop} {s₀ : σ}
    (h0 : ¬ flag s₀)
    (hstep : ∀ es s e s', run step s₀ es = some s → step s e = some s' →
      (flag s' ↔ S es e ∨ flag s ∧ ¬ C e)) :
    ∀ es s, run step s₀ es = some s → (flag s ↔ SinceAt S C es) := by
  refine run_induction (P := fun es s => flag s ↔ SinceAt S C es) ?_ ?_
  · exact iff_of_false h0 (not_sinceAt_nil S C)
  · intro es s e s' hrun hs he
    rw [hstep es s e s' hrun he, hs, sinceAt_concat_iff]

/-- The same of events that set the flag whatever has been processed before. -/
theorem iff_since_run {flag : σ → Prop} {S C : ε → Prop} {s₀ : σ} (h0 : ¬ flag s₀)
    (hstep : ∀ s e s', step s e = some s' → (flag s' ↔ S e ∨ flag s ∧ ¬ C e)) :
    ∀ es s, run step s₀ es = some s → (flag s ↔ Since S C es) :=
  iff_sinceAt_run (S := fun _ => S) h0 fun _ s e s' _ he => hstep s e s' he

end PartialRun
