/-
# The transient registration modes and their timers

`ENABLED` and `DELAYED_START` are left when a timer fires, so each of them must
have one pending.

* `windowCovered_step`: an open window always has a stop timer pending.
* `transient_modes_covered_iff`: both modes are covered throughout a run exactly
  when no step of it strands a delayed start.  A delayed start is stranded when
  its last timer fires after the configuration has switched the radio off: then
  `registration` returns at once and leaves `reg_mode` as it is.
-/
import DectManager.StopTimers

namespace DectManager

open PartialRun

/-- Some timer that will call `c` is pending. -/
def Pending (c : Callback) (timers : List Timer) : Prop := ∃ t ∈ timers, t.callback = c

instance (c : Callback) (timers : List Timer) : Decidable (Pending c timers) :=
  inferInstanceAs (Decidable (∃ t ∈ timers, t.callback = c))

/-- An open window has a stop timer pending. -/
def WindowCovered (w : World) : Prop :=
  w.status.regMode = .enabled → Pending .registerHandsetsStop w.timers

/-- A delayed start has its timer pending. -/
def DelayCovered (w : World) : Prop :=
  w.status.regMode = .delayedStart → Pending .registrationDelayedStart w.timers

/-- The step strands a delayed start: its timer fires while the configuration has the radio
off, and no other one is pending. -/
def Strands (w : World) : Event → Prop
  | .timeout t =>
    t.callback = .registrationDelayedStart ∧ w.status.regMode = .delayedStart ∧
      w.config.radio = .disabled ∧ ¬ Pending .registrationDelayedStart (w.timers.erase t)
  | _ => False

/-! ## Pending timers -/

theorem Pending.append_right {c : Callback} {ts : List Timer} (h : Pending c ts)
    (ts' : List Timer) : Pending c (ts' ++ ts) := by
  obtain ⟨t, ht, hc⟩ := h
  exact ⟨t, List.mem_append_right _ ht, hc⟩

/-- The expiry of another kind of timer leaves it pending. -/
theorem Pending.erase {c : Callback} {ts : List Timer} {t : Timer} (h : Pending c ts)
    (ht : t.callback ≠ c) : Pending c (ts.erase t) := by
  obtain ⟨t', ht', hc⟩ := h
  refine ⟨t', (List.mem_erase_of_ne ?_).mpr ht', hc⟩
  rintro rfl
  exact ht hc

/-- A step leaves a kind of timer pending unless it is the expiry of one of them. -/
theorem Pending.leftPending {c : Callback} {w : World} {e : Event} (h : Pending c w.timers)
    (he : ∀ t, e = .timeout t → t.callback ≠ c) : Pending c (leftPending w e) := by
  cases e with
  | timeout t => exact h.erase (he t rfl)
  | _ => exact h

/-! ## One step -/

/-- A step that starts a registration arms its timer. -/
theorem armedBy_of_starts {w : World} {e : Event} (hs : StartsRegistration w e) :
    armedBy w e = registrationArms w := by
  obtain ⟨hmove, -, -⟩ := hs
  cases e with
  | client type data env =>
      simp only [moveOf, clientMove] at hmove
      simp only [armedBy]
      cases htype : PacketType.ofCode type with
      | none => simp [htype] at hmove
      | some p =>
          cases p <;> simp only [htype] at hmove ⊢
          case button =>
            split_ifs at hmove ⊢ with hb
            · rfl
            · simp at hmove
          case init => split_ifs at hmove <;> simp at hmove
          case reloadConfig => cases hload : loadCfgFile env <;> simp [hload] at hmove
          all_goals simp at hmove
  | mail m env =>
      exfalso
      simp only [moveOf] at hmove
      rcases mailMove_cases w m env with hm | hm | hm | ⟨any, hm⟩ <;> simp [hm] at hmove
  | timeout t =>
      simp only [moveOf, armedBy] at hmove ⊢
      cases hcb : t.callback with
      | registrationDelayedStart =>
          rw [hcb] at hmove
          obtain ⟨-, hmode⟩ := hmove.resolve_left (by simp [timerMove])
          exact if_pos hmode
      | _ => simp [hcb, timerMove] at hmove

/-- A step that starts a registration leads to a mode that is covered. -/
theorem covered_of_starts {w w' : World} {e : Event} (hs : StartsRegistration w e)
    (h : step w e = some w') : WindowCovered w' ∧ DelayCovered w' := by
  have hmode := regMode_of_starts hs h
  have htimers := (timers_step h).1
  rw [armedBy_of_starts hs] at htimers
  obtain ⟨-, hcfg, hact⟩ := hs
  unfold registrationArms at htimers
  rw [if_neg hcfg] at htimers
  unfold WindowCovered DelayCovered
  by_cases hradio : w.status.radio = .disabled
  · rw [if_pos hradio] at hmode htimers
    rw [hmode, htimers]
    exact ⟨by simp, fun _ => ⟨_, List.mem_cons_self, rfl⟩⟩
  · rw [if_neg hradio] at hmode htimers
    rw [if_pos (hact.resolve_left hradio)] at htimers
    rw [hmode, htimers]
    exact ⟨fun _ => ⟨_, List.mem_cons_self, rfl⟩, by simp⟩

/-- **One step.**  An open window stays covered. -/
theorem windowCovered_step {w w' : World} {e : Event} (hw : WindowCovered w)
    (h : step w e = some w') : WindowCovered w' := by
  by_cases hs : StartsRegistration w e
  · exact (covered_of_starts hs h).1
  intro hopen
  have hbefore : w.status.regMode = .enabled := by
    rcases regMode_of_not_starts hs h with hsame | hclosed
    · rw [← hsame, hopen]
    · rw [hclosed] at hopen
      exact absurd hopen (by decide)
  rw [(timers_step h).1]
  refine ((hw hbefore).leftPending ?_).append_right _
  -- the expiry of a stop timer would have closed the window
  rintro t rfl hcb
  rw [(regMode_of_expiry hcb h).2] at hopen
  exact absurd hopen (by decide)

/-- A delayed start that is due and starts no registration: the configuration does not let
it, and the mode stays. -/
theorem due_of_not_starts {w w' : World} {t : Timer}
    (hcb : t.callback = .registrationDelayedStart) (hmode : w.status.regMode = .delayedStart)
    (hs : ¬ StartsRegistration w (.timeout t)) (h : step w (.timeout t) = some w') :
    w.config.radio = .disabled ∧ w'.status.regMode = .delayedStart ∧
      w'.timers = w.timers.erase t := by
  have hmove : moveOf w (.timeout t) = .delayedStart := by
    show timerMove t.callback = .delayedStart
    rw [hcb]
    rfl
  have hcfg : w.config.radio = .disabled := by
    by_contra hcfg
    exact hs ⟨.inr ⟨hmove, hmode⟩, hcfg, .inr (by rw [hmode]; decide)⟩
  refine ⟨hcfg, ?_, ?_⟩
  · have hstep := congrArg Control.regMode (control_step h)
    rw [hmove] at hstep
    refine hstep.trans ?_
    -- `registration` returns at its first test
    show (if w.status.regMode = .delayedStart then (control w).registration else _).regMode = _
    rw [if_pos hmode, Control.registration_of_not_act fun hact => hact.1 hcfg]
    exact hmode
  · rw [(timers_step h).1]
    show expiryArms w t.callback ++ w.timers.erase t = _
    rw [hcb]
    show (if w.status.regMode = .delayedStart then registrationArms w else []) ++ _ = _
    rw [if_pos hmode, registrationArms, if_pos hcfg, List.nil_append]

/-- **One step.**  A delayed start stays covered exactly when the step does not
strand it. -/
theorem delayCovered_step_iff {w w' : World} {e : Event} (hw : DelayCovered w)
    (h : step w e = some w') : DelayCovered w' ↔ ¬ Strands w e := by
  by_cases hs : StartsRegistration w e
  · refine iff_of_true (covered_of_starts hs h).2 fun hstr => ?_
    cases e with
    | timeout t => exact hs.2.1 hstr.2.2.1
    | _ => exact hstr
  by_cases hmode : w.status.regMode = .delayedStart
  swap
  · -- no step but the start of a registration leads to a delayed start
    refine iff_of_true (fun hdelayed => ?_) fun hstr => ?_
    · rcases regMode_of_not_starts hs h with hsame | hclosed
      · exact absurd (hsame.symm.trans hdelayed) hmode
      · rw [hclosed] at hdelayed
        exact absurd hdelayed (by decide)
    · cases e with
      | timeout t => exact hmode hstr.2.1
      | _ => exact hstr
  by_cases hdue : ∃ t, e = .timeout t ∧ t.callback = .registrationDelayedStart
  · obtain ⟨t, rfl, hcb⟩ := hdue
    obtain ⟨hcfg, hmode', htimers⟩ := due_of_not_starts hcb hmode hs h
    simp only [DelayCovered, Strands, hmode', htimers, hcb, hmode, hcfg, true_and, not_not,
      forall_const]
  · -- its timers stay as they are
    refine iff_of_true (fun _ => ?_) fun hstr => ?_
    · rw [(timers_step h).1]
      refine ((hw hmode).leftPending fun t he hcb => hdue ⟨t, he, hcb⟩).append_right _
    · cases e with
      | timeout t => exact hdue ⟨t, rfl, hstr.1⟩
      | _ => exact hstr

/-! ## Runs -/

theorem windowCovered_initial (config : Config) : WindowCovered (initial config) := by
  intro h
  cases h

theorem delayCovered_initial (config : Config) : DelayCovered (initial config) := by
  intro h
  cases h

/-- **Transient modes have their timers.**  Throughout every run an open window has a stop timer
pending; and a delayed start has its timer pending as well, throughout a run, exactly when no step
of the run strands it. -/
theorem transient_modes_covered_iff (config : Config) (es : List Event) :
    Throughout step (fun _ w => WindowCovered w) (initial config) es ∧
      (Throughout step (fun _ w => WindowCovered w ∧ DelayCovered w) (initial config) es ↔
        Along step (fun _ w e _ => ¬ Strands w e) (initial config) es) := by
  constructor
  · refine throughout_of_run (run_induction (windowCovered_initial config) ?_) es
    intro _ w e w' _ hw he
    exact windowCovered_step hw he
  · refine throughout_iff_along ⟨windowCovered_initial config, delayCovered_initial config⟩ ?_ es
    intro _ w e w' _ hw he
    rw [and_iff_right (windowCovered_step hw.1 he), delayCovered_step_iff hw.2 he]

/-- The run "register, reload a configuration with the radio off, wait for the delayed start"
leaves the manager in a delayed start with no timer. -/
theorem delayed_start_stranded :
    ¬ Throughout step (fun _ w => WindowCovered w ∧ DelayCovered w)
      (initial ⟨.enabled, by decide⟩)
      [command .registration 0, reloadTo "off",
        .timeout ⟨.registrationDelayedStart, 1000000, 0⟩] := by
  intro h
  have hend : (run step (initial ⟨.enabled, by decide⟩)
      [command .registration 0, reloadTo "off",
        .timeout ⟨.registrationDelayedStart, 1000000, 0⟩]).map
        (fun w => (w.status.regMode, w.timers)) = some (.delayedStart, []) := by
    decide
  obtain ⟨w, hw, hstate⟩ := Option.map_eq_some_iff.mp hend
  obtain ⟨hmode, htimers⟩ := Prod.mk.inj hstate
  obtain ⟨t, ht, -⟩ := (h.last hw).2 hmode
  rw [htimers] at ht
  exact absurd ht List.not_mem_nil

end DectManager
