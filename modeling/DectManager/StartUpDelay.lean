/-
# The delay between the radio and the registration window

The radio takes time to start.  A registration that finds it off switches it on
and arms a timer; the window is to open when this timer fires.  But
`registration` serves the first request, the repeated ones and the timer alike,
and what it looks at is the radio and whether the window is open already.

* `enables_iff`: the stack is asked to open the window exactly when a
  registration finds the radio on and the window not open.
* `startUpDelay_step_iff`: that happens too early exactly when the timer armed
  when the radio was last switched on is still pending.
* `start_up_delay_iff`: so the delay is honoured along a run exactly when no
  step of it opens the window over such a timer.
-/
import DectManager.TransientModes
import DectManager.Writes

namespace DectManager

open PartialRun

/-! ## Switching on and opening the window -/

/-- The step makes `registration` switch the radio on and delay the start. -/
def SwitchesOn (w : World) (e : Event) : Prop :=
  StartsRegistration w e ∧ w.status.radio = .disabled

/-- The step makes `registration` open the window. -/
def OpensWindow (w : World) (e : Event) : Prop :=
  StartsRegistration w e ∧ w.status.radio ≠ .disabled

/-- The step from `w` to `w'` asks the stack to open the window. -/
def Enables (w w' : World) : Prop :=
  ∃ new, written w' = new ++ written w ∧ ∃ b, .setRegistrationModeReq true b ∈ new

/-- A registration opens the window with the radio on. -/
theorem enables_registrationWrites_iff (w : World) :
    (∃ b, .setRegistrationModeReq true b ∈ registrationWrites w) ↔
      w.config.radio ≠ .disabled ∧ w.status.radio ≠ .disabled ∧ w.status.regMode ≠ .enabled := by
  unfold registrationWrites
  split_ifs with hcfg hradio hmode
  · simp [hcfg]
  · simp [hradio]
  · simp [hcfg, hradio, hmode]
  · simp [not_not.mp hmode]

/-- Switching the radio does not. -/
theorem not_enables_radioWrites (enable : Bool) (w : World) :
    ¬ ∃ b, .setRegistrationModeReq true b ∈ radioWrites enable w := by
  unfold radioWrites
  split_ifs <;> simp

/-- Nor does the end of an enumeration. -/
theorem not_enables_enumerationWrites (t : HandsetTable) (w : World) :
    ¬ ∃ b, .setRegistrationModeReq true b ∈ enumerationWrites t w := by
  unfold enumerationWrites
  split_ifs
  · exact not_enables_radioWrites _ w
  · simp

/-- The event calls `registration`. -/
def Registers (w : World) (e : Event) : Prop :=
  moveOf w e = .registration ∨ moveOf w e = .delayedStart ∧ w.status.regMode = .delayedStart

/-- An event that calls `registration` writes what it writes. -/
theorem writes_of_registers {w : World} {e : Event} (h : Registers w e) :
    writes w e = registrationWrites w := by
  cases e with
  | client type data env =>
      simp only [Registers, moveOf, clientMove] at h
      simp only [writes]
      cases htype : PacketType.ofCode type with
      | none => simp [htype] at h
      | some p =>
          cases p <;> simp only [htype] at h ⊢
          case button =>
            split_ifs at h ⊢ with hb
            · rfl
            · simp at h
          case init => split_ifs at h <;> simp at h
          case reloadConfig => cases hload : loadCfgFile env <;> simp [hload] at h
          all_goals simp at h
  | mail m env =>
      exfalso
      simp only [Registers, moveOf] at h
      rcases mailMove_cases w m env with hm | hm | hm | ⟨any, hm⟩ <;> simp [hm] at h
  | timeout t =>
      simp only [Registers, moveOf] at h
      simp only [writes]
      cases hcb : t.callback with
      | registrationDelayedStart =>
          rw [hcb] at h
          obtain ⟨-, hmode⟩ := h.resolve_left (by simp [timerMove])
          exact if_pos hmode
      | _ => simp [hcb, timerMove] at h

/-- A client's command that does not call `registration` does not ask the stack to open
the window. -/
theorem not_enables_client {w : World} {type : UInt32} {data : UInt8} {env : Env}
    (h : ¬ Registers w (.client type data env)) :
    ¬ ∃ b, .setRegistrationModeReq true b ∈ writes w (.client type data env) := by
  simp only [Registers, moveOf, clientMove] at h
  simp only [writes]
  cases htype : PacketType.ofCode type with
  | none => simp
  | some p =>
      cases p <;> simp only [htype] at h ⊢
      case registration => simp at h
      case button =>
        split_ifs at h ⊢ with hb
        · simp at h
        · simp
      case pingHset => unfold pingWrites; split_ifs <;> simp
      case radio => exact not_enables_radioWrites _ w
      case deleteHset => unfold deleteWrites; split_ifs <;> simp
      case init =>
        unfold initWrites
        split_ifs
        · cases nvsGetData env <;> simp
        · simp
      case reloadConfig =>
        cases hload : loadCfgFile env with
        | none => simp
        | some config =>
            show ¬ ∃ b, .setRegistrationModeReq true b ∈ reloadWrites config w
            unfold reloadWrites
            split_ifs
            · exact not_enables_radioWrites true w
            · simp [featuresReq]
            · exact not_enables_radioWrites false w
      all_goals simp [featuresReq]

/-- Nor does a mail. -/
theorem not_enables_mail (w : World) (m : Mail) (env : Env) :
    ¬ ∃ b, .setRegistrationModeReq true b ∈ writes w (.mail m env) := by
  cases m with
  | getHandsetIpuiCfm handset ipui =>
      simp only [writes, ipuiWrites]
      split_ifs
      · simp
      · simp
      · exact not_enables_enumerationWrites _ w
  | getRegistrationCountCfm m =>
      simp only [writes, countWrites]
      split_ifs
      · simp
      · exact not_enables_enumerationWrites _ w
      · simp
  | featuresCfm =>
      simp only [writes, List.mem_cons, reduceCtorEq, false_or]
      split_ifs
      · exact not_enables_radioWrites true w
      · simp
  | handsetPresentInd handset length | setRegistrationModeCfm =>
      simp only [writes]
      split_ifs <;> simp [featuresReq]
  | registrationCompleteInd =>
      simp only [writes, stopWrites]
      split_ifs <;> simp
  | _ => simp [writes, featuresReq]

/-- Nor does a timer whose expiry does not call `registration`. -/
theorem not_enables_timeout {w : World} {t : Timer} (h : ¬ Registers w (.timeout t)) :
    ¬ ∃ b, .setRegistrationModeReq true b ∈ writes w (.timeout t) := by
  simp only [Registers, moveOf] at h
  simp only [writes]
  cases hcb : t.callback with
  | registrationDelayedStart =>
      have hmode : ¬ w.status.regMode = .delayedStart := fun hmode =>
        h (.inr ⟨by rw [hcb]; rfl, hmode⟩)
      simp [hmode]
  | initCfm => simp [featuresReq]
  | registerHandsetsStop =>
      simp only [stopWrites]
      split_ifs <;> simp
  | pingHandsetStop handset =>
      simp only [pingStopWrites]
      split_ifs <;> simp

/-- An event that does not call `registration` does not ask the stack to open the
window. -/
theorem not_enables_writes {w : World} {e : Event} (h : ¬ Registers w e) :
    ¬ ∃ b, .setRegistrationModeReq true b ∈ writes w e := by
  cases e with
  | client type data env => exact not_enables_client h
  | mail m env => exact not_enables_mail w m env
  | timeout t => exact not_enables_timeout h

/-- **One step** asks the stack to open the window exactly when a registration finds
the radio on and the window not open. -/
theorem enables_iff {w w' : World} {e : Event} (h : step w e = some w') :
    Enables w w' ↔ OpensWindow w e := by
  have hnew : Enables w w' ↔ ∃ b, .setRegistrationModeReq true b ∈ writes w e := by
    constructor
    · rintro ⟨new, hw, hmem⟩
      rw [written_step h] at hw
      rw [List.append_cancel_right hw]
      exact hmem
    · intro hmem
      exact ⟨writes w e, written_step h, hmem⟩
  rw [hnew]
  by_cases hreg : Registers w e
  · rw [writes_of_registers hreg, enables_registrationWrites_iff]
    constructor
    · rintro ⟨hcfg, hradio, hmode⟩
      exact ⟨⟨hreg, hcfg, .inr hmode⟩, hradio⟩
    · rintro ⟨⟨-, hcfg, hact⟩, hradio⟩
      exact ⟨hcfg, hradio, hact.resolve_left hradio⟩
  · exact iff_of_false (not_enables_writes hreg) fun hopen => hreg hopen.1.1

/-! ## The timers of a delayed start -/

/-- Switching on arms the timer of the delayed start. -/
theorem armedBy_of_switchesOn {w : World} {e : Event} (h : SwitchesOn w e) :
    armedBy w e = [⟨.registrationDelayedStart, 1000000, w.clock⟩] := by
  obtain ⟨hstarts, hradio⟩ := h
  rw [armedBy_of_starts hstarts, registrationArms, if_neg hstarts.2.1, if_pos hradio]

/-- Nothing else arms such a timer. -/
theorem switchesOn_of_mem_armedBy {w : World} {e : Event} {t : Timer} (h : t ∈ armedBy w e)
    (ht : t.callback = .registrationDelayedStart) :
    SwitchesOn w e ∧ t = ⟨.registrationDelayedStart, 1000000, w.clock⟩ := by
  obtain ⟨harms, hreg⟩ := registrationArms_of_mem_armedBy h (.inr ht)
  unfold registrationArms at harms
  split_ifs at harms with hcfg hradio hmode
  · exact absurd harms List.not_mem_nil
  · exact ⟨⟨⟨hreg, hcfg, .inl hradio⟩, hradio⟩, List.mem_singleton.mp harms⟩
  · rw [List.mem_singleton.mp harms] at ht
    cases ht
  · exact absurd harms List.not_mem_nil

/-- The `n`-th event of the run switches the radio on for a delayed start. -/
def SwitchedOnAt (config : Config) (es : List Event) (n : ℕ) : Prop :=
  ∃ pre e post w, es = pre ++ e :: post ∧ pre.length = n ∧
    run step (initial config) pre = some w ∧ SwitchesOn w e

/-- A timer of a delayed start that was armed by the `n`-th event or a later one has
fired. -/
def DelayOver (es : List Event) (n : ℕ) : Prop :=
  ∃ t, t.callback = .registrationDelayedStart ∧ n ≤ t.armed ∧ .timeout t ∈ es

/-- If the step asks the stack to open the window, the delay of every switch-on before
is over, at the latest with this step. -/
def HonoursDelay (config : Config) (es : List Event) (w : World) (e : Event) (w' : World) : Prop :=
  Enables w w' → ∀ n, SwitchedOnAt config es n → DelayOver (es ++ [e]) n

/-- The step opens the window while the timer of the last switch-on is pending, and is
not its expiry. -/
def CutsDelay (config : Config) (es : List Event) (w : World) (e : Event) : Prop :=
  OpensWindow w e ∧ ∃ t ∈ w.timers, t.callback = .registrationDelayedStart ∧ e ≠ .timeout t ∧
    ∀ n, SwitchedOnAt config es n → n ≤ t.armed

/-- The stamp of a timer of a delayed start that is pending, or has fired, names the
switch-on that armed it. -/
theorem switchedOnAt_of_armed {config : Config} {es : List Event} {w : World} {t : Timer}
    (hrun : run step (initial config) es = some w) (ht : t ∈ w.timers ∨ .timeout t ∈ es)
    (hcb : t.callback = .registrationDelayedStart) :
    SwitchedOnAt config es t.armed ∧ t = ⟨.registrationDelayedStart, 1000000, t.armed⟩ := by
  have harmed : ∃ pre e post v, es = pre ++ e :: post ∧ pre.length = t.armed ∧
      run step (initial config) pre = some v ∧ t ∈ armedBy v e := by
    rcases ht with hpending | hfired
    · exact armedBy_of_mem_timers config es w hrun t hpending
    · exact armedBy_of_fired hrun hfired
  obtain ⟨pre, e, post, v, rfl, hlen, hv, harm⟩ := harmed
  obtain ⟨hon, heq⟩ := switchesOn_of_mem_armedBy harm hcb
  refine ⟨⟨pre, e, post, v, rfl, hlen, hv, hon⟩, ?_⟩
  rw [heq]

/-- The timer of a switch-on is pending or has fired. -/
theorem pending_or_fired_of_switchedOnAt {config : Config} {es : List Event} {w : World} {n : ℕ}
    (hrun : run step (initial config) es = some w) (h : SwitchedOnAt config es n) :
    ⟨.registrationDelayedStart, 1000000, n⟩ ∈ w.timers ∨
      .timeout ⟨.registrationDelayedStart, 1000000, n⟩ ∈ es := by
  obtain ⟨pre, e, post, v, rfl, rfl, hv, hon⟩ := h
  obtain ⟨u, u', hu, hstep, hpost⟩ := run_split step hrun
  obtain rfl : v = u := Option.some.inj (hv.symm.trans hu)
  have harmed : ⟨.registrationDelayedStart, 1000000, pre.length⟩ ∈ u'.timers := by
    rw [(timers_step hstep).1, armedBy_of_switchesOn hon, clock_eq_length config pre v hv]
    exact List.mem_append_left _ List.mem_cons_self
  refine (pending_or_fired hpost harmed).imp_right fun hmem => ?_
  exact List.mem_append_right _ (List.mem_cons_of_mem e hmem)

/-- Of the switch-ons up to now there is a last one. -/
theorem exists_last_switchedOnAt {config : Config} {es : List Event} {n : ℕ}
    (h : SwitchedOnAt config es n) :
    ∃ m, SwitchedOnAt config es m ∧ n ≤ m ∧ ∀ k, SwitchedOnAt config es k → k ≤ m := by
  classical
  have hbound : ∀ k, SwitchedOnAt config es k → k ≤ es.length := by
    rintro k ⟨pre, e, post, w, rfl, rfl, -⟩
    rw [List.length_append]
    exact Nat.le_add_right _ _
  refine ⟨Nat.findGreatest (SwitchedOnAt config es) es.length,
    Nat.findGreatest_spec (hbound n h) h, Nat.le_findGreatest (hbound n h) h, fun k hk => ?_⟩
  exact Nat.le_findGreatest (hbound k hk) hk

/-! ## Runs -/

/-- **One step** honours the delay exactly when it does not cut it. -/
theorem startUpDelay_step_iff {config : Config} {es : List Event} {w w' : World} {e : Event}
    (hrun : run step (initial config) es = some w) (h : step w e = some w') :
    HonoursDelay config es w e w' ↔ ¬ CutsDelay config es w e := by
  constructor
  · rintro hhon ⟨hopen, t, ht, hcb, hother, hlast⟩
    obtain ⟨hon, heq⟩ := switchedOnAt_of_armed hrun (.inl ht) hcb
    obtain ⟨t', hcb', hle, hfired⟩ := hhon ((enables_iff h).mpr hopen) t.armed hon
    rw [List.mem_append, List.mem_singleton] at hfired
    have hbefore : t' ∈ w.timers ∨ .timeout t' ∈ es := by
      rcases hfired with hes | rfl
      · exact .inr hes
      · exact .inl (mem_timers_of_fires h)
    -- no switch-on came after that of `t`, so the timer that has fired is `t`
    obtain ⟨hon', heq'⟩ := switchedOnAt_of_armed hrun hbefore hcb'
    have hstamp : t'.armed = t.armed := Nat.le_antisymm (hlast _ hon') hle
    obtain rfl : t' = t := by rw [heq', heq, hstamp]
    rcases hfired with hes | he
    · exact (fires_once config es w hrun).2 t' ht hes
    · exact hother he.symm
  · intro hcut henables n hn
    have hopen := (enables_iff h).mp henables
    obtain ⟨m, hm, hnm, hlast⟩ := exists_last_switchedOnAt hn
    refine ⟨⟨.registrationDelayedStart, 1000000, m⟩, rfl, hnm, ?_⟩
    rw [List.mem_append, List.mem_singleton]
    rcases pending_or_fired_of_switchedOnAt hrun hm with hpending | hfired
    · -- it is pending, so it fires now
      right
      by_contra hother
      exact hcut ⟨hopen, _, hpending, rfl, fun he => hother he.symm, hlast⟩
    · exact .inl hfired

/-- **The start-up delay is honoured along a run exactly when no step of the run opens
the window while the timer of the last switch-on is pending, unless as its expiry.** -/
theorem start_up_delay_iff (config : Config) (es : List Event) :
    Along step (fun pre w e w' => HonoursDelay config pre w e w') (initial config) es ↔
      Along step (fun pre w e _ => ¬ CutsDelay config pre w e) (initial config) es := by
  refine along_congr fun pre e _ w w' _ hrun he => ?_
  exact startUpDelay_step_iff hrun he

/-- The second of two requests to register opens the window at once. -/
theorem second_request_cuts_delay :
    ¬ Along step (fun pre w e w' => HonoursDelay ⟨.enabled, by decide⟩ pre w e w')
      (initial ⟨.enabled, by decide⟩) [command .registration 0, command .registration 0] := by
  intro h
  have hend : (step (initial ⟨.enabled, by decide⟩) (command .registration 0)).map
      (fun w => (step w (command .registration 0)).map fun w' => (written w, written w')) =
        some (some ([.startProtocolReq],
          [.setRegistrationModeReq true false, .startProtocolReq])) := by
    decide
  obtain ⟨w, hw, hnext⟩ := Option.map_eq_some_iff.mp hend
  obtain ⟨w', hw', hwritten⟩ := Option.map_eq_some_iff.mp hnext
  obtain ⟨hbefore, hafter⟩ := Prod.mk.inj hwritten
  have henables : Enables w w' :=
    ⟨[.setRegistrationModeReq true false], by rw [hafter, hbefore]; rfl, false,
      List.mem_cons_self⟩
  have hon : SwitchedOnAt ⟨.enabled, by decide⟩ [command .registration 0] 0 :=
    ⟨[], _, [], _, rfl, rfl, rfl, ⟨.inl rfl, by decide, .inl rfl⟩, rfl⟩
  obtain ⟨t, -, -, hfired⟩ := h [command .registration 0] _ [] w w' rfl
    (by rw [run_cons, hw]; rfl) hw' henables 0 hon
  -- no timer has fired
  simp [command] at hfired

end DectManager
