/-
# Pending timers

Timers are armed by `registration`, `ping_handset` and `list_handsets_schedule`
only, and leave the list only by expiring.  `armedBy` lists the timers that an
event arms; `timers_step` says that after a step these stand before the ones
that were pending and have not just expired.

A timer carries the number of events processed when it was armed, so in a run
the events after its arming are a suffix of the run (`armed_lt_clock`,
`clock_eq_length`).  It is pending from then on until it fires, and fires once
(`pending_or_fired`, `fires_once`).
-/
import DectManager.PartialRun
import DectManager.Manager

namespace DectManager

open PartialRun

/-- The timers of a state and the stamp that the next one gets. -/
def timing (w : World) : List Timer × ℕ := (w.timers, w.clock)

/-! ## What the handlers do to the timers -/

theorem timing_ignoresRadio : IgnoresRadio timing :=
  ⟨fun _ _ => rfl, fun _ => rfl, fun _ => rfl, fun _ _ _ => rfl⟩

@[simp] theorem timing_record (a : Action) (w : World) : timing (w.record a) = timing w := rfl

@[simp] theorem timing_writeDect (m : Request) (w : World) : timing (writeDect m w) = timing w :=
  rfl

@[simp] theorem timing_setHandset (t : HandsetTable) (w : World) :
    timing (w.setHandset t) = timing w := rfl

@[simp] theorem timing_setRegMode (regMode : RegState) (h : regMode ≠ .auto) (w : World) :
    timing (w.setRegMode regMode h) = timing w := rfl

theorem timing_arm (callback : Callback) (usec : ℕ) (w : World) :
    timing (w.arm callback usec) = (⟨callback, usec, w.clock⟩ :: w.timers, w.clock) := rfl

@[simp] theorem timing_controlLed (w : World) : timing (controlLed w) = timing w :=
  timing_ignoresRadio.controlLed w

@[simp] theorem timing_dectRadio (enable : Bool) (w : World) :
    timing (dectRadio enable w) = timing w :=
  timing_ignoresRadio.dectRadio enable w

@[simp] theorem timing_initCfm (w : World) : timing (initCfm w) = timing w := rfl

@[simp] theorem timing_perhapsDisableProtocol (w : World) :
    timing (perhapsDisableProtocol w) = timing w :=
  timing_ignoresRadio.perhapsDisableProtocol w

@[simp] theorem timing_registrationCountCfm (m : RegistrationCountCfm) (w : World) :
    timing (registrationCountCfm m w) = timing w := by
  simp [registrationCountCfm_eq, getHandsetIpui, apply_ite timing]

@[simp] theorem timing_handsetIpuiCfm (env : Env) (handset : ℕ) (ipui : Fin 5 → UInt8)
    (w : World) : timing (handsetIpuiCfm env handset ipui w) = timing w := by
  simp [handsetIpuiCfm_eq, getHandsetIpui, apply_ite timing]

@[simp] theorem timing_pingHandsetStop (handset : ℕ) (w : World) :
    timing (pingHandsetStop handset w) = timing w := by
  simp [pingHandsetStop_eq, apply_ite timing]

@[simp] theorem timing_registerHandsetsStart (w : World) :
    timing (registerHandsetsStart w) = timing w := by
  simp [registerHandsetsStart, apply_ite timing]

@[simp] theorem timing_registerHandsetsStop (w : World) :
    timing (registerHandsetsStop w) = timing w := by
  simp [registerHandsetsStop, apply_ite timing]

/-- The timer that a registration request arms. -/
def registrationArms (w : World) : List Timer :=
  if w.config.radio = .disabled then []
  else if w.status.radio = .disabled then [⟨.registrationDelayedStart, 1000000, w.clock⟩]
  else if w.status.regMode ≠ .enabled then [⟨.registerHandsetsStop, 180000000, w.clock⟩]
  else []

theorem timing_registration (w : World) :
    timing (registration w) = (registrationArms w ++ w.timers, w.clock) := by
  have harm (callback : Callback) (usec : ℕ) {v : World} (hv : timing v = timing w) :
      timing (v.arm callback usec) = (⟨callback, usec, w.clock⟩ :: w.timers, w.clock) := by
    obtain ⟨htimers, hclock⟩ := Prod.mk.inj hv
    rw [timing_arm, htimers, hclock]
  unfold registration registrationArms
  split
  · rfl
  · split
    · exact harm _ _ (by simp)
    · split
      · exact harm _ _ (by simp)
      · rfl

/-! ## One step -/

/-- The timer that the expiry of another one arms. -/
def expiryArms (w : World) : Callback → List Timer
  | .registrationDelayedStart =>
    if w.status.regMode = .delayedStart then registrationArms w else []
  | _ => []

/-- The timers that an event arms. -/
def armedBy (w : World) : Event → List Timer
  | .client type data env =>
    match PacketType.ofCode type with
    | some .registration => registrationArms w
    | some .pingHset =>
      if badHandsetnr data.toNat ∨ w.config.radio = .disabled then []
      else [⟨.pingHandsetStop data.toNat, 20000000, w.clock⟩]
    | some .reloadConfig =>
      if (loadCfgFile env).map Config.radio = some .enabled then [⟨.initCfm, 1250000, w.clock⟩]
      else []
    | some .button =>
      if data ≠ 0 ∧ (w.config.radio = .enabled ∨ w.config.radio = .auto) then registrationArms w
      else []
    | _ => []
  | .mail (.deleteRegistrationCfm _) _ => [⟨.initCfm, 1250000, w.clock⟩]
  | .mail _ _ => []
  | .timeout t => expiryArms w t.callback

/-- The timers that an event leaves pending. -/
def leftPending (w : World) : Event → List Timer
  | .timeout t => w.timers.erase t
  | _ => w.timers

theorem timing_pingHandset (handset : ℕ) (w : World) :
    timing (pingHandset handset w) =
      ((if badHandsetnr handset ∨ w.config.radio = .disabled then []
        else [⟨.pingHandsetStop handset, 20000000, w.clock⟩]) ++ w.timers, w.clock) := by
  rw [pingHandset_eq]
  by_cases hbad : badHandsetnr handset
  · simp [hbad, timing]
  · by_cases hcfg : w.config.radio = .disabled
    · simp [hbad, hcfg, timing]
    · simp only [hbad, hcfg, if_false, or_self, Bool.false_eq_true]
      rfl

theorem timing_reloadConfig {env : Env} {w w' : World} (h : reloadConfig env w = some w') :
    timing w' =
      ((if (loadCfgFile env).map Config.radio = some .enabled then [⟨.initCfm, 1250000, w.clock⟩]
        else []) ++ w.timers, w.clock) := by
  obtain ⟨config, hload, rfl⟩ := Option.map_eq_some_iff.mp h
  have hv (enable : Bool) : timing (dectRadio enable { w with config }) = timing w :=
    timing_dectRadio _ _
  obtain ⟨htimers, hclock⟩ := Prod.mk.inj (hv true)
  simp only [hload, Option.map_some, Option.some.injEq, apply_ite timing, listHandsetsSchedule,
    timing_arm, htimers, hclock, hv]
  by_cases hon : config.radio = .enabled
  · simp only [hon, if_true]
    rfl
  · simp only [hon, if_false]
    split <;> rfl

theorem timing_dectInit {env : Env} {w w' : World} (h : dectInit env w = some w') :
    timing w' = timing w := by
  unfold dectInit at h
  split at h
  · obtain ⟨data, -, rfl⟩ := Option.map_eq_some_iff.mp h
    rfl
  · obtain rfl : w = w' := by simpa using h
    rfl

theorem timing_handleClientPacket {env : Env} {type : UInt32} {data : UInt8} {w w' : World}
    (h : handleClientPacket env type data w = some w') :
    timing w' = (armedBy w (.client type data env) ++ w.timers, w.clock) := by
  unfold handleClientPacket at h
  simp only [armedBy]
  cases htype : PacketType.ofCode type with
  | none =>
      simp only [htype, Option.some.injEq] at h
      rw [← h]
      rfl
  | some t =>
      cases t <;> simp only [htype, Option.some.injEq] at h ⊢
      case reloadConfig => exact timing_reloadConfig h
      case init => exact timing_dectInit h
      case registration => rw [← h, timing_registration]
      case pingHset => rw [← h, timing_pingHandset]
      case button =>
        split at h
        · rename_i hb
          obtain rfl : registration w = w' := by simpa using h
          rw [if_pos hb, timing_registration]
        · rename_i hb
          obtain rfl : w = w' := by simpa using h
          rw [if_neg hb]
          rfl
      case radio =>
        rw [← h, timing_dectRadio]
        rfl
      case deleteHset =>
        rw [← h, deleteHset]
        split <;> rfl
      all_goals
        rw [← h]
        rfl

theorem timing_handleDectPacket (env : Env) (m : Mail) (w : World) :
    timing (handleDectPacket env m w) = (armedBy w (.mail m env) ++ w.timers, w.clock) := by
  have hpres (handset : ℕ) : timing (presentInd handset w) = timing w := by
    simp [presentInd_eq, apply_ite timing]
  cases m with
  | deleteRegistrationCfm handset =>
      have hv : timing (deleteRegistrationCfm handset w) = timing w := by
        simp [deleteRegistrationCfm_eq, apply_ite timing]
      obtain ⟨htimers, hclock⟩ := Prod.mk.inj hv
      rw [handleDectPacket, listHandsetsSchedule, timing_arm, htimers, hclock]
      rfl
  | connectInd handset =>
      rw [handleDectPacket, connectInd_eq]
      simp only [apply_ite timing, timing_setHandset, ite_self]
      rfl
  | handsetPresentInd handset length =>
      rw [handleDectPacket]
      simp only [apply_ite timing, timing_initCfm, hpres, ite_self]
      rfl
  | setRegistrationModeCfm =>
      rw [handleDectPacket]
      simp only [apply_ite timing, timing_initCfm, ite_self]
      rfl
  | featuresCfm =>
      rw [handleDectPacket, listHandsets, timing_writeDect]
      simp only [apply_ite timing, timing_dectRadio, ite_self]
      rfl
  | getHandsetIpuiCfm handset ipui => exact timing_handsetIpuiCfm env handset ipui w
  | getRegistrationCountCfm m => exact timing_registrationCountCfm m w
  | registrationCompleteInd => exact timing_registerHandsetsStop w
  | _ => rfl

theorem timing_expire (callback : Callback) (w : World) :
    timing (expire callback w) = (expiryArms w callback ++ w.timers, w.clock) := by
  cases callback with
  | initCfm => rfl
  | registrationDelayedStart =>
      simp only [expire, registrationDelayedStart, expiryArms]
      split
      · exact timing_registration w
      · rfl
  | registerHandsetsStop => exact timing_registerHandsetsStop w
  | pingHandsetStop handset => exact timing_pingHandsetStop handset w

/-- **One step.**  The timers that the event arms come before those that it
leaves pending, and the stamp grows by one. -/
theorem timers_step {w w' : World} {e : Event} (h : step w e = some w') :
    w'.timers = armedBy w e ++ leftPending w e ∧ w'.clock = w.clock + 1 := by
  cases e with
  | client type data env =>
      obtain ⟨v, hv, rfl⟩ := Option.map_eq_some_iff.mp h
      obtain ⟨htimers, hclock⟩ := Prod.mk.inj (timing_handleClientPacket hv)
      exact ⟨htimers, congrArg (· + 1) hclock⟩
  | mail m env =>
      obtain rfl : tick (handleDectPacket env m w) = w' := by simpa [step] using h
      obtain ⟨htimers, hclock⟩ := Prod.mk.inj (timing_handleDectPacket env m w)
      exact ⟨htimers, congrArg (· + 1) hclock⟩
  | timeout t =>
      simp only [step, Option.ite_none_right_eq_some, Option.some.injEq] at h
      obtain ⟨-, rfl⟩ := h
      obtain ⟨htimers, hclock⟩ :=
        Prod.mk.inj (timing_expire t.callback { w with timers := w.timers.erase t })
      exact ⟨htimers, congrArg (· + 1) hclock⟩

/-! ## Stamps -/

/-- After a run the stamp is the number of events processed. -/
theorem clock_eq_length (config : Config) :
    ∀ es w, run step (initial config) es = some w → w.clock = es.length := by
  refine run_induction rfl ?_
  intro es w e w' _ hw he
  rw [(timers_step he).2, hw, List.length_append, List.length_singleton]

/-- An event stamps the timers it arms with the current count. -/
theorem armed_of_mem_armedBy {w : World} {e : Event} {t : Timer} (h : t ∈ armedBy w e) :
    t.armed = w.clock := by
  have hreg (h : t ∈ registrationArms w) : t.armed = w.clock := by
    unfold registrationArms at h
    split_ifs at h <;> simp_all
  cases e with
  | client type data env =>
      unfold armedBy at h
      cases htype : PacketType.ofCode type with
      | none => simp [htype] at h
      | some p =>
          cases p <;> simp only [htype, List.not_mem_nil] at h
          case registration => exact hreg h
          case button =>
            split at h
            · exact hreg h
            · simp at h
          all_goals
            split at h
            all_goals simp_all
  | mail m env => cases m <;> simp_all [armedBy]
  | timeout t' =>
      simp only [armedBy, expiryArms] at h
      split at h
      · split at h
        · exact hreg h
        · simp at h
      · simp at h

/-- A timer that an event leaves pending was pending before. -/
theorem mem_of_mem_leftPending {w : World} {e : Event} {t : Timer} (h : t ∈ leftPending w e) :
    t ∈ w.timers := by
  cases e with
  | timeout t' => exact List.mem_of_mem_erase h
  | _ => exact h

/-- After a run every pending timer was armed by one of its events. -/
theorem armed_lt_clock (config : Config) :
    ∀ es w, run step (initial config) es = some w → ∀ t ∈ w.timers, t.armed < w.clock := by
  refine run_induction (by simp [initial]) ?_
  intro es w e w' _ hw he t ht
  obtain ⟨htimers, hclock⟩ := timers_step he
  rw [htimers, List.mem_append] at ht
  rcases ht with ht | ht
  · have := armed_of_mem_armedBy ht
    omega
  · have := hw t (mem_of_mem_leftPending ht)
    omega

/-! ## The life of a timer -/

/-- An event arms one timer at most. -/
theorem nodup_armedBy (w : World) (e : Event) : (armedBy w e).Nodup := by
  have hreg : (registrationArms w).Nodup := by
    unfold registrationArms
    split_ifs <;> simp
  cases e with
  | client type data env =>
      simp only [armedBy]
      cases htype : PacketType.ofCode type with
      | none => exact List.nodup_nil
      | some p =>
          cases p
          case registration => exact hreg
          case button =>
            dsimp only
            split_ifs
            · exact hreg
            · exact List.nodup_nil
          case pingHset | reloadConfig =>
            dsimp only
            split_ifs
            · simp
            · simp
          all_goals exact List.nodup_nil
  | mail m env => cases m <;> simp [armedBy]
  | timeout t =>
      simp only [armedBy, expiryArms]
      split
      · split_ifs
        · exact hreg
        · exact List.nodup_nil
      · exact List.nodup_nil

/-- A pending timer was armed by the event that its stamp names. -/
theorem armedBy_of_mem_timers (config : Config) :
    ∀ es w, run step (initial config) es = some w → ∀ t ∈ w.timers,
      ∃ pre e post v, es = pre ++ e :: post ∧ pre.length = t.armed ∧
        run step (initial config) pre = some v ∧ t ∈ armedBy v e := by
  refine run_induction (by simp [initial]) ?_
  intro es w e w' hrun hw he t ht
  rw [(timers_step he).1, List.mem_append] at ht
  rcases ht with ht | ht
  · refine ⟨es, e, [], w, rfl, ?_, hrun, ht⟩
    rw [armed_of_mem_armedBy ht, clock_eq_length config es w hrun]
  · obtain ⟨pre, x, post, v, rfl, hlen, hv, harm⟩ := hw t (mem_of_mem_leftPending ht)
    exact ⟨pre, x, post ++ [e], v, by rw [List.append_assoc, List.cons_append], hlen, hv, harm⟩

/-- A timer that fires in a run was pending. -/
theorem mem_timers_of_fires {w w' : World} {t : Timer} (h : step w (.timeout t) = some w') :
    t ∈ w.timers := by
  simp only [step, Option.ite_none_right_eq_some] at h
  exact h.1

/-- A timer that fires in a run was armed before by one of its events. -/
theorem armedBy_of_fired {config : Config} {es : List Event} {w : World} {t : Timer}
    (hrun : run step (initial config) es = some w) (h : .timeout t ∈ es) :
    ∃ pre e post v, es = pre ++ e :: post ∧ pre.length = t.armed ∧
      run step (initial config) pre = some v ∧ t ∈ armedBy v e := by
  obtain ⟨before, after, rfl⟩ := List.append_of_mem h
  obtain ⟨u, u', hu, hfire, -⟩ := run_split step hrun
  obtain ⟨pre, e, post, v, rfl, hlen, hv, harm⟩ :=
    armedBy_of_mem_timers config before u hu t (mem_timers_of_fires hfire)
  exact ⟨pre, e, post ++ .timeout t :: after, v, by rw [List.append_assoc, List.cons_append],
    hlen, hv, harm⟩

/-- **A timer fires once.**  After a run the pending timers are distinct, and none of
them has fired. -/
theorem fires_once (config : Config) :
    ∀ es w, run step (initial config) es = some w →
      w.timers.Nodup ∧ ∀ t ∈ w.timers, .timeout t ∉ es := by
  refine run_induction ⟨List.nodup_nil, fun t ht => absurd ht List.not_mem_nil⟩ ?_
  rintro es w e w' hrun ⟨hnodup, hfired⟩ he
  -- a timer that the event arms has a stamp that no other one has
  have hfresh : ∀ t ∈ armedBy w e, t ∉ w.timers ∧ .timeout t ∉ es ∧ .timeout t ≠ e := by
    intro t ht
    have hstamp := armed_of_mem_armedBy ht
    have hpending : t ∉ w.timers := fun hmem => by
      have := armed_lt_clock config es w hrun t hmem
      omega
    refine ⟨hpending, fun hmem => ?_, ?_⟩
    · obtain ⟨pre, x, post, v, rfl, hlen, -⟩ := armedBy_of_fired hrun hmem
      rw [clock_eq_length config _ w hrun, List.length_append, List.length_cons] at hstamp
      omega
    · rintro rfl
      exact hpending (mem_timers_of_fires he)
  have hleft : ∀ t ∈ leftPending w e, .timeout t ≠ e := by
    rintro t ht rfl
    exact hnodup.not_mem_erase ht
  rw [(timers_step he).1]
  constructor
  · refine List.nodup_append.mpr ⟨nodup_armedBy w e, ?_, fun t ht t' ht' => ?_⟩
    · cases e with
      | timeout t => exact hnodup.erase t
      | _ => exact hnodup
    · rintro rfl
      exact (hfresh t ht).1 (mem_of_mem_leftPending ht')
  · intro t ht
    rw [List.mem_append, List.mem_singleton, not_or]
    rcases List.mem_append.mp ht with ht | ht
    · exact (hfresh t ht).2
    · exact ⟨hfired t (mem_of_mem_leftPending ht), hleft t ht⟩

/-- A pending timer goes on being pending until it fires. -/
theorem pending_or_fired {es : List Event} {w w' : World} {t : Timer}
    (hrun : run step w es = some w') (ht : t ∈ w.timers) : t ∈ w'.timers ∨ .timeout t ∈ es := by
  induction es generalizing w with
  | nil =>
      obtain rfl : w = w' := by simpa using hrun
      exact .inl ht
  | cons e es ih =>
      rw [run_cons, Option.bind_eq_some_iff] at hrun
      obtain ⟨v, hv, hrest⟩ := hrun
      by_cases he : e = .timeout t
      · exact .inr (he ▸ List.mem_cons_self)
      · have hleft : t ∈ leftPending w e := by
          cases e with
          | timeout t' =>
              refine (List.mem_erase_of_ne ?_).mpr ht
              rintro rfl
              exact he rfl
          | _ => exact ht
        have hpending : t ∈ v.timers := by
          rw [(timers_step hv).1]
          exact List.mem_append_right _ hleft
        exact (ih hrest hpending).imp_right (List.mem_cons_of_mem e)

end DectManager
