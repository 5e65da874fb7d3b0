/-
# The radio, its configuration and the stack's protocol

Two laws about `status.radio` over whole runs.

* `radio_follows_config`: without the client's command to switch it, the radio
  is off under a configuration that has it off, and on under one that has it on
  and has been applied, by a reload or at the end of the stack's start-up.
* `radio_tracks_protocol`: after a start-up of the stack the radio is on exactly
  when the stack's protocol is, if every restart finds the radio off; and in
  general exactly when the radio has been off at some time since the restart.
  `dect_init` leaves `status.radio` alone, and `dect_radio` starts no protocol
  for a radio that it takes to be on already.

Both follow from one spec lemma for each component of a move.
-/
import DectManager.RegistrationMode

namespace DectManager

open PartialRun

/-! ## What a move does to the radio and to the protocol -/

namespace Control

@[simp] theorem registration_config (c : Control) : c.registration.config = c.config := by
  unfold registration openWindow
  split_ifs <;> simp

/-- A registration that the configuration allows has the radio on. -/
theorem Wf.registration_radio {c : Control} (h : c.Wf) :
    c.registration.radio = if c.config = .disabled then c.radio else .enabled := by
  unfold registration
  split_ifs with hcfg hradio hmode
  · rfl
  · exact h.setRadio_radio true
  · have hon : c.radio = .enabled := h.radio.resolve_left hradio
    simp [openWindow, hon]
  · exact h.radio.resolve_left hradio

/-- The stack's protocol runs exactly when the radio is on. -/
def Tracks (c : Control) : Prop := c.protocol = true ↔ c.radio = .enabled

/-- Nothing has happened to the radio and the protocol, or they agree and the radio has changed. -/
def Switched (c c' : Control) : Prop :=
  c'.radio = c.radio ∧ c'.protocol = c.protocol ∨ c'.radio ≠ c.radio ∧ c'.Tracks

theorem switched_setRadio (enable : Bool) (c : Control) : c.Switched (c.setRadio enable) := by
  unfold setRadio
  split_ifs with hon hoff
  · refine .inr ⟨?_, ?_⟩
    · simp [hon.2]
    · simp [Tracks, showLed]
  · refine .inr ⟨?_, ?_⟩
    · simp [hoff.2]
    · simp [Tracks, showLed]
  · exact .inl ⟨rfl, rfl⟩

theorem switched_registration (c : Control) : c.Switched c.registration := by
  unfold registration
  split_ifs
  · exact .inl ⟨rfl, rfl⟩
  · exact switched_setRadio true c
  · unfold openWindow
    split_ifs <;> exact .inl ⟨rfl, rfl⟩
  · exact .inl ⟨rfl, rfl⟩

end Control

namespace Move

/-- The configuration in force after a move. -/
def configAfter (c : Control) : Move → RegState
  | .reload config => config.radio
  | _ => c.config

/-- The radio after a move. -/
def radioAfter (c : Control) : Move → RegState
  | .radio enable => if enable then .enabled else .disabled
  | .reload config => if config.radio = .auto then c.radio else config.radio
  | .registration => if c.config = .disabled then c.radio else .enabled
  | .delayedStart =>
    if c.regMode = .delayedStart ∧ c.config ≠ .disabled then .enabled else c.radio
  | .features => if c.config = .enabled then .enabled else c.radio
  | .enumerated any =>
    if c.config = .auto then if any then .enabled else .disabled else c.radio
  | .close => c.radio
  | .linuxInit => c.radio
  | .idle => c.radio

theorem apply_config (c : Control) (m : Move) : (m.apply c).config = m.configAfter c := by
  cases m with
  | reload config =>
      simp only [apply, Control.reload, configAfter]
      split_ifs <;> simp
  | delayedStart | features =>
      simp only [apply, configAfter]
      split_ifs <;> simp
  | enumerated any =>
      simp only [apply, Control.enumerated, configAfter, Control.showLed_config]
      split_ifs <;> simp
  | _ => simp [apply, configAfter]

theorem apply_radio {c : Control} (hwf : c.Wf) (m : Move) :
    (m.apply c).radio = m.radioAfter c := by
  cases m with
  | radio enable => exact hwf.setRadio_radio enable
  | reload config =>
      have hwf' : ({ c with config := config.radio } : Control).Wf :=
        ⟨hwf.radio, hwf.regMode, config.radio_ne_delayedStart⟩
      simp only [apply, Control.reload, radioAfter]
      cases hcfg : config.radio with
      | delayedStart => exact absurd hcfg config.radio_ne_delayedStart
      | auto => simp
      | _ =>
          rw [hcfg] at hwf'
          simp [hwf'.setRadio_radio]
  | registration => exact hwf.registration_radio
  | delayedStart =>
      simp only [apply, radioAfter]
      by_cases hmode : c.regMode = .delayedStart
      · simp [hmode, hwf.registration_radio]
      · simp [hmode]
  | features =>
      simp only [apply, radioAfter]
      split_ifs
      · exact hwf.setRadio_radio true
      · rfl
  | enumerated any =>
      simp only [apply, Control.enumerated, radioAfter, Control.showLed_radio]
      split_ifs
      · simp_all [hwf.setRadio_radio]
      · simp_all [hwf.setRadio_radio]
      · rfl
  | close => exact Control.close_radio c
  | linuxInit => rfl
  | idle => rfl

/-- Every move but a restart of the stack tells the stack when it switches the radio. -/
theorem switched_apply {m : Move} (hm : m ≠ .linuxInit) (c : Control) :
    c.Switched (m.apply c) := by
  have hkeep : c.Switched c := .inl ⟨rfl, rfl⟩
  cases m with
  | radio enable => exact Control.switched_setRadio enable c
  | reload config =>
      simp only [apply, Control.reload]
      split_ifs
      · exact Control.switched_setRadio true { c with config := config.radio }
      · exact .inl ⟨rfl, rfl⟩
      · exact Control.switched_setRadio false { c with config := config.radio }
  | registration => exact Control.switched_registration c
  | delayedStart =>
      simp only [apply]
      split_ifs
      · exact Control.switched_registration c
      · exact hkeep
  | features =>
      simp only [apply]
      split_ifs
      · exact Control.switched_setRadio true c
      · exact hkeep
  | enumerated any =>
      -- the LED is no matter of either
      show c.Switched (if c.config = .auto then c.setRadio any else c)
      split_ifs
      · exact Control.switched_setRadio any c
      · exact hkeep
  | close =>
      simp only [apply, Control.close]
      split_ifs <;> exact .inl ⟨rfl, rfl⟩
  | linuxInit => exact absurd rfl hm
  | idle => exact hkeep

end Move

/-! ## The radio follows the configuration -/

/-- The client's command to switch the radio. -/
def CommandsRadio : Event → Prop
  | .client type _ _ => type = PacketType.radio.code
  | _ => False

/-- The events that put the configuration into effect: a reload, and the end of the start-up of
the stack. -/
def AppliesConfig : Event → Prop
  | .client type _ _ => type = PacketType.reloadConfig.code
  | .mail .featuresCfm _ => True
  | _ => False

/-- An event has put the configuration into effect, and it has had the radio on in all states from
right after this event until now. -/
def OnApplied (config : Config) (es : List Event) : Prop :=
  ∃ pre e post, es = pre ++ e :: post ∧ AppliesConfig e ∧
    ∀ mid w, mid <+: post → run step (initial config) (pre ++ e :: mid) = some w →
      w.config.radio = .enabled

/-- The radio is off under a configuration that has it off, and on once a configuration that has
it on has been put into effect. -/
def FollowsConfig (config : Config) (es : List Event) (w : World) : Prop :=
  (w.config.radio = .disabled → w.status.radio = .disabled) ∧
    (OnApplied config es → w.status.radio = .enabled)

/-- Only the client's command is a move that sets the radio whatever the configuration. -/
theorem commandsRadio_of_moveOf {w : World} {e : Event} {enable : Bool}
    (h : moveOf w e = .radio enable) : CommandsRadio e := by
  cases e with
  | client type data env =>
      simp only [moveOf] at h
      rcases clientMove_cases w type data env with
        hm | hm | ⟨htype, -⟩ | ⟨config, -, -, hm⟩ | ⟨-, -, hm⟩
      case inr.inr.inl => exact (PacketType.ofCode_eq_some_iff _ _).mp htype
      all_goals simp [hm] at h
  | mail m env =>
      simp only [moveOf] at h
      rcases mailMove_cases w m env with hm | hm | hm | ⟨any, hm⟩ <;> simp [hm] at h
  | timeout t =>
      simp only [moveOf] at h
      rcases timerMove_cases t.callback with hm | hm | hm <;> simp [hm] at h

/-- A configuration is put into effect by a reload or by the end of the start-up. -/
theorem moveOf_of_appliesConfig {w w' : World} {e : Event} (he : AppliesConfig e)
    (h : step w e = some w') : moveOf w e = .features ∨ ∃ config, moveOf w e = .reload config := by
  cases e with
  | client type data env =>
      right
      obtain rfl : type = PacketType.reloadConfig.code := he
      obtain ⟨v, hv, -⟩ := Option.map_eq_some_iff.mp h
      have hreload : reloadConfig env w = some v := hv
      obtain ⟨config, hload, -⟩ := control_reloadConfig hreload
      refine ⟨config, ?_⟩
      show ((loadCfgFile env).map Move.reload).getD .idle = _
      rw [hload]
      rfl
  | mail m env =>
      cases m with
      | featuresCfm => exact .inl rfl
      | _ => exact absurd he id
  | timeout t => exact absurd he id

/-- Under a configuration that has the radio off, no move but the command switches it on. -/
theorem Move.radioAfter_of_off {c : Control} {m : Move}
    (hc : c.config = .disabled → c.radio = .disabled) (hm : ∀ enable, m ≠ .radio enable)
    (hcfg : m.configAfter c = .disabled) : m.radioAfter c = .disabled := by
  cases m with
  | radio enable => exact absurd rfl (hm enable)
  | reload config =>
      have hoff : config.radio = .disabled := hcfg
      simp [radioAfter, hoff]
  | _ =>
      have hoff : c.config = .disabled := hcfg
      simp [radioAfter, hoff, hc hoff]

/-- Under a configuration that has the radio on, no move but the command switches it off, and
the moves that put the configuration into effect switch it on. -/
theorem Move.radioAfter_of_on {c : Control} {m : Move} (hm : ∀ enable, m ≠ .radio enable)
    (hcfg : m.configAfter c = .enabled)
    (h : (m = .features ∨ ∃ config, m = .reload config) ∨ c.radio = .enabled) :
    m.radioAfter c = .enabled := by
  cases m with
  | radio enable => exact absurd rfl (hm enable)
  | reload config =>
      have hon : config.radio = .enabled := hcfg
      simp [radioAfter, hon]
  | features =>
      have hon : c.config = .enabled := hcfg
      simp [radioAfter, hon]
  | _ =>
      have hon : c.config = .enabled := hcfg
      have hradio : c.radio = .enabled := h.resolve_left (by simp)
      simp [radioAfter, hon, hradio]

/-- The end of a longer history of an applied configuration. -/
theorem onApplied_concat {config : Config} {es : List Event} {e : Event} {w' : World}
    (h : OnApplied config (es ++ [e])) (hrun : run step (initial config) (es ++ [e]) = some w') :
    w'.config.radio = .enabled ∧ (AppliesConfig e ∨ OnApplied config es) := by
  obtain ⟨pre, x, post, hes, hx, hon⟩ := h
  refine ⟨hon post w' (List.prefix_refl _) (by rw [← hes]; exact hrun), ?_⟩
  rcases split_concat_iff.mp hes.symm with ⟨rfl, rfl, rfl⟩ | ⟨post', rfl, rfl⟩
  · exact .inl hx
  · refine .inr ⟨pre, x, post', rfl, hx, fun mid w hmid => ?_⟩
    exact hon mid w (hmid.trans (List.prefix_append _ _))

/-- **One step** that is not the client's command. -/
theorem followsConfig_step {config : Config} {es : List Event} {w w' : World} {e : Event}
    (hrun : run step (initial config) es = some w) (hw : FollowsConfig config es w)
    (h : step w e = some w') (he : ¬ CommandsRadio e) : FollowsConfig config (es ++ [e]) w' := by
  have hcfg : w'.config.radio = (moveOf w e).configAfter (control w) := by
    rw [← Move.apply_config, ← control_step h]
    rfl
  have hradio : w'.status.radio = (moveOf w e).radioAfter (control w) := by
    rw [← Move.apply_radio (control_wf w), ← control_step h]
    rfl
  have hmove : ∀ enable, moveOf w e ≠ .radio enable :=
    fun enable hm => he (commandsRadio_of_moveOf hm)
  refine ⟨fun hoff => ?_, fun hon => ?_⟩
  · rw [hradio]
    exact Move.radioAfter_of_off hw.1 hmove (hcfg.symm.trans hoff)
  · have hrun' : run step (initial config) (es ++ [e]) = some w' :=
      (run_concat_eq_some step).mpr ⟨w, hrun, h⟩
    obtain ⟨hcfg', happ⟩ := onApplied_concat hon hrun'
    rw [hradio]
    refine Move.radioAfter_of_on hmove (hcfg.symm.trans hcfg') ?_
    -- the configuration is put into effect by this event, or was before
    exact happ.imp (fun he => moveOf_of_appliesConfig he h) hw.2

/-- **The radio follows the configuration.**  Throughout every run in which no client commands the
radio: it is off under a configuration that has it off; and it is on under a configuration that has
it on, once a reload or the end of the stack's start-up has put this configuration into effect. -/
theorem radio_follows_config (config : Config) (es : List Event)
    (hes : ∀ e ∈ es, ¬ CommandsRadio e) :
    Throughout step (FollowsConfig config) (initial config) es := by
  intro pre w hpre hrun
  have hC : Along step (fun _ _ e _ => ¬ CommandsRadio e) (initial config) pre := by
    intro before e after _ _ hsplit _ _
    refine hes e (hpre.subset ?_)
    rw [hsplit]
    exact List.mem_append_right _ List.mem_cons_self
  refine run_induction_along (C := fun _ _ e _ => ¬ CommandsRadio e) ?_ ?_ pre w hC hrun
  · refine ⟨fun _ => rfl, ?_⟩
    rintro ⟨before, e, after, hsplit, -⟩
    simp at hsplit
  · intro _ _ _ _ hrun hw he hC
    exact followsConfig_step hrun hw he hC

/-- A reload during a delayed start: the radio goes off, and the delayed start leaves it so. -/
theorem radio_off_after_delayed_start :
    Throughout step (FollowsConfig ⟨.enabled, by decide⟩) (initial ⟨.enabled, by decide⟩)
      [command .registration 0, reloadTo "off",
        .timeout ⟨.registrationDelayedStart, 1000000, 0⟩] := by
  refine radio_follows_config _ _ fun e he => ?_
  simp only [List.mem_cons, List.not_mem_nil, or_false] at he
  rcases he with rfl | rfl | rfl
  · show PacketType.registration.code ≠ PacketType.radio.code
    decide
  · show PacketType.reloadConfig.code ≠ PacketType.radio.code
    decide
  · exact id

/-! ## The radio and the stack's protocol -/

namespace Control

/-- The stack's protocol does not run behind the manager's back. -/
def NoHiddenProtocol (c : Control) : Prop := c.protocol = true → c.radio = .enabled

theorem Switched.noHiddenProtocol {c c' : Control} (h : c.Switched c')
    (hc : c.NoHiddenProtocol) : c'.NoHiddenProtocol := by
  rcases h with ⟨hradio, hprot⟩ | ⟨-, htracks⟩
  · unfold NoHiddenProtocol
    rw [hradio, hprot]
    exact hc
  · exact htracks.mp

/-- **One move.**  Agreement is kept, and gained when the radio goes off. -/
theorem Switched.tracks_iff {c c' : Control} (hwf : c.Wf) (hwf' : c'.Wf) (h : c.Switched c')
    (hc : c.NoHiddenProtocol) : c'.Tracks ↔ c.Tracks ∨ c'.radio = .disabled := by
  have hoff (h : c.radio = .disabled) : c.Tracks := by
    refine ⟨hc, fun hon => ?_⟩
    rw [h] at hon
    exact absurd hon (by decide)
  rcases h with ⟨hradio, hprot⟩ | ⟨hradio, htracks⟩
  · have hsame : c'.Tracks ↔ c.Tracks := by
      unfold Tracks
      rw [hradio, hprot]
    rw [hsame, hradio]
    exact (or_iff_left_of_imp hoff).symm
  · refine iff_of_true htracks ?_
    -- the radio has been off before or is off now
    rcases hwf.radio with hdis | hen
    · exact .inl (hoff hdis)
    · refine .inr (hwf'.radio.resolve_right fun hen' => ?_)
      exact hradio (hen'.trans hen.symm)

end Control

/-- The stack's protocol runs exactly when `status.radio` says so. -/
def ProtocolTracks (w : World) : Prop := protocolOn w.log = true ↔ w.status.radio = .enabled

/-- The event writes an `API_LINUX_INIT_REQ`: an `INIT` command, and the driver can be opened. -/
def RestartsStack : Event → Prop
  | .client type _ env => type = PacketType.init.code ∧ env.dectshim = true
  | _ => False

/-- `post` is what has happened since the last restart of the stack, `pre` what happened before. -/
def LastRestart (pre post es : List Event) : Prop :=
  ∃ e, es = pre ++ e :: post ∧ RestartsStack e ∧ ∀ x ∈ post, ¬ RestartsStack x

/-- Among these events is an `API_LINUX_INIT_CFM` and later an `API_FP_CC_FEATURES_CFM`. -/
def StartedUp (post : List Event) : Prop :=
  ∃ env env', List.Sublist [.mail .linuxInitCfm env, .mail .featuresCfm env'] post

/-- The radio has been off at some time since the events `pre`. -/
def OffSince (config : Config) (pre es : List Event) : Prop :=
  ∃ mid w, pre <+: mid ∧ mid <+: es ∧ run step (initial config) mid = some w ∧
    w.status.radio = .disabled

theorem moveOf_eq_linuxInit_iff {w : World} {e : Event} :
    moveOf w e = .linuxInit ↔ RestartsStack e := by
  cases e with
  | client type data env =>
      constructor
      · intro h
        simp only [moveOf] at h
        rcases clientMove_cases w type data env with
          hm | hm | ⟨-, hm⟩ | ⟨config, -, -, hm⟩ | ⟨htype, hopen, -⟩
        case inr.inr.inr.inr => exact ⟨(PacketType.ofCode_eq_some_iff _ _).mp htype, hopen⟩
        all_goals simp [hm] at h
      · rintro ⟨rfl, hopen⟩
        exact if_pos hopen
  | mail m env =>
      refine iff_of_false (fun h => ?_) id
      simp only [moveOf] at h
      rcases mailMove_cases w m env with hm | hm | hm | ⟨any, hm⟩ <;> simp [hm] at h
  | timeout t =>
      refine iff_of_false (fun h => ?_) id
      simp only [moveOf] at h
      rcases timerMove_cases t.callback with hm | hm | hm <;> simp [hm] at h

/-- A step that is no restart switches the protocol with the radio. -/
theorem switched_step {w w' : World} {e : Event} (h : step w e = some w')
    (he : ¬ RestartsStack e) : (control w).Switched (control w') := by
  rw [control_step h]
  exact Move.switched_apply (mt moveOf_eq_linuxInit_iff.mp he) _

/-- A restart switches the protocol off and leaves the radio alone. -/
theorem control_of_restartsStack {w w' : World} {e : Event} (h : step w e = some w')
    (he : RestartsStack e) : control w' = { control w with protocol := false } := by
  rw [control_step h, moveOf_eq_linuxInit_iff.mpr he]
  rfl

/-- After every run the protocol does not run behind the manager's back. -/
theorem noHiddenProtocol_run (config : Config) :
    ∀ es w, run step (initial config) es = some w → (control w).NoHiddenProtocol := by
  refine run_induction (P := fun _ w => (control w).NoHiddenProtocol) ?_ ?_
  · intro h
    cases h
  · intro _ w e w' _ hw he
    by_cases hr : RestartsStack e
    · rw [control_of_restartsStack he hr]
      intro h
      cases h
    · exact (switched_step he hr).noHiddenProtocol hw

/-- The radio has been off since some events exactly when it was before the last event or is off
now. -/
theorem offSince_concat_iff {config : Config} {pre es : List Event} {e : Event} {w' : World}
    (hpre : pre <+: es) (hrun : run step (initial config) (es ++ [e]) = some w') :
    OffSince config pre (es ++ [e]) ↔ OffSince config pre es ∨ w'.status.radio = .disabled := by
  constructor
  · rintro ⟨mid, v, hmid, hes, hv, hoff⟩
    rcases List.prefix_concat_iff.mp hes with rfl | hes'
    · obtain rfl : w' = v := Option.some.inj (hrun.symm.trans hv)
      exact .inr hoff
    · exact .inl ⟨mid, v, hmid, hes', hv, hoff⟩
  · rintro (⟨mid, v, hmid, hes, hv, hoff⟩ | hoff)
    · exact ⟨mid, v, hmid, hes.trans (List.prefix_append _ _), hv, hoff⟩
    · exact ⟨es ++ [e], w', hpre.trans (List.prefix_append _ _), List.prefix_refl _, hrun, hoff⟩

/-- The radio has been off since the present exactly when it is off. -/
theorem offSince_self_iff {config : Config} {es : List Event} {w : World}
    (hrun : run step (initial config) es = some w) :
    OffSince config es es ↔ w.status.radio = .disabled := by
  constructor
  · rintro ⟨mid, v, hmid, hes, hv, hoff⟩
    obtain rfl : mid = es := hes.eq_of_length_le hmid.length_le
    obtain rfl : w = v := Option.some.inj (hrun.symm.trans hv)
    exact hoff
  · intro hoff
    exact ⟨es, w, List.prefix_refl _, List.prefix_refl _, hrun, hoff⟩

/-- **After a restart** the radio tracks the protocol exactly when it has been off at some time
since. -/
theorem protocolTracks_iff_offSince (config : Config) :
    ∀ es w, run step (initial config) es = some w → ∀ pre post, LastRestart pre post es →
      (ProtocolTracks w ↔ OffSince config pre es) := by
  refine run_induction (P := fun es w => ∀ pre post, LastRestart pre post es →
    (ProtocolTracks w ↔ OffSince config pre es)) ?_ ?_
  · rintro pre post ⟨e, hes, -⟩
    simp at hes
  · intro es w e w' hrun hw he pre post hlast
    have hrun' : run step (initial config) (es ++ [e]) = some w' :=
      (run_concat_eq_some step).mpr ⟨w, hrun, he⟩
    have hhidden := noHiddenProtocol_run config es w hrun
    obtain ⟨r, hes, hr, hpost⟩ := hlast
    rcases split_concat_iff.mp hes.symm with ⟨rfl, rfl, rfl⟩ | ⟨post', rfl, rfl⟩
    · -- the restart is the last event
      have hcontrol := control_of_restartsStack he hr
      have hprot : protocolOn w'.log = false := congrArg Control.protocol hcontrol
      have hradio : w'.status.radio = w.status.radio := congrArg Control.radio hcontrol
      rw [offSince_concat_iff (List.prefix_refl _) hrun', offSince_self_iff hrun, hradio, or_self,
        ProtocolTracks, hprot, hradio, ← w.status.radio_ne_enabled_iff]
      simp
    · have hnot : ¬ RestartsStack e := hpost e (by simp)
      have hbefore := hw pre post' ⟨r, rfl, hr, fun x hx => hpost x (List.mem_append_left _ hx)⟩
      rw [offSince_concat_iff (List.prefix_append _ _) hrun', ← hbefore]
      exact (switched_step he hnot).tracks_iff (control_wf w) (control_wf w') hhidden

/-- **`status.radio` tracks the stack's protocol.**  If every restart of the stack finds the radio
off, then after every start-up the protocol runs exactly when `status.radio` says so, throughout
the run.  And in general, at every point after a restart, it does exactly when the radio has been
off at some time since the restart. -/
theorem radio_tracks_protocol (config : Config) (es : List Event) :
    (Along step (fun _ w e _ => RestartsStack e → w.status.radio = .disabled) (initial config) es →
        Throughout step (fun es w => ∀ pre post, LastRestart pre post es → StartedUp post →
          ProtocolTracks w) (initial config) es) ∧
      Throughout step (fun es w => ∀ pre post, LastRestart pre post es →
        (ProtocolTracks w ↔ OffSince config pre es)) (initial config) es := by
  have hexact := protocolTracks_iff_offSince config
  refine ⟨fun hC cur w hcur hrun pre post hlast _ => ?_, throughout_of_run hexact es⟩
  refine (hexact cur w hrun pre post hlast).mpr ?_
  obtain ⟨e, rfl, hr, -⟩ := hlast
  obtain ⟨v, v', hv, he, -⟩ := run_split step hrun
  obtain ⟨rest, rfl⟩ := hcur
  refine ⟨pre, v, List.prefix_refl _, List.prefix_append _ _, hv, ?_⟩
  exact hC pre e (post ++ rest) v v' (by simp) hv he hr

/-- An `INIT` command that reaches the driver and finds the stack's data. -/
def initCommand : Event :=
  .client PacketType.init.code 0 { Env.none with dectshim := true, nvs := some [] }

/-- A start-up: the command and the stack's two confirmations. -/
def startUp : List Event := [initCommand, .mail .linuxInitCfm .none, .mail .featuresCfm .none]

/-- A history that ends with a start-up has its last restart there. -/
theorem lastRestart_startUp (pre : List Event) :
    LastRestart pre [.mail .linuxInitCfm .none, .mail .featuresCfm .none] (pre ++ startUp) := by
  refine ⟨initCommand, rfl, ⟨rfl, rfl⟩, fun x hx => ?_⟩
  simp only [List.mem_cons, List.not_mem_nil, or_false] at hx
  rcases hx with rfl | rfl <;> exact id

/-- After the first start-up the protocol runs and the radio is on. -/
theorem first_start_up_tracks :
    ∃ w, run step (initial ⟨.enabled, by decide⟩) startUp = some w ∧ ProtocolTracks w := by
  refine ⟨_, rfl, (radio_tracks_protocol ⟨.enabled, by decide⟩ startUp).1 ?_ _ _
    (List.prefix_refl _) rfl _ _ (lastRestart_startUp []) ⟨.none, .none, List.Sublist.refl _⟩⟩
  exact .cons rfl (fun _ => rfl) <| .cons rfl (fun h => absurd h id) <|
    .cons rfl (fun h => absurd h id) <| along_nil _ _

/-- After a second start-up the radio is on and the protocol does not run. -/
theorem second_start_up_loses_protocol :
    ¬ Throughout step (fun es w => ∀ pre post, LastRestart pre post es → StartedUp post →
      ProtocolTracks w) (initial ⟨.enabled, by decide⟩) (startUp ++ startUp) := by
  intro h
  have hend : (run step (initial ⟨.enabled, by decide⟩) (startUp ++ startUp)).map
      (fun w => (protocolOn w.log, w.status.radio)) = some (false, .enabled) := by
    decide
  obtain ⟨w, hw, hstate⟩ := Option.map_eq_some_iff.mp hend
  obtain ⟨hprot, hradio⟩ := Prod.mk.inj hstate
  have htracks := (h.last hw) _ _ (lastRestart_startUp startUp)
    ⟨.none, .none, List.Sublist.refl _⟩
  rw [htracks.mpr hradio] at hprot
  exact absurd hprot (by decide)

end DectManager
