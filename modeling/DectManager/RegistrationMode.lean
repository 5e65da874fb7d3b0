/-
# Registration windows, the radio and the stack

Two laws about `reg_mode` over whole runs of the manager, each with the exact
condition under which it holds.

* `radio_on_while_registering_iff`: a registration in progress has the radio on
  throughout a run exactly when no step of the run switches the radio off while
  `reg_mode` is not `DISABLED`.  The source refuses to open a window with the
  radio off, and starts no enumeration on its own while a registration is in
  progress, but `stop_protocol` leaves `reg_mode` alone.
* `registration_views_agree_iff`: the manager and the stack agree on whether
  the window is open throughout a run exactly when no window is closed or
  requested again while it is open and the radio is off; whenever the manager
  says open, the stack has been told so.

Both follow from one-step laws of the core (`RadioControl.lean`) by the rule
`throughout_iff_along`.
-/
import DectManager.RadioControl

namespace DectManager

open PartialRun

/-! ## Well-formed cores -/

/-- The values that the variables of the core range over. -/
structure Control.Wf (c : Control) : Prop where
  radio : c.radio = .disabled ∨ c.radio = .enabled
  regMode : c.regMode ≠ .auto
  config : c.config ≠ .delayedStart

/-- The core of a manager state is well formed by construction. -/
theorem control_wf (w : World) : (control w).Wf :=
  ⟨w.status.radio_binary, w.status.regMode_ne_auto, w.config.radio_ne_delayedStart⟩

/-- On a well-formed core the switch always reaches its position. -/
theorem Control.Wf.setRadio_radio {c : Control} (h : c.Wf) (enable : Bool) :
    (c.setRadio enable).radio = if enable then .enabled else .disabled := by
  rcases h.radio with hr | hr <;> cases enable <;> simp [Control.setRadio, hr]

/-- A registration that acts leaves `DISABLED` behind. -/
theorem Control.registration_regMode {c : Control} (hwf : c.Wf) (hcfg : c.config ≠ .disabled)
    (hact : c.radio = .disabled ∨ c.regMode ≠ .enabled) :
    c.registration.regMode = if c.radio = .disabled then .delayedStart else .enabled := by
  unfold Control.registration
  rw [if_neg hcfg]
  rcases hwf.radio with hradio | hradio
  · simp [hradio]
  · have hmode : c.regMode ≠ .enabled := hact.resolve_left (by simp [hradio])
    simp [hradio, hmode, Control.openWindow]

/-- A registration that does not act changes nothing. -/
theorem Control.registration_of_not_act {c : Control}
    (h : ¬ (c.config ≠ .disabled ∧ (c.radio = .disabled ∨ c.regMode ≠ .enabled))) :
    c.registration = c := by
  unfold Control.registration
  by_cases hcfg : c.config = .disabled
  · rw [if_pos hcfg]
  · have hradio : ¬ c.radio = .disabled := fun hr => h ⟨hcfg, .inl hr⟩
    have hmode : ¬ c.regMode ≠ .enabled := fun hm => h ⟨hcfg, .inr hm⟩
    rw [if_neg hcfg, if_neg hradio, if_neg hmode]

/-! ## A registration in progress has the radio on -/

/-- The property of the core: a registration in progress has the radio on. -/
def Control.RegistersOnAir (c : Control) : Prop := c.regMode ≠ .disabled → c.radio = .enabled

/-- The moves that leave the radio off whatever it was: the command to switch it
off, a configuration with the radio off, an enumeration in auto mode that found
no handset. -/
def Move.SwitchesOff (c : Control) : Move → Prop
  | .radio enable => enable = false
  | .reload config => config.radio = .disabled
  | .enumerated any => c.config = .auto ∧ any = false
  | _ => False

/-- A request to register switches the radio on before anything else. -/
theorem registersOnAir_registration {c : Control} (hwf : c.Wf) (h : c.RegistersOnAir) :
    c.registration.RegistersOnAir := by
  unfold Control.registration
  split
  · exact h
  · split
    · intro _
      exact hwf.setRadio_radio true
    · rename_i hradio
      have hon : c.radio = .enabled := hwf.radio.resolve_left hradio
      split
      · intro _
        simp [Control.openWindow, hon]
      · exact h

/-- **One step.**  From a core that registers on air only, a move leads to such
a core again exactly when it does not switch the radio off during a
registration. -/
theorem registersOnAir_apply_iff {c : Control} (hwf : c.Wf) (h : c.RegistersOnAir) (m : Move) :
    (m.apply c).RegistersOnAir ↔ ¬ (c.regMode ≠ .disabled ∧ m.SwitchesOff c) := by
  cases m with
  | radio enable =>
      simp only [Control.RegistersOnAir, Move.apply, Control.setRadio_regMode,
        hwf.setRadio_radio, Move.SwitchesOff]
      cases enable <;> simp
  | reload config =>
      -- the radio is switched under the new configuration
      have hwf' : ({ c with config := config.radio } : Control).Wf :=
        ⟨hwf.radio, hwf.regMode, config.radio_ne_delayedStart⟩
      unfold Control.RegistersOnAir at h ⊢
      simp only [Move.apply, Control.reload, Move.SwitchesOff]
      cases hc : config.radio with
      | disabled =>
          rw [hc] at hwf'
          simp [hwf'.setRadio_radio]
      | delayedStart => exact absurd hc config.radio_ne_delayedStart
      | enabled =>
          rw [hc] at hwf'
          simp [hwf'.setRadio_radio]
      | auto => simpa using h
  | enumerated any =>
      simp only [Control.RegistersOnAir, Move.apply, Control.enumerated, Move.SwitchesOff,
        Control.showLed_regMode, Control.showLed_radio]
      by_cases hauto : c.config = .auto
      · simp only [hauto, if_true, Control.setRadio_regMode, hwf.setRadio_radio]
        cases any <;> simp
      · simpa [hauto, Control.RegistersOnAir] using h
  | registration => exact iff_of_true (registersOnAir_registration hwf h) fun hoff => hoff.2
  | delayedStart =>
      refine iff_of_true ?_ fun hoff => hoff.2
      simp only [Move.apply]
      split
      · exact registersOnAir_registration hwf h
      · exact h
  | close =>
      refine iff_of_true (fun hmode => ?_) fun hoff => hoff.2
      exact absurd (Control.close_regMode c) hmode
  | features =>
      refine iff_of_true ?_ fun hoff => hoff.2
      simp only [Move.apply]
      split
      · intro _
        exact hwf.setRadio_radio true
      · exact h
  | linuxInit => exact iff_of_true h fun hoff => hoff.2
  | idle => exact iff_of_true h fun hoff => hoff.2

/-- The step takes the radio from a registration in progress: it is a command
`RADIO 0`, a reload to `off`, or the end of an enumeration in auto mode with no
registered handset, at a time when `reg_mode` is not `DISABLED`. -/
def CutsRegistration (w : World) (e : Event) : Prop :=
  w.status.regMode ≠ .disabled ∧ (moveOf w e).SwitchesOff (control w)

/-- A registration in progress has the radio on. -/
def RegistersOnAir (w : World) : Prop := w.status.regMode ≠ .disabled → w.status.radio = .enabled

/-- **A registration in progress has the radio on throughout a run exactly when
no step of the run takes the radio from it.** -/
theorem radio_on_while_registering_iff (config : Config) (es : List Event) :
    Throughout step (fun _ w => RegistersOnAir w) (initial config) es ↔
      Along step (fun _ w e _ => ¬ CutsRegistration w e) (initial config) es := by
  refine throughout_iff_along ?_ ?_ es
  · intro h
    exact absurd rfl h
  · intro _ w e w' _ hw he
    have hlaw := registersOnAir_apply_iff (control_wf w) hw (moveOf w e)
    rw [← control_step he] at hlaw
    exact hlaw

/-- A client command with an argument, in surroundings that supply nothing. -/
def command (t : PacketType) (data : UInt8) : Event := .client t.code data .none

/-- A reload that finds this value of the radio option in the configuration file. -/
def reloadTo (option : String) : Event :=
  .client PacketType.reloadConfig.code 0
    { Env.none with uciContext := true, radioOption := some option }

/-- The run "register, then switch the radio off" leaves a delayed registration
with the radio off. -/
theorem radio_off_while_registering :
    ¬ Throughout step (fun _ w => RegistersOnAir w) (initial ⟨.enabled, by decide⟩)
      [command .registration 0, command .radio 0] := by
  intro h
  have hend : (run step (initial ⟨.enabled, by decide⟩)
      [command .registration 0, command .radio 0]).map
        (fun w => (w.status.regMode, w.status.radio)) = some (.delayedStart, .disabled) := by
    decide
  obtain ⟨w, hw, hstate⟩ := Option.map_eq_some_iff.mp hend
  obtain ⟨hmode, hradio⟩ := Prod.mk.inj hstate
  have hon : w.status.radio = .enabled := h.last hw (by rw [hmode]; decide)
  rw [hradio] at hon
  exact absurd hon (by decide)

/-! ## The manager and the stack agree on the window -/

/-- The moves that can open or close the registration window. -/
def Move.MovesWindow : Move → Prop
  | .registration => True
  | .delayedStart => True
  | .close => True
  | _ => False

/-- The other moves leave the window and the stack's mode alone. -/
theorem Move.apply_window_of_not {m : Move} (hm : ¬ m.MovesWindow) (c : Control) :
    (m.apply c).requested = c.requested ∧ (m.apply c).regMode = c.regMode := by
  cases m with
  | registration => exact absurd trivial hm
  | delayedStart => exact absurd trivial hm
  | close => exact absurd trivial hm
  | radio enable => simp [Move.apply]
  | reload config =>
      simp only [Move.apply, Control.reload]
      split_ifs <;> simp
  | features =>
      simp only [Move.apply]
      split <;> simp
  | enumerated any =>
      simp only [Move.apply, Control.enumerated, Control.showLed_requested,
        Control.showLed_regMode]
      split <;> simp
  | linuxInit => exact ⟨rfl, rfl⟩
  | idle => exact ⟨rfl, rfl⟩

/-- The property of the core: the stack has been asked for registration mode
exactly when the window is open. -/
def Control.Agrees (c : Control) : Prop := c.requested = true ↔ c.regMode = .enabled

/-- The move closes the window, or starts the registration afresh, while the
stack cannot be told because the radio is off. -/
def Move.ClosesUnheard (c : Control) (m : Move) : Prop :=
  c.regMode = .enabled ∧ c.radio = .disabled ∧
    (m = .close ∨ m = .registration ∧ c.config ≠ .disabled)

/-- **One step.**  From agreement, a request to register leads to agreement
unless it starts an open window afresh with the radio off. -/
theorem agrees_registration_iff {c : Control} (hwf : c.Wf) (h : c.Agrees) :
    c.registration.Agrees ↔
      ¬ (c.regMode = .enabled ∧ c.radio = .disabled ∧ c.config ≠ .disabled) := by
  unfold Control.registration
  by_cases hcfg : c.config = .disabled
  · simp [hcfg, h]
  by_cases hradio : c.radio = .disabled
  · -- the delayed start closes the window without a word to the stack
    have hdelayed : ({ c.setRadio true with regMode := .delayedStart } : Control).Agrees ↔
        ¬ c.requested = true := by
      simp [Control.Agrees]
    simp only [hcfg, hradio, if_false, if_true, ne_eq, not_false_eq_true, and_true]
    rw [hdelayed]
    exact not_congr h
  · have hon : c.radio = .enabled := hwf.radio.resolve_left hradio
    by_cases hmode : c.regMode = .enabled
    · simp [hcfg, hradio, hmode, h]
    · simp [hcfg, hmode, Control.openWindow, hon, Control.Agrees]

/-- **One step.**  From agreement, a move leads to agreement again exactly when
it is not an unheard closing. -/
theorem agrees_apply_iff {c : Control} (hwf : c.Wf) (h : c.Agrees) (m : Move) :
    (m.apply c).Agrees ↔ ¬ m.ClosesUnheard c := by
  by_cases hm : m.MovesWindow
  · cases m with
    | registration =>
        refine (agrees_registration_iff hwf h).trans (not_congr ?_)
        simp [Move.ClosesUnheard]
    | delayedStart =>
        refine iff_of_true ?_ (by simp [Move.ClosesUnheard])
        simp only [Move.apply]
        split
        · -- the window is not open yet
          rename_i hmode
          rw [agrees_registration_iff hwf h, hmode]
          simp
        · exact h
    | close =>
        simp only [Control.Agrees, Move.apply, Control.close_regMode, Control.close_requested,
          Move.ClosesUnheard, true_or, and_true]
        rcases hwf.radio with hradio | hradio
        · -- with the radio off the stack keeps the mode it was asked for
          simp only [hradio, reduceCtorEq, if_false, iff_false, and_true]
          exact not_congr h
        · simp [hradio]
    | _ => exact absurd hm id
  · obtain ⟨hreq, hmode⟩ := Move.apply_window_of_not hm c
    refine iff_of_true ?_ ?_
    · unfold Control.Agrees
      rw [hreq, hmode]
      exact h
    · rintro ⟨-, -, rfl | ⟨rfl, -⟩⟩ <;> exact hm trivial

/-- Whenever the window is open the stack has been told so: every move keeps
this. -/
theorem requested_of_open_apply {c : Control} (h : c.regMode = .enabled → c.requested = true)
    (m : Move) : (m.apply c).regMode = .enabled → (m.apply c).requested = true := by
  have hreg : c.registration.regMode = .enabled → c.registration.requested = true := by
    unfold Control.registration Control.openWindow
    split_ifs <;> simp_all
  by_cases hm : m.MovesWindow
  · cases m with
    | registration => exact hreg
    | delayedStart =>
        simp only [Move.apply]
        split
        · exact hreg
        · exact h
    | close =>
        intro hopen
        simp [Move.apply] at hopen
    | _ => exact absurd hm id
  · obtain ⟨hreq, hmode⟩ := Move.apply_window_of_not hm c
    rw [hreq, hmode]
    exact h

/-- The manager and the stack agree on whether the registration window is open. -/
def ViewsAgree (w : World) : Prop := requestedMode w.log = true ↔ w.status.regMode = .enabled

/-- The step closes the window or starts the registration afresh while the radio
is off, so that nothing is written: a stop timer expires, a
`REGISTRATION_COMPLETE` arrives or a registration is requested, with `reg_mode`
at `ENABLED` and the radio off. -/
def ClosesUnheard (w : World) (e : Event) : Prop := (moveOf w e).ClosesUnheard (control w)

/-- **The two views of the registration window.**  Whenever the manager's window
is open the stack has been asked to keep it open; and the two views agree
throughout a run exactly when no step of the run closes the window unheard. -/
theorem registration_views_agree_iff (config : Config) (es : List Event) :
    Throughout step (fun _ w => w.status.regMode = .enabled → requestedMode w.log = true)
        (initial config) es ∧
      (Throughout step (fun _ w => ViewsAgree w) (initial config) es ↔
        Along step (fun _ w e _ => ¬ ClosesUnheard w e) (initial config) es) := by
  constructor
  · refine throughout_of_run (run_induction ?_ ?_) es
    · intro h
      exact absurd h (by simp [initial])
    · intro _ w e w' _ hw he
      have hlaw := requested_of_open_apply (c := control w) hw (moveOf w e)
      rw [← control_step he] at hlaw
      exact hlaw
  · refine throughout_iff_along ?_ ?_ es
    · exact iff_of_false (by simp [initial, requestedMode]) (by simp [initial])
    · intro _ w e w' _ hw he
      have hlaw := agrees_apply_iff (control_wf w) hw (moveOf w e)
      rw [← control_step he] at hlaw
      exact hlaw

/-- The run "register, wait for the delayed start, switch the radio off,
complete the registration" leaves the stack in registration mode. -/
theorem stack_left_in_registration_mode :
    ¬ Throughout step (fun _ w => ViewsAgree w) (initial ⟨.enabled, by decide⟩)
      [command .registration 0, .timeout ⟨.registrationDelayedStart, 1000000, 0⟩,
        command .radio 0, .mail .registrationCompleteInd .none] := by
  intro h
  have hend : (run step (initial ⟨.enabled, by decide⟩)
      [command .registration 0, .timeout ⟨.registrationDelayedStart, 1000000, 0⟩,
        command .radio 0, .mail .registrationCompleteInd .none]).map
        (fun w => (w.status.regMode, requestedMode w.log)) = some (.disabled, true) := by
    decide
  obtain ⟨w, hw, hstate⟩ := Option.map_eq_some_iff.mp hend
  obtain ⟨hmode, hreq⟩ := Prod.mk.inj hstate
  have hopen : w.status.regMode = .enabled := (h.last hw).mp hreq
  rw [hmode] at hopen
  exact absurd hopen (by decide)

end DectManager
