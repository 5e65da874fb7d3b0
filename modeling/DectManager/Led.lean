/-
# The LED

The manager displays the radio and the registration mode on an LED.
`control_led` is called by hand after a write to one of them, so the LED can be
left behind when a handler writes once more after the call.

* `ledShows_apply_iff`: the one move that leaves the LED behind is a
  registration that is requested while the window is open and the radio off.
  It switches the radio on, which lights the LED for the open window, and then
  takes the window back for a delayed start.
* `led_shows_state_iff`: the LED shows the state throughout a run exactly when
  no step of the run is such a request.
-/
import DectManager.RegistrationMode

namespace DectManager

open PartialRun

/-- The LED of the core shows its state, if it has been set at all. -/
def Control.LedShows (c : Control) : Prop := ∀ a, c.led = some a → a = ledAction c.radio c.regMode

/-- A registration is requested, and granted, while the window is open and the
radio off. -/
def Move.RestartsWindow (c : Control) (m : Move) : Prop :=
  m = .registration ∧ c.config ≠ .disabled ∧ c.radio = .disabled ∧ c.regMode = .enabled

namespace Control

/-- After `control_led` the LED shows the state. -/
theorem ledShows_showLed (c : Control) : c.showLed.LedShows := by
  intro a ha
  exact (Option.some.inj ha).symm

/-- Switching the radio sets the LED. -/
theorem LedShows.setRadio {c : Control} (h : c.LedShows) (enable : Bool) :
    (c.setRadio enable).LedShows := by
  unfold Control.setRadio
  split_ifs
  · exact ledShows_showLed _
  · exact ledShows_showLed _
  · exact h

/-- So do the opening and the closing of the window, which tell the stack too. -/
theorem LedShows.openWindow {c : Control} (h : c.LedShows) : c.openWindow.LedShows := by
  unfold Control.openWindow
  split_ifs
  · exact ledShows_showLed { c with regMode := .enabled }
  · exact h

theorem ledShows_close (c : Control) : c.close.LedShows := by
  unfold Control.close
  split_ifs <;> exact ledShows_showLed { c with regMode := .disabled }

/-- **One registration.**  A delayed start is not displayed, and looks like a
closed window. -/
theorem ledShows_registration_iff {c : Control} (h : c.LedShows) :
    c.registration.LedShows ↔
      ¬ (c.config ≠ .disabled ∧ c.radio = .disabled ∧ c.regMode = .enabled) := by
  unfold Control.registration
  by_cases hcfg : c.config = .disabled
  · rw [if_pos hcfg]
    exact iff_of_true h fun hbad => hbad.1 hcfg
  by_cases hradio : c.radio = .disabled
  · -- the LED was set before the window was taken back
    have hled : (c.setRadio true).led = some (ledAction .enabled c.regMode) := by
      simp [Control.setRadio, hradio, showLed]
    have hon : (c.setRadio true).radio = .enabled := by
      simp [Control.setRadio, hradio]
    rw [if_neg hcfg, if_pos hradio]
    simp only [hcfg, hradio, ne_eq, not_false_eq_true, true_and, LedShows, hled, hon,
      Option.some.injEq, forall_eq']
    by_cases hmode : c.regMode = .enabled <;> simp [ledAction, hmode]
  · rw [if_neg hcfg, if_neg hradio]
    refine iff_of_true ?_ fun hbad => hradio hbad.2.1
    split_ifs
    · exact h.openWindow
    · exact h

end Control

/-- **One step.**  From a core whose LED shows its state, a move leads to such a
core again exactly when it does not restart an open window. -/
theorem ledShows_apply_iff {c : Control} (h : c.LedShows) (m : Move) :
    (m.apply c).LedShows ↔ ¬ m.RestartsWindow c := by
  cases m with
  | registration =>
      refine (Control.ledShows_registration_iff h).trans (not_congr ?_)
      simp [Move.RestartsWindow]
  | delayedStart =>
      refine iff_of_true ?_ fun hbad => by cases hbad.1
      simp only [Move.apply]
      split_ifs with hmode
      · -- the window is not open yet
        rw [Control.ledShows_registration_iff h, hmode]
        simp
      · exact h
  | radio enable => exact iff_of_true (h.setRadio enable) fun hbad => by cases hbad.1
  | reload config =>
      refine iff_of_true ?_ fun hbad => by cases hbad.1
      have hload : Control.LedShows { c with config := config.radio } := h
      simp only [Move.apply, Control.reload]
      split_ifs
      · exact hload.setRadio true
      · exact hload
      · exact hload.setRadio false
  | close => exact iff_of_true (Control.ledShows_close c) fun hbad => by cases hbad.1
  | features =>
      refine iff_of_true ?_ fun hbad => by cases hbad.1
      simp only [Move.apply]
      split_ifs
      · exact h.setRadio true
      · exact h
  | enumerated any =>
      exact iff_of_true (Control.ledShows_showLed _) fun hbad => by cases hbad.1
  | linuxInit => exact iff_of_true h fun hbad => by cases hbad.1
  | idle => exact iff_of_true h fun hbad => by cases hbad.1

/-- The LED action issued last, if there was one, is `LED_OFF` with the radio off,
`LED_BLINK` with the radio on and the window open, and `LED_ON` otherwise. -/
def LedShows (w : World) : Prop :=
  ∀ a, lastLed w.log = some a → a = ledAction w.status.radio w.status.regMode

/-- The step is a request to register, by command or by button, that is granted
although `reg_mode` is `ENABLED`, since the radio is off. -/
def RestartsWindow (w : World) (e : Event) : Prop := (moveOf w e).RestartsWindow (control w)

/-- **The LED shows the state throughout a run exactly when no step of the run
asks for registration while the window is open and the radio off.** -/
theorem led_shows_state_iff (config : Config) (es : List Event) :
    Throughout step (fun _ w => LedShows w) (initial config) es ↔
      Along step (fun _ w e _ => ¬ RestartsWindow w e) (initial config) es := by
  refine throughout_iff_along ?_ ?_ es
  · intro a ha
    cases ha
  · intro _ w e w' _ hw he
    have hlaw := ledShows_apply_iff (c := control w) hw (moveOf w e)
    rw [← control_step he] at hlaw
    exact hlaw

/-- The run "register, wait for the delayed start, switch the radio off, register
again" leaves the LED blinking with the window not open. -/
theorem led_blinks_for_delayed_start :
    ¬ Throughout step (fun _ w => LedShows w) (initial ⟨.enabled, by decide⟩)
      [command .registration 0, .timeout ⟨.registrationDelayedStart, 1000000, 0⟩,
        command .radio 0, command .registration 0] := by
  intro h
  have hend : (run step (initial ⟨.enabled, by decide⟩)
      [command .registration 0, .timeout ⟨.registrationDelayedStart, 1000000, 0⟩,
        command .radio 0, command .registration 0]).map
        (fun w => (lastLed w.log, w.status.radio, w.status.regMode)) =
          some (some .ledBlink, .enabled, .delayedStart) := by
    decide
  obtain ⟨w, hw, hstate⟩ := Option.map_eq_some_iff.mp hend
  obtain ⟨hled, hrest⟩ := Prod.mk.inj hstate
  obtain ⟨hradio, hmode⟩ := Prod.mk.inj hrest
  have hshown := h.last hw .ledBlink hled
  rw [hradio, hmode] at hshown
  exact absurd hshown (by decide)

end DectManager
