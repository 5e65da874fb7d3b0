/-
# Stop timers and the windows that armed them

`registration` arms a timer that will call `register_handsets_stop` 180 seconds
later.  The timer is never cancelled and the callback does not look at what it
ends, so a window that was completed early leaves a timer behind.

`OwnWindow` is the law that an expiring stop timer changes `reg_mode` only if
the window it was armed for has been open ever since.
`stop_timers_end_own_window` says when it holds: in every run in which no
registration is started while a stop timer is still pending; and as soon as a
registration is started over a pending stop timer, the expiry of that timer
breaks the law.
-/
import DectManager.RegistrationMode
import DectManager.Timers

namespace DectManager

open PartialRun

/-! ## Episodes -/

/-- The event runs `register_handsets_stop`. -/
def StopsRegistration : Event → Prop
  | .mail .registrationCompleteInd _ => True
  | .timeout t => t.callback = .registerHandsetsStop
  | _ => False

/-- No `register_handsets_stop` has run since the timer was armed: the episode in
which it was armed is the current one. -/
def EpisodeCurrent (es : List Event) (t : Timer) : Prop :=
  ∀ e ∈ es.drop (t.armed + 1), ¬ StopsRegistration e

/-- The window has been open in every state since the timer was armed. -/
def OpenSince (config : Config) (es : List Event) (t : Timer) : Prop :=
  ∀ k w, t.armed < k → k ≤ es.length → run step (initial config) (es.take k) = some w →
    w.status.regMode = .enabled

/-- **The law of stop timers**, at a step from `w` to `w'` after the events `es`:
if the step is the expiry of a stop timer and it changes `reg_mode`, then the
episode of the timer is the current one and its window has been open all the
time. -/
def OwnWindow (config : Config) (es : List Event) (w : World) (e : Event) (w' : World) : Prop :=
  ∀ t, e = .timeout t → t.callback = .registerHandsetsStop →
    w'.status.regMode ≠ w.status.regMode → EpisodeCurrent es t ∧ OpenSince config es t

/-- The event makes `registration` act: a client asks for it or a delayed start
is due, the configuration allows the radio, and the window is not open with the
radio on already. -/
def StartsRegistration (w : World) (e : Event) : Prop :=
  (moveOf w e = .registration ∨ moveOf w e = .delayedStart ∧ w.status.regMode = .delayedStart) ∧
    w.config.radio ≠ .disabled ∧ (w.status.radio = .disabled ∨ w.status.regMode ≠ .enabled)

instance (w : World) (e : Event) : Decidable (StartsRegistration w e) :=
  inferInstanceAs (Decidable (_ ∧ _))

/-- No stop timer is pending. -/
def NoStopTimer (w : World) : Prop := ∀ t ∈ w.timers, t.callback ≠ .registerHandsetsStop

instance (w : World) : Decidable (NoStopTimer w) :=
  inferInstanceAs (Decidable (∀ t ∈ w.timers, t.callback ≠ .registerHandsetsStop))

/-! ## One step -/

/-- A step that starts a registration leads to a delayed start or to an open
window. -/
theorem regMode_of_starts {w w' : World} {e : Event} (hs : StartsRegistration w e)
    (h : step w e = some w') :
    w'.status.regMode = if w.status.radio = .disabled then .delayedStart else .enabled := by
  obtain ⟨hmove, hcfg, hact⟩ := hs
  have hreg : control w' = (control w).registration := by
    rw [control_step h]
    rcases hmove with hm | ⟨hm, hmode⟩
    · rw [hm]
      rfl
    · rw [hm]
      exact if_pos hmode
  have hmode := congrArg Control.regMode hreg
  rw [Control.registration_regMode (control_wf w) hcfg hact] at hmode
  exact hmode

/-- A step that starts no registration keeps `reg_mode` or closes the window. -/
theorem regMode_of_not_starts {w w' : World} {e : Event} (hs : ¬ StartsRegistration w e)
    (h : step w e = some w') :
    w'.status.regMode = w.status.regMode ∨ w'.status.regMode = .disabled := by
  have hmode : w'.status.regMode = ((moveOf w e).apply (control w)).regMode :=
    congrArg Control.regMode (control_step h)
  rw [hmode]
  by_cases hm : (moveOf w e).MovesWindow
  · cases hmv : moveOf w e with
    | registration =>
        -- a request that does not act leaves the core as it was
        have hsame : (control w).registration = control w :=
          Control.registration_of_not_act fun hact => hs ⟨.inl hmv, hact⟩
        exact .inl (congrArg Control.regMode hsame)
    | delayedStart =>
        left
        simp only [Move.apply]
        split
        · rename_i hdelayed
          have hsame : (control w).registration = control w :=
            Control.registration_of_not_act fun hact => hs ⟨.inr ⟨hmv, hdelayed⟩, hact⟩
          exact congrArg Control.regMode hsame
        · rfl
    | close => exact .inr (Control.close_regMode _)
    | _ => exact absurd hm (by rw [hmv]; exact id)
  · exact .inl (Move.apply_window_of_not hm _).2

/-- An event that runs `register_handsets_stop` is a closing move. -/
theorem moveOf_of_stops {w : World} {e : Event} (h : StopsRegistration e) :
    moveOf w e = .close := by
  cases e with
  | client type data env => exact absurd h id
  | mail m env =>
      cases m with
      | registrationCompleteInd => rfl
      | _ => exact absurd h id
  | timeout t => exact congrArg timerMove h

/-- The timers of a registration are armed by a registration only. -/
theorem registrationArms_of_mem_armedBy {w : World} {e : Event} {t : Timer}
    (h : t ∈ armedBy w e)
    (ht : t.callback = .registerHandsetsStop ∨ t.callback = .registrationDelayedStart) :
    t ∈ registrationArms w ∧
      (moveOf w e = .registration ∨
        moveOf w e = .delayedStart ∧ w.status.regMode = .delayedStart) := by
  cases e with
  | client type data env =>
      simp only [moveOf, clientMove]
      unfold armedBy at h
      cases htype : PacketType.ofCode type with
      | none => simp [htype] at h
      | some p =>
          cases p <;> simp only [htype, List.not_mem_nil] at h
          case registration => exact ⟨h, .inl rfl⟩
          case button =>
            split at h
            · rename_i hb
              exact ⟨h, .inl (if_pos hb)⟩
            · simp at h
          all_goals
            split at h
            all_goals simp_all
  | mail m env => cases m <;> simp_all [armedBy]
  | timeout t' =>
      unfold armedBy at h
      cases hcb : t'.callback <;> simp only [hcb, expiryArms, List.not_mem_nil] at h
      split at h
      · rename_i hmode
        exact ⟨h, .inr ⟨by simp [moveOf, timerMove, hcb], hmode⟩⟩
      · simp at h

/-- Only a registration that starts with the radio on arms a stop timer. -/
theorem starts_of_mem_armedBy {w : World} {e : Event} {t : Timer} (h : t ∈ armedBy w e)
    (ht : t.callback = .registerHandsetsStop) :
    StartsRegistration w e ∧ w.status.radio ≠ .disabled := by
  obtain ⟨harms, hmove⟩ := registrationArms_of_mem_armedBy h (.inl ht)
  unfold registrationArms at harms
  split_ifs at harms with hcfg hradio hmode
  · simp at harms
  · simp only [List.mem_singleton] at harms
    simp [harms] at ht
  · exact ⟨⟨hmove, hcfg, .inr hmode⟩, hradio⟩
  · simp at harms

/-! ## Runs -/

/-- What holds along the runs that start no registration over a pending stop
timer: a pending stop timer has its window open since, or nothing is going on. -/
def StopTimersInv (config : Config) (es : List Event) (w : World) : Prop :=
  ∀ t ∈ w.timers, t.callback = .registerHandsetsStop →
    w.status.regMode = .disabled ∨ OpenSince config es t

/-- A window that stays open for one more event has been open since. -/
theorem OpenSince.concat {config : Config} {es : List Event} {t : Timer} {e : Event} {w' : World}
    (h : OpenSince config es t) (hrun : run step (initial config) (es ++ [e]) = some w')
    (hopen : w'.status.regMode = .enabled) : OpenSince config (es ++ [e]) t := by
  intro k w hk hle hw
  rcases Nat.lt_or_ge es.length k with hlt | hge
  · have hk' : k = (es ++ [e]).length := by
      simp only [List.length_append, List.length_singleton] at hle ⊢
      omega
    rw [hk', List.take_length, hrun] at hw
    obtain rfl : w' = w := by simpa using hw
    exact hopen
  · rw [List.take_append_of_le_length hge] at hw
    exact h k w hk hge hw

/-- A window that has been open since its timer was armed is open. -/
theorem OpenSince.regMode {config : Config} {es : List Event} {t : Timer} {w : World}
    (h : OpenSince config es t) (hrun : run step (initial config) es = some w)
    (ht : t ∈ w.timers) : w.status.regMode = .enabled := by
  have harmed := armed_lt_clock config es w hrun t ht
  rw [clock_eq_length config es w hrun] at harmed
  exact h es.length w harmed le_rfl (by rw [List.take_length]; exact hrun)

/-- An open window has seen no `register_handsets_stop`. -/
theorem OpenSince.episodeCurrent {config : Config} {es : List Event} {t : Timer} {w : World}
    (h : OpenSince config es t) (hrun : run step (initial config) es = some w) :
    EpisodeCurrent es t := by
  intro e he hstop
  obtain ⟨mid, post, hdrop⟩ := List.append_of_mem he
  have hes : es = (es.take (t.armed + 1) ++ mid) ++ e :: post := by
    rw [List.append_assoc, ← hdrop, List.take_append_drop]
  have hlen : t.armed + 1 ≤ es.length := by
    by_contra hlt
    rw [List.drop_of_length_le (by omega)] at he
    simp at he
  generalize hpre : es.take (t.armed + 1) ++ mid = pre at hes
  have hprelen : t.armed + 1 ≤ pre.length := by
    rw [← hpre, List.length_append, List.length_take]
    omega
  rw [hes] at hrun
  obtain ⟨v, v', hv, hstep, -⟩ := run_split step hrun
  -- the state right after the stop has the window closed
  have hclosed : v'.status.regMode = .disabled := by
    have hmode := congrArg Control.regMode (control_step hstep)
    rw [moveOf_of_stops hstop] at hmode
    exact hmode.trans (Control.close_regMode _)
  have hopen : v'.status.regMode = .enabled := by
    refine h (pre.length + 1) v' (by omega) ?_ ?_
    · rw [hes, List.length_append, List.length_cons]
      omega
    · have htake : es.take (pre.length + 1) = pre ++ [e] := by
        rw [hes, List.take_length_add_append]
        rfl
      rw [htake]
      exact (run_concat_eq_some step).mpr ⟨v, hv, hstep⟩
  rw [hclosed] at hopen
  exact absurd hopen (by decide)

/-- **One step.**  A step that starts no registration over a pending stop timer
keeps the invariant. -/
theorem stopTimersInv_step {config : Config} {es : List Event} {w w' : World} {e : Event}
    (hrun : run step (initial config) es = some w) (hinv : StopTimersInv config es w)
    (h : step w e = some w') (hC : StartsRegistration w e → NoStopTimer w) :
    StopTimersInv config (es ++ [e]) w' := by
  intro t ht hcb
  have hrun' : run step (initial config) (es ++ [e]) = some w' :=
    (run_concat_eq_some step).mpr ⟨w, hrun, h⟩
  rw [(timers_step h).1, List.mem_append] at ht
  rcases ht with ht | ht
  · -- the timer is armed in this step, which opens the window
    right
    obtain ⟨hstarts, hradio⟩ := starts_of_mem_armedBy ht hcb
    have hopen : w'.status.regMode = .enabled := by
      rw [regMode_of_starts hstarts h, if_neg hradio]
    intro k v hk hle hv
    rw [armed_of_mem_armedBy ht, clock_eq_length config es w hrun] at hk
    have hk' : k = (es ++ [e]).length := by
      simp only [List.length_append, List.length_singleton] at hle ⊢
      omega
    rw [hk', List.take_length, hrun'] at hv
    obtain rfl : w' = v := by simpa using hv
    exact hopen
  · -- the timer was pending, so this step starts no registration
    have htw := mem_of_mem_leftPending ht
    have hnot : ¬ StartsRegistration w e := fun hs => hC hs t htw hcb
    rcases regMode_of_not_starts hnot h with hsame | hclosed
    · rcases hinv t htw hcb with hdis | hopen
      · left
        rw [hsame, hdis]
      · right
        refine hopen.concat hrun' ?_
        rw [hsame]
        exact hopen.regMode hrun htw
    · exact .inl hclosed

/-- The expiry of a stop timer closes the window. -/
theorem regMode_of_expiry {w w' : World} {t : Timer} (hcb : t.callback = .registerHandsetsStop)
    (h : step w (.timeout t) = some w') : t ∈ w.timers ∧ w'.status.regMode = .disabled := by
  constructor
  · exact mem_timers_of_fires h
  · have hmode := congrArg Control.regMode (control_step h)
    rw [moveOf_of_stops (show StopsRegistration (.timeout t) from hcb)] at hmode
    exact hmode.trans (Control.close_regMode _)

/-- A stop timer that is pending when a registration starts stays pending. -/
theorem mem_timers_of_starts {w w' : World} {e : Event} {t : Timer} (hs : StartsRegistration w e)
    (h : step w e = some w') (ht : t ∈ w.timers) (hcb : t.callback = .registerHandsetsStop) :
    t ∈ w'.timers := by
  rw [(timers_step h).1, List.mem_append]
  right
  cases e with
  | timeout t' =>
      refine (List.mem_erase_of_ne ?_).mpr ht
      rintro rfl
      have hclose := moveOf_of_stops (w := w) (show StopsRegistration (.timeout t) from hcb)
      rcases hs.1 with hm | ⟨hm, -⟩ <;> rw [hclose] at hm <;> cases hm
  | _ => exact ht

/-- A registration that starts over a pending stop timer ends its window: this
timer's window has not been open ever since. -/
theorem not_openSince_of_starts {config : Config} {es : List Event} {w w' : World} {e : Event}
    {t : Timer} (hrun : run step (initial config) es = some w) (h : step w e = some w')
    (hs : StartsRegistration w e) (ht : t ∈ w.timers) :
    ¬ OpenSince config (es ++ [e]) t := by
  intro hopen
  have harmed : t.armed < es.length := by
    rw [← clock_eq_length config es w hrun]
    exact armed_lt_clock config es w hrun t ht
  have hbefore : w.status.regMode = .enabled := by
    refine hopen es.length w harmed ?_ ?_
    · rw [List.length_append]
      omega
    · rw [List.take_left]
      exact hrun
  have hafter : w'.status.regMode = .enabled := by
    refine hopen (es ++ [e]).length w' ?_ le_rfl ?_
    · rw [List.length_append]
      omega
    · rw [List.take_length]
      exact (run_concat_eq_some step).mpr ⟨w, hrun, h⟩
  have hradio : w.status.radio = .disabled := hs.2.2.resolve_right (not_not_intro hbefore)
  rw [regMode_of_starts hs h, if_pos hradio] at hafter
  exact absurd hafter (by decide)

/-- **Stop timers end only their own window** in every run in which no
registration is started while a stop timer is pending.  And such a start is
exactly what goes wrong: once a registration is started over a pending stop
timer, the expiry of this timer breaks the law. -/
theorem stop_timers_end_own_window (config : Config) :
    (∀ es, Along step (fun _ w e _ => StartsRegistration w e → NoStopTimer w) (initial config) es →
        Along step (OwnWindow config) (initial config) es) ∧
      ∀ es w e w' t, run step (initial config) es = some w → step w e = some w' →
        StartsRegistration w e → t ∈ w.timers → t.callback = .registerHandsetsStop →
        ¬ Along step (OwnWindow config) (initial config) (es ++ [e, .timeout t]) := by
  constructor
  · intro es hC pre e post w w' hes hrun h t het hcb hchange
    subst het
    have hpre : Along step (fun _ w e _ => StartsRegistration w e → NoStopTimer w)
        (initial config) pre := by
      rw [hes] at hC
      exact hC.of_append
    have hinv : StopTimersInv config pre w :=
      run_induction_along (C := fun _ w e _ => StartsRegistration w e → NoStopTimer w)
        (P := StopTimersInv config) (by intro t ht; simp [initial] at ht)
        (fun _ _ _ _ hrun hP he hC => stopTimersInv_step hrun hP he hC) pre w hpre hrun
    obtain ⟨hmem, hclosed⟩ := regMode_of_expiry hcb h
    rcases hinv t hmem hcb with hdis | hopen
    · exact absurd (hclosed.trans hdis.symm) hchange
    · exact ⟨hopen.episodeCurrent hrun, hopen⟩
  · intro es w e w' t hrun h hs ht hcb hlaw
    have hmem : t ∈ w'.timers := mem_timers_of_starts hs h ht hcb
    obtain ⟨w'', hfire⟩ : ∃ w'', step w' (.timeout t) = some w'' := ⟨_, if_pos hmem⟩
    have hown := hlaw (es ++ [e]) (.timeout t) [] w' w'' (by simp)
      ((run_concat_eq_some step).mpr ⟨w, hrun, h⟩) hfire t rfl hcb
    refine not_openSince_of_starts hrun h hs ht (hown ?_).2
    rw [(regMode_of_expiry hcb hfire).2, regMode_of_starts hs h]
    split <;> decide

/-- Two windows, each closed by its own timer. -/
theorem two_windows_end_by_own_timers :
    Along step (OwnWindow ⟨.enabled, by decide⟩) (initial ⟨.enabled, by decide⟩)
      [command .registration 0, .timeout ⟨.registrationDelayedStart, 1000000, 0⟩,
        .timeout ⟨.registerHandsetsStop, 180000000, 1⟩, command .registration 0,
        .timeout ⟨.registerHandsetsStop, 180000000, 3⟩] := by
  refine (stop_timers_end_own_window _).1 _ ?_
  -- the first two and the fourth event find no stop timer, the others start nothing
  refine .cons rfl (fun _ => ?_) <| .cons rfl (fun _ => ?_) <| .cons rfl (fun hs => ?_) <|
    .cons rfl (fun _ => ?_) <| .cons rfl (fun hs => ?_) <| along_nil _ _
  · decide
  · decide
  · revert hs
    decide
  · decide
  · revert hs
    decide

/-- The run "register, let the delayed start open the window, complete the
registration, register again": the timer of the first window then closes the
second one. -/
theorem old_stop_timer_closes_new_window :
    ¬ Along step (OwnWindow ⟨.enabled, by decide⟩) (initial ⟨.enabled, by decide⟩)
      [command .registration 0, .timeout ⟨.registrationDelayedStart, 1000000, 0⟩,
        .mail .registrationCompleteInd .none, command .registration 0,
        .timeout ⟨.registerHandsetsStop, 180000000, 1⟩] := by
  intro h
  have hend : (run step (initial ⟨.enabled, by decide⟩)
      [command .registration 0, .timeout ⟨.registrationDelayedStart, 1000000, 0⟩,
        .mail .registrationCompleteInd .none, command .registration 0]).map
        (fun w => (w.status.regMode,
          (step w (.timeout ⟨.registerHandsetsStop, 180000000, 1⟩)).map
            fun w' => w'.status.regMode)) = some (.enabled, some .disabled) := by
    decide
  obtain ⟨w, hw, hstate⟩ := Option.map_eq_some_iff.mp hend
  obtain ⟨hopen, hfire⟩ := Prod.mk.inj hstate
  obtain ⟨w', hw', hclosed⟩ := Option.map_eq_some_iff.mp hfire
  have hown := h _ _ [] w w' rfl hw hw' ⟨.registerHandsetsStop, 180000000, 1⟩ rfl rfl
    (by rw [hopen, hclosed]; decide)
  -- the completion came after the timer was armed
  exact hown.1 (.mail .registrationCompleteInd .none) (by simp) trivial

end DectManager
