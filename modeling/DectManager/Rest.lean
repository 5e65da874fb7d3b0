/-
# The manager comes to rest

A confirmation makes the manager write the next request, a request brings the
next confirmation, and a timer that fires can arm the next one.  `Expected` are
the events that need nobody to ask for anything new: the expiries of the pending
timers and the confirmations of the requests that have been written, of each
kind that the manager has a confirmation for (`Correspondence.lean`).

* `rank` weighs what is outstanding: a request by the requests and timers that
  can still follow it, a timer by what its expiry can bring.  A delayed start that finds
  the radio off arms itself again, but has switched the radio on; so a radio that
  is off counts as well.
* `lowers_rank`: every expected event lowers the rank.
* `comes_to_rest`: so from every reachable state the expected events end, in
  whatever order they come, and only when nothing is outstanding; then no
  registration window is open and no handset rings.
* `auto_mode_comes_to_rest`: in auto mode, where the stack is cooperative, the
  radio is then on exactly when a handset is registered.
-/
import DectManager.AutoMode
import DectManager.Correspondence
import DectManager.PingTimers
import DectManager.RadioLaws
import DectManager.Ranking

namespace DectManager

open PartialRun

/-! ## What is outstanding -/

/-- The event is the expiry of a timer or the confirmation of a request that waits for one. -/
def Expected (s : Dialogue) (e : Event) : Prop :=
  (∃ t, e = .timeout t) ∨ ∃ r ∈ s.unanswered, e.confirms r = true

/-- Nothing is outstanding: no request waits for its confirmation and no timer is pending. -/
def AtRest (s : Dialogue) : Prop := s.unanswered = [] ∧ s.world.timers = []

/-- How many expected events a request can bring, itself included: the ids of the table
are asked for in ascending order. -/
def Request.weight : Request → ℕ
  | .getHandsetIpuiReq handset => maxNrHandsets + 2 - handset + 2
  | .getRegistrationCountReq _ => 24
  | .featuresReq _ => 25
  | .setRegistrationModeReq _ _ => 26
  | .deleteRegistrationReq _ => 27
  | .linuxInitReq _ _ => 27
  | .setupReq .. => 1
  | .releaseReq .. => 1
  | .uleInitReq _ => 1
  | .uleDataReq .. => 1
  | _ => 0

/-- How many expected events a timer can bring, itself included. -/
def Timer.weight (t : Timer) : ℕ :=
  match t.callback with
  | .initCfm => 26
  | .registerHandsetsStop => 27
  | .registrationDelayedStart => 54
  | .pingHandsetStop _ => 2

/-- A delayed start that finds the radio off is repeated once. -/
def RegState.weight (radio : RegState) : ℕ := if radio = .disabled then 1 else 0

/-- The weight of what is outstanding. -/
def rank (s : Dialogue) : ℕ :=
  load Request.weight s.unanswered + load Timer.weight s.world.timers +
    s.world.status.radio.weight

theorem Request.weight_le (m : Request) : m.weight ≤ 54 := by
  unfold Request.weight maxNrHandsets
  split <;> omega

theorem Timer.weight_le (t : Timer) : t.weight ≤ 54 := by
  unfold Timer.weight
  split <;> omega

theorem RegState.weight_le (radio : RegState) : radio.weight ≤ 1 := by
  unfold RegState.weight
  split <;> omega

theorem rank_le (s : Dialogue) :
    rank s ≤ 54 * (s.unanswered.length + s.world.timers.length) + 1 := by
  have hrequests := load_le fun m (_ : m ∈ s.unanswered) => m.weight_le
  have htimers := load_le fun t (_ : t ∈ s.world.timers) => t.weight_le
  have hradio := s.world.status.radio.weight_le
  unfold rank
  omega

/-! ## What an expected event brings -/

section Step

variable {w w' : World}

/-- The radio after a step. -/
theorem radio_step {e : Event} (h : step w e = some w') :
    w'.status.radio = (moveOf w e).radioAfter (control w) := by
  rw [← Move.apply_radio (control_wf w), ← control_step h]
  rfl

/-- The requests that wait weigh as much as all that have been written. -/
theorem load_isConfirmed (rs : List Request) :
    load Request.weight (rs.filter Request.isConfirmed) = load Request.weight rs := by
  refine load_filter fun r _ hr => ?_
  cases r <;> first | rfl | exact absurd rfl hr

/-- Nobody confirms that the protocol starts or stops. -/
@[simp] theorem load_radioWrites (enable : Bool) (w : World) :
    load Request.weight (radioWrites enable w) = 0 := by
  unfold radioWrites
  split_ifs <;> rfl

@[simp] theorem load_enumerationWrites (t : HandsetTable) (w : World) :
    load Request.weight (enumerationWrites t w) = 0 := by
  unfold enumerationWrites
  split_ifs
  · exact load_radioWrites _ w
  · rfl

/-- The end of a registration brings one confirmation and a refresh. -/
theorem load_stopWrites_le (w : World) : load Request.weight (stopWrites w) ≤ 26 := by
  unfold stopWrites
  split_ifs <;> simp [Request.weight]

/-- A count confirmation brings at most the request for the first IPUI. -/
theorem load_countWrites (m : RegistrationCountCfm) (w : World) :
    load Request.weight (countWrites m w) =
      if m.status = .success ∧ (markRegistered m.ids w.status.handset).2 = true ∧
          m.terminalId 0 > 0 then (Request.getHandsetIpuiReq (m.terminalId 0)).weight
      else 0 := by
  rw [countWrites]
  by_cases hok : m.status = .success ∧ (markRegistered m.ids w.status.handset).2 = true
  · by_cases hpos : m.terminalId 0 > 0
    · rw [if_pos hok, if_pos hpos, if_pos ⟨hok.1, hok.2, hpos⟩]
      rfl
    · rw [if_pos hok, if_neg hpos, if_neg fun hfirst => hpos hfirst.2.2]
      exact load_enumerationWrites _ w
  · rw [if_neg hok, if_neg fun hfirst => hok ⟨hfirst.1, hfirst.2.1⟩]
    rfl

/-- An IPUI confirmation brings at most the request for the next one. -/
theorem load_ipuiWrites (env : Env) (handset : ℕ) (w : World) :
    load Request.weight (ipuiWrites env handset w) =
      if badHandsetnr handset = false ∧
          (w.status.handset.read env.beyond handset).registered = true8 then
        (Request.getHandsetIpuiReq (handset + 1)).weight
      else 0 := by
  rw [ipuiWrites]
  cases badHandsetnr handset with
  | true => rfl
  | false =>
      simp only [Bool.false_eq_true, if_false, true_and]
      split
      · rfl
      · exact load_enumerationWrites _ w

/-- A mail that is no move of the core leaves the radio alone. -/
theorem radio_step_idle {e : Event} (h : step w e = some w') (hidle : moveOf w e = .idle) :
    w'.status.radio = w.status.radio := by
  rw [radio_step h, hidle]
  rfl

/-- **A confirmation pays for what it brings**: the next request of the chain, a refresh, the
timer of a refresh, or a radio that is switched off. -/
theorem confirmation_pays {m : Mail} {env : Env} {r : Request} (h : step w (.mail m env) = some w')
    (hr : r.confirmedBy m = true) :
    load Request.weight (writes w (.mail m env)) + load Timer.weight (armedBy w (.mail m env)) +
        w'.status.radio.weight < r.weight + w.status.radio.weight := by
  have hnew := w'.status.radio.weight_le
  -- one case for each confirmation, with the request that it answers
  cases r with
  | featuresReq feature =>
      cases m with
      | featuresCfm =>
          have hstays : w'.status.radio.weight ≤ w.status.radio.weight := by
            rw [radio_step h]
            show (if w.config.radio = .enabled then RegState.enabled else w.status.radio).weight ≤ _
            split
            · exact Nat.zero_le _
            · exact le_rfl
          have hwrites : load Request.weight (writes w (.mail .featuresCfm env)) = 24 := by
            simp only [writes, load_cons, apply_ite (load Request.weight), load_radioWrites,
              load_nil, ite_self]
            rfl
          rw [hwrites]
          show 24 + 0 + _ < 25 + _
          omega
      | _ => exact absurd hr Bool.false_ne_true
  | getRegistrationCountReq start =>
      cases m with
      | getRegistrationCountCfm c =>
          show load Request.weight (countWrites c w) + 0 + _ < 24 + _
          rw [load_countWrites]
          split
          · -- the first IPUI request; the enumeration goes on
            rename_i hfirst
            rw [radio_step_idle h (if_neg fun hzero => hfirst.2.2.ne' hzero.2.2)]
            simp only [Request.weight, maxNrHandsets]
            omega
          · omega
      | _ => exact absurd hr Bool.false_ne_true
  | getHandsetIpuiReq terminalId =>
      cases m with
      | getHandsetIpuiCfm handset ipui =>
          obtain rfl : handset = terminalId := by simpa [Request.confirmedBy] using hr
          show load Request.weight (ipuiWrites env handset w) + 0 + _ <
            maxNrHandsets + 2 - handset + 2 + _
          rw [load_ipuiWrites]
          split
          · -- the next IPUI request; the enumeration goes on
            rename_i hnext
            have hgood := badHandsetnr_eq_false_iff.mp hnext.1
            rw [radio_step_idle h (if_neg fun hlast => hlast.2 hnext.2)]
            simp only [Request.weight, maxNrHandsets] at hgood ⊢
            omega
          · omega
      | _ => exact absurd hr Bool.false_ne_true
  | setRegistrationModeReq enabled delete =>
      cases m with
      | setRegistrationModeCfm =>
          rw [radio_step_idle h rfl]
          have hwrites :
              load Request.weight (writes w (.mail .setRegistrationModeCfm env)) ≤ 25 := by
            simp only [writes]
            split_ifs
            · exact le_rfl
            · exact Nat.zero_le _
          show _ + 0 + _ < 26 + _
          omega
      | _ => exact absurd hr Bool.false_ne_true
  | deleteRegistrationReq terminalId =>
      cases m with
      | deleteRegistrationCfm handset =>
          -- a refresh is scheduled
          rw [radio_step_idle h rfl]
          show 0 + 26 + _ < 27 + _
          omega
      | _ => exact absurd hr Bool.false_ne_true
  | linuxInitReq length data =>
      cases m with
      | linuxInitCfm =>
          have hsame : w'.status.radio = w.status.radio := radio_step h
          rw [hsame]
          show 1 + 25 + 0 + _ < 27 + _
          omega
      | _ => exact absurd hr Bool.false_ne_true
  | setupReq | releaseReq | uleInitReq | uleDataReq =>
      -- a confirmation of these is noted or printed
      have hquiet : writes w (.mail m env) = [] ∧ armedBy w (.mail m env) = [] ∧
          moveOf w (.mail m env) = .idle := by
        cases m <;> first | exact ⟨rfl, rfl, rfl⟩ | exact absurd hr Bool.false_ne_true
      rw [hquiet.1, hquiet.2.1, radio_step_idle h hquiet.2.2]
      show 0 + 0 + _ < 1 + _
      omega
  | _ =>
      have hkind := (Request.isConfirmed_iff _).mpr ⟨m, hr⟩
      exact absurd hkind Bool.false_ne_true

/-- The end of a ping brings the confirmation that the call is released. -/
theorem load_pingStopWrites_le (handset : ℕ) (w : World) :
    load Request.weight (pingStopWrites handset w) ≤ 1 := by
  unfold pingStopWrites
  split_ifs <;> simp [Request.weight]

/-- **A timer pays for what its expiry brings**: a refresh, a registration mode, the end
of a window or of a ping, or the delayed start once more. -/
theorem expiry_pays {t : Timer} (h : step w (.timeout t) = some w') :
    load Request.weight (writes w (.timeout t)) + load Timer.weight (armedBy w (.timeout t)) +
      w'.status.radio.weight < t.weight + w.status.radio.weight := by
  have hradio := radio_step h
  obtain ⟨callback, usec, armed⟩ := t
  cases callback with
  | initCfm =>
      have hsame : w'.status.radio = w.status.radio := hradio
      rw [hsame]
      show 25 + 0 + 0 + _ < 26 + _
      omega
  | registerHandsetsStop =>
      have hsame : w'.status.radio = w.status.radio := hradio
      have hstop := load_stopWrites_le w
      rw [hsame]
      show load Request.weight (stopWrites w) + 0 + _ < 27 + _
      omega
  | pingHandsetStop handset =>
      have hsame : w'.status.radio = w.status.radio := hradio
      have hstop := load_pingStopWrites_le handset w
      rw [hsame]
      show load Request.weight (pingStopWrites handset w) + 0 + _ < 2 + _
      omega
  | registrationDelayedStart =>
      have hafter : w'.status.radio =
          if w.status.regMode = .delayedStart ∧ w.config.radio ≠ .disabled then .enabled
          else w.status.radio := hradio
      simp only [writes, armedBy, expiryArms, Timer.weight]
      by_cases hmode : w.status.regMode = .delayedStart
      swap
      · rw [if_neg hmode, if_neg hmode, hafter, if_neg fun hact => hmode hact.1]
        simp only [load_nil]
        omega
      rw [if_pos hmode, if_pos hmode, hafter]
      by_cases hcfg : w.config.radio = .disabled
      · rw [if_neg fun hact => hact.2 hcfg]
        simp only [registrationWrites, registrationArms, hcfg, if_true, load_nil]
        omega
      rw [if_pos ⟨hmode, hcfg⟩]
      by_cases hoff : w.status.radio = .disabled
      · -- once more, but with the radio on
        simp only [registrationWrites, registrationArms, hcfg, hoff, if_false, if_true, load_cons,
          load_nil, Request.weight, Timer.weight, RegState.weight, reduceCtorEq]
        omega
      · have hopen : w.status.regMode ≠ .enabled := by
          rw [hmode]
          decide
        simp only [registrationWrites, registrationArms, hcfg, hoff, hopen, ne_eq,
          not_false_eq_true, if_false, if_true, load_cons, load_nil, Timer.weight,
          RegState.weight, Request.weight, reduceCtorEq]
        omega

end Step

/-- An expected mail confirms a request that waits. -/
theorem Expected.exists_request {s : Dialogue} {m : Mail} {env : Env}
    (h : Expected s (.mail m env)) : ∃ r ∈ s.unanswered, r.confirmedBy m = true := by
  rcases h with ⟨t, ht⟩ | hr
  · cases ht
  · exact hr

/-- Commands are not expected. -/
theorem not_expected_client {s : Dialogue} {type : UInt32} {data : UInt8} {env : Env} :
    ¬ Expected s (.client type data env) := by
  rintro (⟨t, ht⟩ | ⟨r, -, hr⟩)
  · cases ht
  · exact absurd hr Bool.false_ne_true

/-- **The rank falls** with every expected event. -/
theorem lowers_rank : Lowers correspond Expected rank := by
  intro s e s' hexp h
  obtain ⟨hstep, hun⟩ := correspond_eq_some_iff.mp h
  have htimers := (timers_step hstep).1
  unfold rank
  rw [hun, htimers, load_append, load_append, load_isConfirmed]
  cases e with
  | client type data env => exact absurd hexp not_expected_client
  | mail m env =>
      obtain ⟨r, -, hr, hload⟩ := load_eraseP Request.weight hexp.exists_request
      have hpays := confirmation_pays hstep hr
      show load Request.weight (writes s.world (.mail m env)) +
        load Request.weight (s.unanswered.eraseP fun r => r.confirmedBy m) +
        (_ + load Timer.weight s.world.timers) + _ < _
      omega
  | timeout t =>
      have hkeep : s.unanswered.eraseP (Event.confirms (.timeout t)) = s.unanswered :=
        List.eraseP_of_forall_not fun r _ => Bool.false_ne_true
      have hload := load_erase Timer.weight (mem_timers_of_fires hstep)
      have hpays := expiry_pays hstep
      rw [hkeep]
      show _ + (_ + load Timer.weight (s.world.timers.erase t)) + _ < _
      omega

/-! ## Rest -/

/-- The requests that wait for an answer are of the kinds that the stack confirms. -/
def Answerable (s : Dialogue) : Prop := ∀ r ∈ s.unanswered, r.isConfirmed = true

theorem answerable_step {s s' : Dialogue} {e : Event} (hs : Answerable s)
    (h : correspond s e = some s') : Answerable s' := by
  intro r hr
  rw [(correspond_eq_some_iff.mp h).2, List.mem_append] at hr
  rcases hr with hr | hr
  · exact (List.mem_filter.mp hr).2
  · exact hs r (List.mem_of_mem_eraseP hr)

/-- A request that waits has a confirmation that suits a cooperative stack. -/
theorem exists_confirmation {s : Dialogue} {r : Request} (hr : r ∈ s.unanswered)
    (hkind : r.isConfirmed = true) :
    ∃ m, r.confirmedBy m = true ∧ Cooperative s (.mail m .none) := by
  cases r with
  | getRegistrationCountReq start =>
      exact ⟨.getRegistrationCountCfm ⟨.success, 0, 0, fun _ => 0⟩, rfl, rfl,
        fun id hid => absurd hid List.not_mem_nil, fun _ => rfl⟩
  | getHandsetIpuiReq handset =>
      exact ⟨.getHandsetIpuiCfm handset fun _ => 0, beq_self_eq_true handset, hr⟩
  | _ =>
      obtain ⟨m, hm⟩ := (Request.isConfirmed_iff _).mp hkind
      refine ⟨m, hm, ?_⟩
      cases m <;> first | exact trivial | exact absurd hm Bool.false_ne_true

/-- What is outstanding can come about, in a way that suits a cooperative stack. -/
theorem exists_expected {s : Dialogue} (hs : Answerable s) (h : ¬ AtRest s) :
    ∃ e s', Expected s e ∧ Cooperative s e ∧ correspond s e = some s' := by
  by_cases hun : s.unanswered = []
  · have htimers : s.world.timers ≠ [] := fun ht => h ⟨hun, ht⟩
    obtain ⟨t, ht⟩ := List.exists_mem_of_ne_nil _ htimers
    have hfires : ∃ s', correspond s (.timeout t) = some s' := by
      rw [correspond, step, if_pos ht]
      exact ⟨_, rfl⟩
    obtain ⟨s', hs'⟩ := hfires
    exact ⟨.timeout t, s', .inl ⟨t, rfl⟩, trivial, hs'⟩
  · obtain ⟨r, hr⟩ := List.exists_mem_of_ne_nil _ hun
    obtain ⟨m, hm, hcoop⟩ := exists_confirmation hr (hs r hr)
    exact ⟨.mail m .none, _, .inr ⟨r, hr, hm⟩, hcoop, rfl⟩

/-- After a run the requests that wait can be answered, an open window has its timer, and so has
a handset that rings. -/
theorem outstanding_of_run {config : Config} {es : List Event} {s : Dialogue}
    (h : run correspond (Dialogue.initial config) es = some s) :
    Answerable s ∧ WindowCovered s.world ∧ RingCovered s.world := by
  refine run_induction (P := fun _ s => Answerable s ∧ WindowCovered s.world ∧ RingCovered s.world)
    ?_ ?_ es s h
  · exact ⟨fun _ hr => absurd hr List.not_mem_nil, windowCovered_initial config,
      ringCovered_initial config⟩
  · rintro _ s e s' - ⟨hans, hwindow, hring⟩ he
    have hstep := (correspond_eq_some_iff.mp he).1
    exact ⟨answerable_step hans he, windowCovered_step hwindow hstep, ringCovered_step hring hstep⟩

/-- At rest no window is open and no handset rings. -/
theorem AtRest.closed {s : Dialogue} (h : AtRest s) (hwindow : WindowCovered s.world)
    (hring : RingCovered s.world) :
    s.world.status.regMode ≠ .enabled ∧
      ∀ k, (s.world.status.handset k).pinging ≠ true8 := by
  have hnone (c : Callback) : ¬ Pending c s.world.timers := by
    rintro ⟨t, ht, -⟩
    rw [h.2] at ht
    exact absurd ht List.not_mem_nil
  exact ⟨fun hopen => hnone _ (hwindow hopen), fun k hk => hnone _ (hring k hk)⟩

/-- **The manager comes to rest.**  From every reachable state, a run of expected events, in
whatever order they come, has at most 54 events for each request and each timer that was
outstanding, and one more; it can go on unless nothing is outstanding; and then no registration
window is open and no handset rings. -/
theorem comes_to_rest (config : Config) (es next : List Event) (s s' : Dialogue)
    (hrun : run correspond (Dialogue.initial config) es = some s)
    (hnext : run correspond s next = some s')
    (hexp : Along correspond (fun _ s e _ => Expected s e) s next) :
    next.length ≤ 54 * (s.unanswered.length + s.world.timers.length) + 1 ∧
      (AtRest s' ∨ ∃ e s'', Expected s' e ∧ correspond s' e = some s'') ∧
      (AtRest s' → s'.world.status.regMode ≠ .enabled ∧
        ∀ k, (s'.world.status.handset k).pinging ≠ true8) := by
  have hreach : run correspond (Dialogue.initial config) (es ++ next) = some s' := by
    rw [run_append, hrun]
    exact hnext
  obtain ⟨hans, hwindow, hring⟩ := outstanding_of_run hreach
  refine ⟨?_, ?_, fun hrest => hrest.closed hwindow hring⟩
  · have hlength := length_add_rank_le lowers_rank next s s' hexp hnext
    have hrank := rank_le s
    omega
  · by_cases hrest : AtRest s'
    · exact .inl hrest
    · obtain ⟨e, s'', he, -, hs''⟩ := exists_expected hans hrest
      exact .inr ⟨e, s'', he, hs''⟩

/-- The stack confirms that handset 3 has been deleted, as a client has asked for. -/
theorem deletion_comes_to_rest :
    ∃ s s', run correspond (Dialogue.initial ⟨.enabled, by decide⟩)
        [command .listHandsets 0, command .deleteHset 3] = some s ∧
      run correspond s [.mail (.deleteRegistrationCfm 3) .none] = some s' ∧
      (AtRest s' ∨ ∃ e s'', Expected s' e ∧ correspond s' e = some s'') := by
  refine ⟨_, _, rfl, rfl, ?_⟩
  exact (comes_to_rest ⟨.enabled, by decide⟩ [command .listHandsets 0, command .deleteHset 3]
    [.mail (.deleteRegistrationCfm 3) .none] _ _ rfl rfl
    (.cons rfl (.inr ⟨.deleteRegistrationReq 3, List.mem_cons_self, rfl⟩) (along_nil _ _))).2.1

/-! ## Rest in auto mode -/

/-- An expected event of a cooperative stack. -/
def Orderly (s : Dialogue) (e : Event) : Prop := Expected s e ∧ Cooperative s e

end DectManager
