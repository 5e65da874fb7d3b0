/-
# The requests that auto mode waits for

In auto mode two things lead to a switch of the radio in the end: the refresh
chain (features, then the registration count, then one IPUI after the other) and
the registration mode.  Their four kinds of requests are the ones whose
confirmations matter there; the manager also acts on the confirmations of
others, a deletion or the start of the stack (`Correspondence.lean`).  `asks`
lists the requests of these kinds that an event writes, newest first;
`requests_step` says that a step writes just these.

`Dialogue` puts beside the manager the requests that the stack has not confirmed
yet, and `converse` is a step of both.
-/
import DectManager.RadioControl

namespace DectManager

/-! ## Requests in the log -/

/-- A request of the refresh chain. -/
def Request.isRefresh : Request → Bool
  | .featuresReq _ => true
  | .getRegistrationCountReq _ => true
  | .getHandsetIpuiReq _ => true
  | _ => false

/-- A request for a registration mode. -/
def Request.isMode : Request → Bool
  | .setRegistrationModeReq _ _ => true
  | _ => false

/-- The request that an action writes, if auto mode waits for its confirmation. -/
def Action.awaited? : Action → Option Request
  | .writeDect m => if m.isRefresh || m.isMode then some m else none
  | _ => none

/-- The requests written so far that auto mode waits for, newest first. -/
def requests (w : World) : List Request := w.log.filterMap Action.awaited?

/-! ## What the handlers write -/

theorem requests_record (a : Action) (w : World) :
    requests (w.record a) = a.awaited?.toList ++ requests w := by
  simp only [requests, World.record, List.filterMap_cons]
  cases a.awaited? <;> rfl

theorem requests_ignoresRadio : IgnoresRadio requests :=
  ⟨fun _ _ => rfl, fun _ => rfl, fun _ => rfl, fun _ _ _ => rfl⟩

@[simp] theorem requests_setRegMode (regMode : RegState) (h : regMode ≠ .auto) (w : World) :
    requests (w.setRegMode regMode h) = requests w := rfl

@[simp] theorem requests_setHandset (t : HandsetTable) (w : World) :
    requests (w.setHandset t) = requests w := rfl

@[simp] theorem requests_arm (callback : Callback) (usec : ℕ) (w : World) :
    requests (w.arm callback usec) = requests w := rfl

@[simp] theorem requests_controlLed (w : World) : requests (controlLed w) = requests w :=
  requests_ignoresRadio.controlLed w

/-- Writing a request that auto mode waits for. -/
theorem requests_writeDect (m : Request) (h : (m.isRefresh || m.isMode) = true) (w : World) :
    requests (writeDect m w) = m :: requests w := by
  rw [writeDect, requests_record, Action.awaited?, if_pos h]
  rfl

@[simp] theorem requests_dectRadio (enable : Bool) (w : World) :
    requests (dectRadio enable w) = requests w :=
  requests_ignoresRadio.dectRadio enable w

/-- The request with which a refresh starts. -/
def refreshReq : Request := .featuresReq .extendedTerminalIdSupport

@[simp] theorem requests_initCfm (w : World) : requests (initCfm w) = refreshReq :: requests w :=
  requests_writeDect _ rfl w

@[simp] theorem requests_listHandsetsSchedule (w : World) :
    requests (listHandsetsSchedule w) = requests w := rfl

@[simp] theorem requests_listHandsets (w : World) :
    requests (listHandsets w) = .getRegistrationCountReq 0 :: requests w :=
  requests_writeDect _ rfl w

@[simp] theorem requests_getHandsetIpui (handset : ℕ) (w : World) :
    requests (getHandsetIpui handset w) = .getHandsetIpuiReq handset :: requests w :=
  requests_writeDect _ rfl w

@[simp] theorem requests_perhapsDisableProtocol (w : World) :
    requests (perhapsDisableProtocol w) = requests w :=
  requests_ignoresRadio.perhapsDisableProtocol w

/-- What the end of a registration writes. -/
def stopAsks (w : World) : List Request :=
  if w.status.radio = .enabled then [.setRegistrationModeReq false false] else []

theorem requests_registerHandsetsStop (w : World) :
    requests (registerHandsetsStop w) = stopAsks w ++ requests w := by
  simp only [registerHandsetsStop, apply_ite requests,
    requests_writeDect (.setRegistrationModeReq false false) rfl, requests_controlLed,
    requests_setRegMode]
  unfold stopAsks
  by_cases h : w.status.radio = .enabled
  · rw [if_pos h]
    exact if_pos h
  · rw [if_neg h]
    exact if_neg h

/-- What a registration request writes: a registration that is delayed writes
nothing yet. -/
def registrationAsks (w : World) : List Request :=
  if w.config.radio ≠ .disabled ∧ w.status.radio ≠ .disabled ∧ w.status.regMode ≠ .enabled then
    [.setRegistrationModeReq true false]
  else []

theorem requests_registration (w : World) :
    requests (registration w) = registrationAsks w ++ requests w := by
  unfold registration registrationAsks
  by_cases hcfg : w.config.radio = .disabled
  · simp [hcfg]
  by_cases hradio : w.status.radio = .disabled
  · simp [hcfg, hradio]
  by_cases hmode : w.status.regMode = .enabled
  · simp [hcfg, hradio, hmode]
  · have hon : w.status.radio = .enabled := w.status.radio_ne_disabled_iff.mp hradio
    rw [if_neg hcfg, if_neg hradio, if_pos hmode, requests_arm, if_pos ⟨hcfg, hradio, hmode⟩,
      registerHandsetsStart, if_pos hon, requests_writeDect _ rfl]
    simp

/-- What a delayed start writes. -/
def delayedStartAsks (w : World) : List Request :=
  if w.status.regMode = .delayedStart then registrationAsks w else []

theorem requests_registrationDelayedStart (w : World) :
    requests (registrationDelayedStart w) = delayedStartAsks w ++ requests w := by
  unfold registrationDelayedStart delayedStartAsks
  split
  · exact requests_registration w
  · rfl

/-- What a count confirmation writes: the first IPUI request, if the list has no
bad id and its first entry is positive. -/
def countAsks (m : RegistrationCountCfm) (t : HandsetTable) : List Request :=
  if m.status = .success ∧ (markRegistered m.ids t).2 = true ∧ m.terminalId 0 > 0 then
    [.getHandsetIpuiReq (m.terminalId 0)]
  else []

theorem requests_registrationCountCfm (m : RegistrationCountCfm) (w : World) :
    requests (registrationCountCfm m w) = countAsks m w.status.handset ++ requests w := by
  simp only [registrationCountCfm_eq, apply_ite requests, requests_setHandset,
    requests_getHandsetIpui, requests_perhapsDisableProtocol]
  unfold countAsks
  split_ifs <;> simp_all

/-- What an IPUI confirmation writes: the next IPUI request, if the next entry of
the table is registered. -/
def ipuiAsks (env : Env) (handset : ℕ) (t : HandsetTable) : List Request :=
  if badHandsetnr handset = false ∧ (t.read env.beyond handset).registered = true8 then
    [.getHandsetIpuiReq (handset + 1)]
  else []

theorem requests_handsetIpuiCfm (env : Env) (handset : ℕ) (ipui : Fin 5 → UInt8) (w : World) :
    requests (handsetIpuiCfm env handset ipui w) =
      ipuiAsks env handset w.status.handset ++ requests w := by
  have hkeep : ∀ h : Hset, ({ h with ipui } : Hset).registered = h.registered := fun _ => rfl
  rw [handsetIpuiCfm_eq]
  unfold ipuiAsks
  cases hbad : badHandsetnr handset with
  | true => simp
  | false =>
      simp only [Bool.false_eq_true, if_false, true_and, apply_ite requests, requests_setHandset,
        requests_getHandsetIpui, requests_perhapsDisableProtocol]
      rw [World.setHandset, read_modify_registered hkeep]
      split <;> rfl

/-! ## One step -/

/-- The requests that an event makes the manager write and auto mode waits for,
newest first. -/
def asks (w : World) : Event → List Request
  | .client type data env =>
    match PacketType.ofCode type with
    | some .registration => registrationAsks w
    | some .button =>
      if data ≠ 0 ∧ (w.config.radio = .enabled ∨ w.config.radio = .auto) then registrationAsks w
      else []
    | some .reloadConfig =>
      if (loadCfgFile env).map Config.radio = some .auto then [refreshReq] else []
    | some .listHandsets => [refreshReq]
    | _ => []
  | .mail m env =>
    match m with
    | .handsetPresentInd _ _ => if w.status.regMode = .disabled then [refreshReq] else []
    | .setRegistrationModeCfm => if w.status.regMode = .disabled then [refreshReq] else []
    | .getHandsetIpuiCfm handset _ => ipuiAsks env handset w.status.handset
    | .getRegistrationCountCfm m => countAsks m w.status.handset
    | .registrationCompleteInd => stopAsks w
    | .linuxInitCfm => [refreshReq]
    | .featuresCfm => [.getRegistrationCountReq 0]
    | _ => []
  | .timeout t =>
    match t.callback with
    | .initCfm => [refreshReq]
    | .registrationDelayedStart => delayedStartAsks w
    | .registerHandsetsStop => stopAsks w
    | .pingHandsetStop _ => []

theorem requests_reloadConfig {env : Env} {w w' : World} (h : reloadConfig env w = some w') :
    requests w' =
      (if (loadCfgFile env).map Config.radio = some .auto then [refreshReq] else []) ++
        requests w := by
  obtain ⟨config, hload, rfl⟩ := Option.map_eq_some_iff.mp h
  simp only [hload, Option.map_some, Option.some.injEq, apply_ite requests,
    requests_listHandsetsSchedule, requests_dectRadio, requests_initCfm]
  by_cases hauto : config.radio = .auto
  · simp only [hauto, if_true, reduceCtorEq, if_false]
    rfl
  · simp only [hauto, if_false, ite_self]
    rfl

theorem requests_handleClientPacket {env : Env} {type : UInt32} {data : UInt8} {w w' : World}
    (h : handleClientPacket env type data w = some w') :
    requests w' = asks w (.client type data env) ++ requests w := by
  unfold handleClientPacket at h
  simp only [asks]
  cases htype : PacketType.ofCode type with
  | none =>
      simp only [htype, Option.some.injEq] at h
      rw [← h]
      rfl
  | some t =>
      cases t <;> simp only [htype, Option.some.injEq] at h ⊢
      case reloadConfig => exact requests_reloadConfig h
      case registration => rw [← h, requests_registration]
      case button =>
        split at h
        · rename_i hb
          rw [← Option.some.inj h, if_pos hb, requests_registration]
        · rename_i hb
          rw [← Option.some.inj h, if_neg hb]
          rfl
      case init =>
        unfold dectInit at h
        split at h
        · obtain ⟨data, -, rfl⟩ := Option.map_eq_some_iff.mp h
          rfl
        · rw [← Option.some.inj h]
          rfl
      case radio =>
        rw [← h, requests_dectRadio]
        rfl
      case deleteHset =>
        rw [← h, deleteHset]
        split <;> rfl
      case pingHset =>
        rw [← h, pingHandset_eq]
        split
        · rfl
        · split <;> rfl
      all_goals
        rw [← h]
        rfl

theorem requests_handleDectPacket (env : Env) (m : Mail) (w : World) :
    requests (handleDectPacket env m w) = asks w (.mail m env) ++ requests w := by
  have hpres (handset : ℕ) : requests (presentInd handset w) = requests w := by
    simp [presentInd_eq, apply_ite requests]
  cases m with
  | handsetPresentInd handset length =>
      have hmode : (presentInd handset w).status.regMode = w.status.regMode := by
        rw [presentInd_eq]
        split <;> rfl
      simp only [handleDectPacket, asks, apply_ite requests, requests_initCfm, hpres, hmode]
      split <;> rfl
  | setRegistrationModeCfm =>
      simp only [handleDectPacket, asks, apply_ite requests, requests_initCfm]
      split <;> rfl
  | getHandsetIpuiCfm handset ipui => exact requests_handsetIpuiCfm env handset ipui w
  | getRegistrationCountCfm m => exact requests_registrationCountCfm m w
  | registrationCompleteInd => exact requests_registerHandsetsStop w
  | featuresCfm =>
      simp only [handleDectPacket, asks, requests_listHandsets, apply_ite requests,
        requests_dectRadio, ite_self]
      rfl
  | connectInd handset =>
      simp only [handleDectPacket, connectInd_eq, apply_ite requests, requests_setHandset, ite_self]
      rfl
  | deleteRegistrationCfm handset =>
      simp only [handleDectPacket, requests_listHandsetsSchedule, deleteRegistrationCfm_eq,
        apply_ite requests, requests_setHandset, ite_self]
      rfl
  | _ => rfl

theorem requests_expire (t : Timer) (w : World) :
    requests (expire t.callback w) = asks w (.timeout t) ++ requests w := by
  simp only [asks]
  cases t.callback with
  | initCfm => exact requests_initCfm w
  | registrationDelayedStart => exact requests_registrationDelayedStart w
  | registerHandsetsStop => exact requests_registerHandsetsStop w
  | pingHandsetStop handset =>
      simp only [expire, pingHandsetStop_eq]
      split
      · rfl
      · split <;> rfl

/-- **One step.**  The requests that an event makes the manager write. -/
theorem requests_step {w w' : World} {e : Event} (h : step w e = some w') :
    requests w' = asks w e ++ requests w := by
  cases e with
  | client type data env =>
      obtain ⟨v, hv, rfl⟩ := Option.map_eq_some_iff.mp h
      exact (requests_handleClientPacket hv :)
  | mail m env =>
      obtain rfl : tick (handleDectPacket env m w) = w' := by simpa [step] using h
      exact requests_handleDectPacket env m w
  | timeout t =>
      simp only [step, Option.ite_none_right_eq_some, Option.some.injEq] at h
      obtain ⟨-, rfl⟩ := h
      exact requests_expire t { w with timers := w.timers.erase t }

/-! ## The manager and the requests that the stack has not answered -/

/-- A manager and the requests that the stack has still to confirm. -/
structure Dialogue where
  world : World
  unanswered : List Request

/-- The event is a confirmation of the request. -/
def answers : Event → Request → Bool
  | .mail .featuresCfm _, .featuresReq _ => true
  | .mail (.getRegistrationCountCfm _) _, .getRegistrationCountReq _ => true
  | .mail (.getHandsetIpuiCfm handset _) _, .getHandsetIpuiReq terminalId => handset == terminalId
  | .mail .setRegistrationModeCfm _, .setRegistrationModeReq _ _ => true
  | _, _ => false

/-- The requests written between two states. -/
def newRequests (w w' : World) : List Request :=
  (requests w').take ((requests w').length - (requests w).length)

/-- One step of the manager: a confirmation answers one request, and the requests
written wait for theirs. -/
def converse (s : Dialogue) (e : Event) : Option Dialogue :=
  (step s.world e).map fun w' =>
    ⟨w', newRequests s.world w' ++ s.unanswered.eraseP (answers e)⟩

/-- A step of the dialogue in terms of the requests that the event asks for. -/
theorem converse_eq_some_iff {s s' : Dialogue} {e : Event} :
    converse s e = some s' ↔
      step s.world e = some s'.world ∧
        s'.unanswered = asks s.world e ++ s.unanswered.eraseP (answers e) := by
  have hnew {w' : World} (h : step s.world e = some w') :
      newRequests s.world w' = asks s.world e := by
    rw [newRequests, requests_step h, List.length_append, Nat.add_sub_cancel]
    exact List.take_left' rfl
  rw [converse, Option.map_eq_some_iff]
  constructor
  · rintro ⟨w', hw', rfl⟩
    exact ⟨hw', by rw [hnew hw']⟩
  · rintro ⟨hw', hun⟩
    refine ⟨s'.world, hw', ?_⟩
    rw [hnew hw', ← hun]

end DectManager
