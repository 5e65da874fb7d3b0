/-
# The requests that the manager writes

`written` lists the requests that the manager has written, newest first, and
`writes` the ones that an event makes it write, as a function of the state
before.  `written_step` says that a step writes just these.

Terminal ids reach a request from a client's argument byte, from a count list
and from the successor of a confirmed id, and each handler validates by hand.
`real_terminals_iff` says when the requests written throughout a run name
terminals of the handset table only: exactly when no step of the run takes one
of the three ways past the validation.
-/
import DectManager.RegistrationMode
import DectManager.Registry

namespace DectManager

open PartialRun

/-! ## Requests in the log -/

/-- The request that an action writes. -/
def Action.request? : Action → Option Request
  | .writeDect m => some m
  | _ => none

/-- The requests written so far, newest first. -/
def written (w : World) : List Request := w.log.filterMap Action.request?

/-! ## What the handlers write -/

@[simp] theorem written_writeDect (m : Request) (w : World) :
    written (writeDect m w) = m :: written w := rfl

@[simp] theorem written_callHotplug (a : DectAction) (w : World) :
    written (callHotplug a w) = written w := rfl

@[simp] theorem written_setRadio (radio : RegState) (h : radio = .disabled ∨ radio = .enabled)
    (w : World) : written (w.setRadio radio h) = written w := rfl

@[simp] theorem written_setRegMode (regMode : RegState) (h : regMode ≠ .auto) (w : World) :
    written (w.setRegMode regMode h) = written w := rfl

@[simp] theorem written_setHandset (t : HandsetTable) (w : World) :
    written (w.setHandset t) = written w := rfl

@[simp] theorem written_arm (callback : Callback) (usec : ℕ) (w : World) :
    written (w.arm callback usec) = written w := rfl

@[simp] theorem written_controlLed (w : World) : written (controlLed w) = written w := by
  simp [controlLed, apply_ite written]

/-- What switching the radio writes. -/
def radioWrites (enable : Bool) (w : World) : List Request :=
  if enable ∧ w.status.radio = .disabled then [.startProtocolReq]
  else if ¬ enable ∧ w.status.radio = .enabled then [.stopProtocolReq]
  else []

theorem written_dectRadio (enable : Bool) (w : World) :
    written (dectRadio enable w) = radioWrites enable w ++ written w := by
  unfold dectRadio radioWrites
  split
  · simp [startProtocol]
  · split
    · simp [stopProtocol]
    · rfl

/-- The request of `init_cfm`. -/
def featuresReq : Request := .featuresReq .extendedTerminalIdSupport

@[simp] theorem written_initCfm (w : World) : written (initCfm w) = featuresReq :: written w := rfl

@[simp] theorem written_listHandsetsSchedule (w : World) :
    written (listHandsetsSchedule w) = written w := rfl

/-- What the end of an enumeration writes that leaves the table `t`. -/
def enumerationWrites (t : HandsetTable) (w : World) : List Request :=
  if w.config.radio = .auto then radioWrites (decide (handsetCount t > 0)) w else []

theorem written_perhapsDisableProtocol (w : World) :
    written (perhapsDisableProtocol w) = enumerationWrites w.status.handset w ++ written w := by
  rw [perhapsDisableProtocol_eq]
  unfold enumerationWrites
  rw [written_controlLed, apply_ite written, written_dectRadio]
  split <;> rfl

/-- What a count confirmation writes. -/
def countWrites (m : RegistrationCountCfm) (w : World) : List Request :=
  let r := markRegistered m.ids w.status.handset
  if m.status = .success ∧ r.2 = true then
    if m.terminalId 0 > 0 then [.getHandsetIpuiReq (m.terminalId 0)] else enumerationWrites r.1 w
  else []

theorem written_registrationCountCfm (m : RegistrationCountCfm) (w : World) :
    written (registrationCountCfm m w) = countWrites m w ++ written w := by
  rw [registrationCountCfm_eq]
  unfold countWrites
  by_cases hs : m.status = .success
  swap
  · rw [if_neg hs, if_neg (fun h => hs h.1)]
    rfl
  simp only [hs, if_true, true_and]
  split
  · split
    · rfl
    · rw [written_perhapsDisableProtocol]
      rfl
  · rfl

/-- What an IPUI confirmation writes. -/
def ipuiWrites (env : Env) (handset : ℕ) (w : World) : List Request :=
  if badHandsetnr handset then []
  else if (w.status.handset.read env.beyond handset).registered = true8 then
    [.getHandsetIpuiReq (handset + 1)]
  else enumerationWrites w.status.handset w

theorem written_handsetIpuiCfm (env : Env) (handset : ℕ) (ipui : Fin 5 → UInt8) (w : World) :
    written (handsetIpuiCfm env handset ipui w) = ipuiWrites env handset w ++ written w := by
  have hkeep : ∀ h : Hset, ({ h with ipui } : Hset).registered = h.registered := fun _ => rfl
  rw [handsetIpuiCfm_eq]
  unfold ipuiWrites
  split
  · rfl
  · simp only [World.setHandset, read_modify_registered hkeep]
    split
    · rfl
    · rw [written_perhapsDisableProtocol, enumerationWrites, handsetCount_modify hkeep]
      rfl

/-- What the end of a ping writes. -/
def pingStopWrites (handset : ℕ) (w : World) : List Request :=
  if badHandsetnr handset = false ∧
      (w.status.handset.read .zero (handset - 1)).pinging = true8 then
    [.releaseReq w.callReference .rrUnexpectedMessage 0]
  else []

theorem written_pingHandsetStop (handset : ℕ) (w : World) :
    written (pingHandsetStop handset w) = pingStopWrites handset w ++ written w := by
  rw [pingHandsetStop_eq]
  unfold pingStopWrites
  cases hbad : badHandsetnr handset with
  | true => simp
  | false =>
      simp only [Bool.false_eq_true, if_false, true_and]
      split <;> rfl

/-- What the end of a registration writes. -/
def stopWrites (w : World) : List Request :=
  if w.status.radio = .enabled then [.setRegistrationModeReq false false] else []

theorem written_registerHandsetsStop (w : World) :
    written (registerHandsetsStop w) = stopWrites w ++ written w := by
  simp only [registerHandsetsStop, apply_ite written, written_writeDect, written_controlLed,
    written_setRegMode]
  unfold stopWrites
  split
  · rename_i hon
    rw [if_pos (show w.status.radio = .enabled from hon)]
    rfl
  · rename_i hoff
    rw [if_neg (show ¬ w.status.radio = .enabled from hoff)]
    rfl

/-- What a registration request writes. -/
def registrationWrites (w : World) : List Request :=
  if w.config.radio = .disabled then []
  else if w.status.radio = .disabled then [.startProtocolReq]
  else if w.status.regMode ≠ .enabled then [.setRegistrationModeReq true false]
  else []

theorem written_registration (w : World) :
    written (registration w) = registrationWrites w ++ written w := by
  unfold registration registrationWrites
  split
  · rfl
  · split
    · rename_i hoff
      rw [written_arm, written_setRegMode, written_dectRadio, radioWrites, if_pos ⟨rfl, hoff⟩]
    · rename_i hradio
      split
      · have hon : w.status.radio = .enabled := w.status.radio_ne_disabled_iff.mp hradio
        rw [written_arm, registerHandsetsStart, if_pos hon]
        simp
      · rfl

/-- What a ping writes. -/
def pingWrites (handset : ℕ) (w : World) : List Request :=
  if badHandsetnr handset = false ∧ w.config.radio ≠ .disabled then
    [.setupReq ⟨0, 0, 1⟩ handset ⟨.ieaInt, 0⟩ .basicSpeech .ccNormal .ccSignalAlertOnPattern2 0]
  else []

theorem written_pingHandset (handset : ℕ) (w : World) :
    written (pingHandset handset w) = pingWrites handset w ++ written w := by
  rw [pingHandset_eq]
  unfold pingWrites
  cases hbad : badHandsetnr handset with
  | true => simp
  | false =>
      simp only [Bool.false_eq_true, if_false, true_and, ne_eq, ite_not]
      split <;> rfl

/-- What a request to delete a handset writes. -/
def deleteWrites (handset : ℕ) (w : World) : List Request :=
  if w.status.dectInit then [.deleteRegistrationReq handset] else []

theorem written_deleteHset (handset : ℕ) (w : World) :
    written (deleteHset handset w) = deleteWrites handset w ++ written w := by
  unfold deleteHset deleteWrites
  split <;> rfl

/-- What a new configuration writes. -/
def reloadWrites (config : Config) (w : World) : List Request :=
  if config.radio = .enabled then radioWrites true w
  else if config.radio = .auto then [featuresReq]
  else radioWrites false w

theorem written_reloadConfig {env : Env} {w w' : World} (h : reloadConfig env w = some w') :
    ∃ config, loadCfgFile env = some config ∧
      written w' = reloadWrites config w ++ written w := by
  obtain ⟨config, hload, rfl⟩ := Option.map_eq_some_iff.mp h
  refine ⟨config, hload, ?_⟩
  simp only [reloadWrites, apply_ite written, written_listHandsetsSchedule, written_dectRadio,
    written_initCfm]
  split
  · rfl
  · split <;> rfl

/-- What the start of the stack writes. -/
def initWrites (env : Env) : List Request :=
  if env.dectshim then ((nvsGetData env).map (Request.linuxInitReq dectNvsSize)).toList else []

theorem written_dectInit {env : Env} {w w' : World} (h : dectInit env w = some w') :
    written w' = initWrites env ++ written w := by
  unfold dectInit at h
  unfold initWrites
  split at h
  · rename_i hopen
    obtain ⟨data, hdata, rfl⟩ := Option.map_eq_some_iff.mp h
    rw [if_pos hopen, hdata]
    rfl
  · rename_i hopen
    rw [if_neg hopen, ← Option.some.inj h]
    rfl

/-! ## One step -/

/-- The requests that an event makes the manager write, newest first. -/
def writes (w : World) : Event → List Request
  | .client type data env =>
    match PacketType.ofCode type with
    | some .registration => registrationWrites w
    | some .pingHset => pingWrites data.toNat w
    | some .zwitch =>
      [.uleDataReq 7 (1 <<< 7 ||| 2) 20 (switchData data.toNat w.switchStateOn).1]
    | some .radio => radioWrites (decide (data ≠ 0)) w
    | some .reloadConfig => ((loadCfgFile env).map fun config => reloadWrites config w).getD []
    | some .deleteHset => deleteWrites data.toNat w
    | some .listHandsets => [featuresReq]
    | some .uleStart => [.uleInitReq 4]
    | some .init => initWrites env
    | some .button =>
      if data ≠ 0 ∧ (w.config.radio = .enabled ∨ w.config.radio = .auto) then registrationWrites w
      else []
    | _ => []
  | .mail m env =>
    match m with
    | .handsetPresentInd _ _ => if w.status.regMode = .disabled then [featuresReq] else []
    | .setRegistrationModeCfm => if w.status.regMode = .disabled then [featuresReq] else []
    | .getHandsetIpuiCfm handset _ => ipuiWrites env handset w
    | .getRegistrationCountCfm m => countWrites m w
    | .registrationCompleteInd => stopWrites w
    | .linuxInitCfm => [.uleInitReq 4, featuresReq]
    | .featuresCfm =>
      .getRegistrationCountReq 0 :: if w.config.radio = .enabled then radioWrites true w else []
    | .ulePvcConfigInd terminalId =>
      [.ulePvcConfigRes terminalId .ulePpInitiator .uleMtuSizeMax .uleMtuSizeMax
        .uleMtuLifetimeDefault .uleWindowSizeDefault 1 (.uleProtocolFun1, .uleProtocolVersion0, 0)]
    | .ulePvcPendingInd terminalId =>
      [.ulePvcPendingRes terminalId .uleErrNoError 1 (.ulePagingCh, 17, 2)]
    | .ulePvcIwuDataInd terminalId length infoElement =>
      [.ulePvcPendingRes terminalId .uleErrNoError 1 (.ulePagingCh, 17, 2),
        .ulePvcIwuDataReq terminalId length ((List.range length).map infoElement)]
    | _ => []
  | .timeout t =>
    match t.callback with
    | .initCfm => [featuresReq]
    | .registrationDelayedStart =>
      if w.status.regMode = .delayedStart then registrationWrites w else []
    | .registerHandsetsStop => stopWrites w
    | .pingHandsetStop handset => pingStopWrites handset w

theorem written_handleClientPacket {env : Env} {type : UInt32} {data : UInt8} {w w' : World}
    (h : handleClientPacket env type data w = some w') :
    written w' = writes w (.client type data env) ++ written w := by
  unfold handleClientPacket at h
  simp only [writes]
  cases htype : PacketType.ofCode type with
  | none =>
      simp only [htype, Option.some.injEq] at h
      rw [← h]
      rfl
  | some t =>
      cases t <;> simp only [htype, Option.some.injEq] at h ⊢
      case reloadConfig =>
        obtain ⟨config, hload, hw⟩ := written_reloadConfig h
        rw [hw, hload]
        rfl
      case init => exact written_dectInit h
      case registration => rw [← h, written_registration]
      case pingHset => rw [← h, written_pingHandset]
      case radio => rw [← h, written_dectRadio]
      case deleteHset => rw [← h, written_deleteHset]
      case button =>
        split at h
        · rename_i hb
          rw [← Option.some.inj h, if_pos hb, written_registration]
        · rename_i hb
          rw [← Option.some.inj h, if_neg hb]
          rfl
      all_goals
        rw [← h]
        rfl

theorem written_handleDectPacket (env : Env) (m : Mail) (w : World) :
    written (handleDectPacket env m w) = writes w (.mail m env) ++ written w := by
  have hpres (handset : ℕ) : written (presentInd handset w) = written w := by
    simp [presentInd_eq, apply_ite written]
  cases m with
  | handsetPresentInd handset length =>
      have hmode : (presentInd handset w).status.regMode = w.status.regMode := by
        rw [presentInd_eq]
        split <;> rfl
      simp only [handleDectPacket, writes, apply_ite written, written_initCfm, hpres, hmode]
      split <;> rfl
  | setRegistrationModeCfm =>
      simp only [handleDectPacket, writes, apply_ite written, written_initCfm]
      split <;> rfl
  | getHandsetIpuiCfm handset ipui => exact written_handsetIpuiCfm env handset ipui w
  | getRegistrationCountCfm m => exact written_registrationCountCfm m w
  | registrationCompleteInd => exact written_registerHandsetsStop w
  | featuresCfm =>
      simp only [handleDectPacket, writes, listHandsets, written_writeDect, apply_ite written,
        written_dectRadio, List.cons_append]
      split <;> rfl
  | connectInd handset =>
      simp only [handleDectPacket, connectInd_eq, apply_ite written, written_setHandset, ite_self]
      rfl
  | deleteRegistrationCfm handset =>
      simp only [handleDectPacket, written_listHandsetsSchedule, deleteRegistrationCfm_eq,
        apply_ite written, written_setHandset, ite_self]
      rfl
  | _ => rfl

theorem written_expire (t : Timer) (w : World) :
    written (expire t.callback w) = writes w (.timeout t) ++ written w := by
  simp only [writes]
  cases t.callback with
  | initCfm => rfl
  | registrationDelayedStart =>
      simp only [expire, registrationDelayedStart]
      split
      · exact written_registration w
      · rfl
  | registerHandsetsStop => exact written_registerHandsetsStop w
  | pingHandsetStop handset => exact written_pingHandsetStop handset w

/-- **One step.**  The requests that an event makes the manager write. -/
theorem written_step {w w' : World} {e : Event} (h : step w e = some w') :
    written w' = writes w e ++ written w := by
  cases e with
  | client type data env =>
      obtain ⟨v, hv, rfl⟩ := Option.map_eq_some_iff.mp h
      exact (written_handleClientPacket hv :)
  | mail m env =>
      obtain rfl : tick (handleDectPacket env m w) = w' := by simpa [step] using h
      exact written_handleDectPacket env m w
  | timeout t =>
      simp only [step, Option.ite_none_right_eq_some, Option.some.injEq] at h
      obtain ⟨-, rfl⟩ := h
      exact written_expire t { w with timers := w.timers.erase t }

/-! ## Terminals -/

/-- The terminal that a request about a handset names. -/
def Request.terminal? : Request → Option ℕ
  | .getHandsetIpuiReq terminalId => some terminalId
  | .setupReq _ terminalId .. => some terminalId
  | .deleteRegistrationReq terminalId => some terminalId
  | _ => none

/-- The terminals that some requests name. -/
def terminals (ms : List Request) : List ℕ := ms.filterMap Request.terminal?

/-- The terminals are entries of the handset table. -/
def Real (ids : List ℕ) : Prop := ∀ id ∈ ids, 1 ≤ id ∧ id ≤ maxNrHandsets

@[simp] theorem terminals_nil : terminals [] = [] := rfl

@[simp] theorem terminals_cons (m : Request) (ms : List Request) :
    terminals (m :: ms) = m.terminal?.toList ++ terminals ms := by
  rw [terminals, terminals, List.filterMap_cons]
  cases m.terminal? <;> rfl

theorem terminals_append (ms ms' : List Request) :
    terminals (ms ++ ms') = terminals ms ++ terminals ms' :=
  List.filterMap_append

theorem real_append_iff {ids ids' : List ℕ} : Real (ids ++ ids') ↔ Real ids ∧ Real ids' :=
  List.forall_mem_append

@[simp] theorem real_nil : Real [] := List.forall_mem_nil _

@[simp] theorem real_singleton_iff {id : ℕ} : Real [id] ↔ 1 ≤ id ∧ id ≤ maxNrHandsets :=
  List.forall_mem_singleton

/-- A single request about a handset. -/
theorem real_request_iff {m : Request} {id : ℕ} (h : m.terminal? = some id) :
    Real (terminals [m]) ↔ 1 ≤ id ∧ id ≤ maxNrHandsets := by
  rw [terminals_cons, h]
  exact real_singleton_iff

/-! The requests about the radio, the registration mode, the stack and its features name no
terminal. -/

@[simp] theorem terminals_radioWrites (enable : Bool) (w : World) :
    terminals (radioWrites enable w) = [] := by
  unfold radioWrites
  split_ifs <;> rfl

@[simp] theorem terminals_enumerationWrites (t : HandsetTable) (w : World) :
    terminals (enumerationWrites t w) = [] := by
  unfold enumerationWrites
  split_ifs
  · exact terminals_radioWrites _ w
  · rfl

@[simp] theorem terminals_stopWrites (w : World) : terminals (stopWrites w) = [] := by
  unfold stopWrites
  split_ifs <;> rfl

@[simp] theorem terminals_registrationWrites (w : World) :
    terminals (registrationWrites w) = [] := by
  unfold registrationWrites
  split_ifs <;> rfl

@[simp] theorem terminals_pingStopWrites (handset : ℕ) (w : World) :
    terminals (pingStopWrites handset w) = [] := by
  unfold pingStopWrites
  split_ifs <;> rfl

@[simp] theorem terminals_reloadWrites (config : Config) (w : World) :
    terminals (reloadWrites config w) = [] := by
  unfold reloadWrites
  split_ifs
  · exact terminals_radioWrites _ w
  · rfl
  · exact terminals_radioWrites _ w

@[simp] theorem terminals_initWrites (env : Env) : terminals (initWrites env) = [] := by
  unfold initWrites
  split_ifs
  · cases nvsGetData env <;> rfl
  · rfl

/-- A ping names its handset only after a look at it. -/
theorem real_pingWrites (handset : ℕ) (w : World) : Real (terminals (pingWrites handset w)) := by
  unfold pingWrites
  split_ifs with h
  · exact (real_request_iff rfl).mpr (badHandsetnr_eq_false_iff.mp h.1)
  · exact real_nil

/-- A request to delete names whatever the client has asked for. -/
theorem real_deleteWrites_iff (handset : ℕ) (w : World) :
    Real (terminals (deleteWrites handset w)) ↔
      ¬ (w.status.dectInit = true ∧ badHandsetnr handset = true) := by
  unfold deleteWrites
  split_ifs with hinit
  · rw [real_request_iff rfl, ← badHandsetnr_eq_false_iff]
    simp [hinit]
  · simp [hinit]

/-- The first id of a count list has been looked at, unless the list is empty. -/
theorem real_countWrites_iff (m : RegistrationCountCfm) (w : World) :
    Real (terminals (countWrites m w)) ↔
      ¬ (m.status = .success ∧ m.terminalIdCount = 0 ∧ maxNrHandsets < m.terminalId 0) := by
  unfold countWrites
  simp only [markRegistered_finished_iff]
  split_ifs with hok hpos
  · rw [real_request_iff rfl]
    by_cases hcount : m.terminalIdCount = 0
    · simp only [hok.1, hcount, true_and]
      omega
    · have hgood := badHandsetnr_eq_false_iff.mp (hok.2 _ (m.first_mem_ids hcount))
      exact iff_of_true hgood fun h => hcount h.2.1
  · refine iff_of_true (by simp) fun h => ?_
    omega
  · -- an empty list has no bad id
    refine iff_of_true real_nil fun h => hok ⟨h.1, ?_⟩
    simp [RegistrationCountCfm.ids, h.2.1]

/-- The successor of a confirmed id is in the table, unless the confirmed one is
the last. -/
theorem real_ipuiWrites_iff (env : Env) (handset : ℕ) (w : World) :
    Real (terminals (ipuiWrites env handset w)) ↔
      ¬ (handset = maxNrHandsets ∧ env.beyond.registered = true8) := by
  unfold ipuiWrites
  split_ifs with hbad hnext
  · refine iff_of_true real_nil fun h => ?_
    rw [h.1] at hbad
    exact absurd hbad (by decide)
  · have hgood := badHandsetnr_eq_false_iff.mp (Bool.not_eq_true _ ▸ hbad)
    rw [real_request_iff rfl]
    by_cases hlast : handset = maxNrHandsets
    · -- the flag was read behind the table
      rw [hlast, HandsetTable.read, dif_neg (lt_irrefl _)] at hnext
      refine iff_of_false (fun h => ?_) fun h => h ⟨hlast, hnext⟩
      omega
    · refine iff_of_true ?_ fun h => hlast h.1
      omega
  · refine iff_of_true (by simp) fun h => hnext ?_
    rw [h.1, HandsetTable.read, dif_neg (lt_irrefl _)]
    exact h.2

/-- The ways past the validation: a client deletes a handset that is none; the
last entry's IPUI is confirmed while the memory behind the table holds `TRUE`; a
count list is empty and followed by a number above the last id. -/
def NamesUnreal (w : World) : Event → Prop
  | .client type data _ =>
    type = PacketType.deleteHset.code ∧ w.status.dectInit = true ∧
      badHandsetnr data.toNat = true
  | .mail (.getHandsetIpuiCfm handset _) env =>
    handset = maxNrHandsets ∧ env.beyond.registered = true8
  | .mail (.getRegistrationCountCfm m) _ =>
    m.status = .success ∧ m.terminalIdCount = 0 ∧ maxNrHandsets < m.terminalId 0
  | _ => False

/-- **One event** names terminals of the table only, unless it takes one of the
ways past the validation. -/
theorem real_writes_iff (w : World) (e : Event) :
    Real (terminals (writes w e)) ↔ ¬ NamesUnreal w e := by
  cases e with
  | client type data env =>
      simp only [writes, NamesUnreal, ← PacketType.ofCode_eq_some_iff]
      cases htype : PacketType.ofCode type with
      | none => simp
      | some p =>
          cases p with
          | deleteHset => simpa using real_deleteWrites_iff data.toNat w
          | pingHset => simpa using real_pingWrites data.toNat w
          | reloadConfig => cases loadCfgFile env <;> simp
          | button =>
              refine iff_of_true ?_ (by simp)
              show Real (terminals (ite _ _ _))
              split_ifs
              · simp
              · exact real_nil
          | _ => simp [featuresReq, Request.terminal?]
  | mail m env =>
      cases m with
      | getHandsetIpuiCfm handset ipui => exact real_ipuiWrites_iff env handset w
      | getRegistrationCountCfm m => exact real_countWrites_iff m w
      | handsetPresentInd handset length | setRegistrationModeCfm =>
          refine iff_of_true ?_ not_false
          simp only [writes]
          split_ifs <;> exact real_nil
      | registrationCompleteInd => simp [writes, NamesUnreal]
      | featuresCfm =>
          refine iff_of_true ?_ not_false
          show Real (terminals (ite _ _ _))
          split_ifs
          · simp
          · exact real_nil
      | _ => exact iff_of_true real_nil not_false
  | timeout t =>
      refine iff_of_true ?_ not_false
      simp only [writes]
      cases t.callback with
      | registrationDelayedStart =>
          dsimp only
          split_ifs
          · simp
          · exact real_nil
      | registerHandsetsStop => simp
      | pingHandsetStop handset => simp
      | initCfm => exact real_nil

/-- **The requests about a handset name entries of the handset table throughout a
run exactly when no step of the run takes one of the ways past the
validation.** -/
theorem real_terminals_iff (config : Config) (es : List Event) :
    Throughout step (fun _ w => Real (terminals (written w))) (initial config) es ↔
      Along step (fun _ w e _ => ¬ NamesUnreal w e) (initial config) es := by
  refine throughout_iff_along ?_ ?_ es
  · exact real_nil
  · intro _ w e w' _ hw he
    rw [written_step he, terminals_append, real_append_iff, real_writes_iff]
    exact and_iff_left hw

/-- The run "list the handsets, delete handset 0" asks the stack to delete
terminal 0. -/
theorem delete_names_terminal_zero :
    ¬ Throughout step (fun _ w => Real (terminals (written w))) (initial ⟨.enabled, by decide⟩)
      [command .listHandsets 0, command .deleteHset 0] := by
  intro h
  have hend : (run step (initial ⟨.enabled, by decide⟩)
      [command .listHandsets 0, command .deleteHset 0]).map
        (fun w => terminals (written w)) = some [0] := by
    decide
  obtain ⟨w, hw, hids⟩ := Option.map_eq_some_iff.mp hend
  have hreal : Real (terminals (written w)) := h.last hw
  rw [hids, real_singleton_iff] at hreal
  omega

end DectManager
