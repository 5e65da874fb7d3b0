/-
# The radio and registration control, and the stack behind it

What the manager is for, as far as the radio goes: it keeps a copy of the
stack's protocol state (`radio`), walks through the registration states
(`regMode`) and tells the stack and the hotplug script about both.  `Control` is
that core together with the other side of the wire: the registration mode and
the protocol state that the requests written so far leave the stack in, and the
LED action issued last.  `Move` lists the ways in which the core can change.

* `control` reads the core off a `World`, `moveOf` says which move an event is;
* `control_step` is the simulation: one step of the manager is one move.

The core is a finite machine, so laws of moves are proved by cases.
-/
import DectManager.PartialRun
import DectManager.Manager

namespace DectManager

/-! ## The abstract machine -/

/-- The core of the manager and what it has made the outside believe. -/
structure Control where
  config : RegState
  radio : RegState
  regMode : RegState
  /-- `RegistrationEnabled` of the last registration mode request -/
  requested : Bool
  /-- is the stack's protocol running -/
  protocol : Bool
  /-- the LED action issued last -/
  led : Option DectAction
  deriving DecidableEq

/-- The LED action that displays a radio and a registration state. -/
def ledAction (radio regMode : RegState) : DectAction :=
  if radio = .enabled then if regMode = .enabled then .ledBlink else .ledOn else .ledOff

namespace Control

/-- Display the current state. -/
def showLed (c : Control) : Control := { c with led := some (ledAction c.radio c.regMode) }

/-- Switch the radio on or off, if it is not there already. -/
def setRadio (enable : Bool) (c : Control) : Control :=
  if enable ∧ c.radio = .disabled then showLed { c with radio := .enabled, protocol := true }
  else if ¬ enable ∧ c.radio = .enabled then
    showLed { c with radio := .disabled, protocol := false }
  else c

@[simp] theorem showLed_config (c : Control) : c.showLed.config = c.config := rfl
@[simp] theorem showLed_radio (c : Control) : c.showLed.radio = c.radio := rfl
@[simp] theorem showLed_regMode (c : Control) : c.showLed.regMode = c.regMode := rfl
@[simp] theorem showLed_requested (c : Control) : c.showLed.requested = c.requested := rfl

@[simp] theorem setRadio_config (enable : Bool) (c : Control) :
    (c.setRadio enable).config = c.config := by
  unfold setRadio
  split
  · rfl
  · split <;> rfl

@[simp] theorem setRadio_regMode (enable : Bool) (c : Control) :
    (c.setRadio enable).regMode = c.regMode := by
  unfold setRadio
  split
  · rfl
  · split <;> rfl

@[simp] theorem setRadio_requested (enable : Bool) (c : Control) :
    (c.setRadio enable).requested = c.requested := by
  unfold setRadio
  split
  · rfl
  · split <;> rfl

/-- A handset enumeration has ended, having found a handset or none. -/
def enumerated (any : Bool) (c : Control) : Control :=
  showLed (if c.config = .auto then setRadio any c else c)

/-- Close the registration window; the stack is told if the radio is on. -/
def close (c : Control) : Control :=
  if c.radio = .enabled then { showLed { c with regMode := .disabled } with requested := false }
  else showLed { c with regMode := .disabled }

@[simp] theorem close_config (c : Control) : c.close.config = c.config := by
  unfold close
  split <;> rfl

@[simp] theorem close_radio (c : Control) : c.close.radio = c.radio := by
  unfold close
  split <;> rfl

@[simp] theorem close_regMode (c : Control) : c.close.regMode = .disabled := by
  unfold close
  split <;> rfl

theorem close_requested (c : Control) :
    c.close.requested = if c.radio = .enabled then false else c.requested := by
  unfold close
  split <;> rfl

/-- Open the registration window and tell the stack, if the radio is on. -/
def openWindow (c : Control) : Control :=
  if c.radio = .enabled then { showLed { c with regMode := .enabled } with requested := true }
  else c

/-- A registration is requested. -/
def registration (c : Control) : Control :=
  if c.config = .disabled then c
  else if c.radio = .disabled then { setRadio true c with regMode := .delayedStart }
  else if c.regMode ≠ .enabled then openWindow c
  else c

/-- A new configuration is in force. -/
def reload (config : Config) (c : Control) : Control :=
  let c := { c with config := config.radio }
  if config.radio = .enabled then setRadio true c
  else if config.radio = .auto then c
  else setRadio false c

end Control

/-- The ways in which the core changes. -/
inductive Move
  | radio (enable : Bool)
  | reload (config : Config)
  | registration
  | delayedStart
  | close
  | features
  | enumerated (any : Bool)
  | linuxInit
  | idle
  deriving DecidableEq

/-- The effect of a move on the core. -/
def Move.apply (c : Control) : Move → Control
  | .radio enable => c.setRadio enable
  | .reload config => c.reload config
  | .registration => c.registration
  | .delayedStart => if c.regMode = .delayedStart then c.registration else c
  | .close => c.close
  | .features => if c.config = .enabled then c.setRadio true else c
  | .enumerated any => c.enumerated any
  | .linuxInit => { c with protocol := false }
  | .idle => c

/-! ## Reading the core off the manager -/

/-- The registration mode that an action asks the stack for. -/
def Action.registrationMode? : Action → Option Bool
  | .writeDect (.setRegistrationModeReq enabled _) => some enabled
  | _ => none

/-- The protocol state that an action leaves the stack in; the stack restarts
with its protocol off. -/
def Action.protocol? : Action → Option Bool
  | .writeDect .startProtocolReq => some true
  | .writeDect .stopProtocolReq => some false
  | .writeDect (.linuxInitReq _ _) => some false
  | _ => none

/-- The LED action that an action is. -/
def Action.led? : Action → Option DectAction
  | .callHotplug a => some a
  | _ => none

/-- The `RegistrationEnabled` flag of the last registration mode request, `false`
if there was none. -/
def requestedMode (log : List Action) : Bool := (log.findSome? Action.registrationMode?).getD false

/-- The stack's protocol state, off at boot. -/
def protocolOn (log : List Action) : Bool := (log.findSome? Action.protocol?).getD false

/-- The last LED action. -/
def lastLed (log : List Action) : Option DectAction := log.findSome? Action.led?

/-- The core of a manager state. -/
def control (w : World) : Control where
  config := w.config.radio
  radio := w.status.radio
  regMode := w.status.regMode
  requested := requestedMode w.log
  protocol := protocolOn w.log
  led := lastLed w.log

@[simp] theorem control_config (w : World) : (control w).config = w.config.radio := rfl

@[simp] theorem control_radio (w : World) : (control w).radio = w.status.radio := rfl

@[simp] theorem control_regMode (w : World) : (control w).regMode = w.status.regMode := rfl

@[simp] theorem control_setRadio (radio : RegState) (h : radio = .disabled ∨ radio = .enabled)
    (w : World) : control (w.setRadio radio h) = { control w with radio } := rfl

@[simp] theorem control_setRegMode (regMode : RegState) (h : regMode ≠ .auto) (w : World) :
    control (w.setRegMode regMode h) = { control w with regMode } := rfl

/-- An action changes the core only through the flag, the protocol state or the
LED that it sets. -/
theorem control_record (a : Action) (w : World) :
    control (w.record a) =
      { control w with
        requested := a.registrationMode?.getD (control w).requested
        protocol := a.protocol?.getD (control w).protocol
        led := a.led? <|> (control w).led } := by
  simp only [control, World.record, requestedMode, protocolOn, lastLed, List.findSome?_cons]
  cases a.registrationMode? <;> cases a.protocol? <;> cases a.led? <;> rfl

/-- A request that is neither about the registration mode nor about the protocol
leaves the core alone. -/
theorem control_writeDect_of_none {m : Request}
    (hmode : (Action.writeDect m).registrationMode? = none)
    (hprot : (Action.writeDect m).protocol? = none) (w : World) :
    control (writeDect m w) = control w := by
  rw [writeDect, control_record, hmode, hprot]
  rfl

@[simp] theorem control_setHandset (t : HandsetTable) (w : World) :
    control (w.setHandset t) = control w := rfl

@[simp] theorem control_arm (callback : Callback) (usec : ℕ) (w : World) :
    control (w.arm callback usec) = control w := rfl

@[simp] theorem control_tick (w : World) : control (tick w) = control w := rfl

theorem control_controlLed (w : World) : control (controlLed w) = (control w).showLed := by
  unfold controlLed callHotplug Control.showLed ledAction
  by_cases hr : w.status.radio = .enabled
  · by_cases hm : w.status.regMode = .enabled
    · rw [if_pos hr, if_pos hm, control_record]
      simp [control, hr, hm, Action.registrationMode?, Action.protocol?, Action.led?]
    · rw [if_pos hr, if_neg hm, control_record]
      simp [control, hr, hm, Action.registrationMode?, Action.protocol?, Action.led?]
  · rw [if_neg hr, control_record]
    simp [control, hr, Action.registrationMode?, Action.protocol?, Action.led?]

theorem control_startProtocol (w : World) :
    control (startProtocol w) =
      ({ control w with radio := .enabled, protocol := true } : Control).showLed := by
  rw [startProtocol, control_controlLed, control_setRadio, writeDect, control_record]
  rfl

theorem control_stopProtocol (w : World) :
    control (stopProtocol w) =
      ({ control w with radio := .disabled, protocol := false } : Control).showLed := by
  rw [stopProtocol, control_controlLed, control_setRadio, writeDect, control_record]
  rfl

theorem control_dectRadio (enable : Bool) (w : World) :
    control (dectRadio enable w) = (control w).setRadio enable := by
  unfold dectRadio Control.setRadio
  rw [apply_ite control, apply_ite control, control_startProtocol, control_stopProtocol]
  rfl

@[simp] theorem control_initCfm (w : World) : control (initCfm w) = control w :=
  control_writeDect_of_none rfl rfl w

@[simp] theorem control_listHandsetsSchedule (w : World) :
    control (listHandsetsSchedule w) = control w := rfl

@[simp] theorem control_listHandsets (w : World) : control (listHandsets w) = control w :=
  control_writeDect_of_none rfl rfl w

/-- The end of an enumeration, at the table it leaves. -/
theorem control_perhapsDisableProtocol (w : World) :
    control (perhapsDisableProtocol w) =
      (control w).enumerated (decide (handsetCount w.status.handset > 0)) := by
  have hrec : control (w.record .perhapsDisableProtocol) = control w := by
    rw [control_record]
    rfl
  rw [perhapsDisableProtocol_eq]
  unfold Control.enumerated
  rw [control_controlLed, apply_ite control, control_dectRadio, hrec]
  rfl

@[simp] theorem control_uleStart (w : World) : control (uleStart w) = control w :=
  control_writeDect_of_none rfl rfl w

@[simp] theorem control_ulePvcConfigInd (terminalId : ℕ) (w : World) :
    control (ulePvcConfigInd terminalId w) = control w :=
  control_writeDect_of_none rfl rfl w

@[simp] theorem control_ulePvcDataPendingInd (terminalId : ℕ) (w : World) :
    control (ulePvcDataPendingInd terminalId w) = control w :=
  control_writeDect_of_none rfl rfl w

@[simp] theorem control_ulePvcDataIwuInd (terminalId length : ℕ) (infoElement : ℕ → UInt8)
    (w : World) : control (ulePvcDataIwuInd terminalId length infoElement w) = control w := by
  rw [ulePvcDataIwuInd, control_writeDect_of_none rfl rfl, control_writeDect_of_none rfl rfl]

@[simp] theorem control_uleDataReq (switchOn : ℕ) (w : World) :
    control (uleDataReq switchOn w) = control w := by
  rw [uleDataReq, control_writeDect_of_none rfl rfl]
  rfl

@[simp] theorem control_getHandsetIpui (handset : ℕ) (w : World) :
    control (getHandsetIpui handset w) = control w :=
  control_writeDect_of_none rfl rfl w

@[simp] theorem control_pingHandsetStop (handset : ℕ) (w : World) :
    control (pingHandsetStop handset w) = control w := by
  rw [pingHandsetStop_eq]
  split
  · rfl
  · split
    · rw [control_writeDect_of_none rfl rfl, control_setHandset]
    · rfl

@[simp] theorem control_setupCfm (callReference : CallReference) (w : World) :
    control (setupCfm callReference w) = control w := rfl

@[simp] theorem control_deleteHset (handset : ℕ) (w : World) :
    control (deleteHset handset w) = control w := by
  unfold deleteHset
  split
  · exact control_writeDect_of_none rfl rfl w
  · rfl

@[simp] theorem control_presentInd (handset : ℕ) (w : World) :
    control (presentInd handset w) = control w := by
  rw [presentInd_eq]
  split <;> rfl

@[simp] theorem control_deleteRegistrationCfm (handset : ℕ) (w : World) :
    control (deleteRegistrationCfm handset w) = control w := by
  rw [deleteRegistrationCfm_eq]
  split <;> rfl

@[simp] theorem control_connectInd (handset : ℕ) (w : World) :
    control (connectInd handset w) = control w := by
  rw [connectInd_eq]
  split
  · rfl
  · split <;> rfl

@[simp] theorem control_pingHandset (handset : ℕ) (w : World) :
    control (pingHandset handset w) = control w := by
  rw [pingHandset_eq]
  split
  · rfl
  · split
    · rfl
    · rw [control_arm, pingHandsetStart, control_writeDect_of_none rfl rfl]
      rfl

@[simp] theorem control_getStatus (w : World) : control (getStatus w) = control w := by
  rw [getStatus, control_record]
  rfl

theorem control_registerHandsetsStop (w : World) :
    control (registerHandsetsStop w) = (control w).close := by
  unfold registerHandsetsStop Control.close
  simp only [apply_ite control, writeDect, control_record, control_controlLed, control_setRegMode]
  rfl

theorem control_registerHandsetsStart (w : World) :
    control (registerHandsetsStart w) = (control w).openWindow := by
  unfold registerHandsetsStart Control.openWindow
  simp only [apply_ite control, writeDect, control_record, control_controlLed, control_setRegMode]
  rfl

theorem control_registration (w : World) :
    control (registration w) = (control w).registration := by
  unfold registration Control.registration
  simp only [apply_ite control, control_arm, control_setRegMode, control_dectRadio,
    control_registerHandsetsStart, control_config, control_radio, control_regMode]
  rfl

theorem control_registrationDelayedStart (w : World) :
    control (registrationDelayedStart w) = Move.apply (control w) .delayedStart := by
  unfold registrationDelayedStart Move.apply
  rw [apply_ite control, control_registration, control_regMode]

/-! ## The end of a handset enumeration -/

/-- An update that keeps the registered flags does not change what a read of
such a flag returns. -/
theorem read_modify_registered {f : Hset → Hset} (hf : ∀ h, (f h).registered = h.registered)
    (t : HandsetTable) (beyond : Hset) (i j : ℕ) :
    ((t.modify i f).read beyond j).registered = (t.read beyond j).registered := by
  unfold HandsetTable.read HandsetTable.modify
  by_cases hj : j < maxNrHandsets
  · rw [dif_pos hj, dif_pos hj]
    split
    · exact hf _
    · rfl
  · rw [dif_neg hj, dif_neg hj]

/-- An update that keeps the registered flags keeps their number. -/
theorem handsetCount_modify {f : Hset → Hset} (hf : ∀ h, (f h).registered = h.registered)
    (t : HandsetTable) (i : ℕ) : handsetCount (t.modify i f) = handsetCount t := by
  unfold handsetCount HandsetTable.modify
  congr 1
  funext k
  split
  · rw [hf]
  · rfl

/-- `handsetCount` is positive exactly when some entry is registered. -/
theorem handsetCount_pos_iff (t : HandsetTable) :
    handsetCount t > 0 ↔ ∃ i, (t i).registered ≠ 0 := by
  unfold handsetCount
  rw [gt_iff_lt, List.countP_pos_iff]
  simp

/-- A loop over the ids that meets no bad one has marked all of them; a first id
of zero is bad. -/
theorem markRegistered_finished_of_zero {m : RegistrationCountCfm} {t : HandsetTable}
    (hzero : m.terminalId 0 = 0) (hfin : (markRegistered m.ids t).2 = true) :
    m.terminalIdCount = 0 := by
  by_contra hne
  obtain ⟨n, hn⟩ := Nat.exists_eq_succ_of_ne_zero hne
  have hids : m.ids = 0 :: (List.range n).map fun i => m.terminalId (i + 1) := by
    rw [RegistrationCountCfm.ids, hn, List.range_succ_eq_map, List.map_cons, hzero, List.map_map]
    rfl
  rw [hids] at hfin
  simp [markRegistered_cons, badHandsetnr] at hfin

/-- The move that a count confirmation is: with an empty list it ends the
enumeration. -/
def countMove (m : RegistrationCountCfm) (t : HandsetTable) : Move :=
  if m.status = .success ∧ m.terminalIdCount = 0 ∧ m.terminalId 0 = 0 then
    .enumerated (decide (handsetCount t > 0))
  else .idle

/-- The move that an IPUI confirmation is: when the next entry is not registered
it ends the enumeration. -/
def ipuiMove (env : Env) (handset : ℕ) (t : HandsetTable) : Move :=
  if badHandsetnr handset = false ∧ (t.read env.beyond handset).registered ≠ true8 then
    .enumerated (decide (handsetCount t > 0))
  else .idle

theorem control_registrationCountCfm (m : RegistrationCountCfm) (w : World) :
    control (registrationCountCfm m w) =
      (countMove m w.status.handset).apply (control w) := by
  rw [registrationCountCfm_eq]
  unfold countMove
  by_cases hs : m.status = .success
  swap
  · rw [if_neg hs, if_neg (fun h => hs h.1)]
    rfl
  rw [if_pos hs]
  cases hfin : (markRegistered m.ids w.status.handset).2 with
  | false =>
      have hcount : m.terminalIdCount ≠ 0 := by
        intro h0
        simp [RegistrationCountCfm.ids, h0] at hfin
      rw [if_neg Bool.false_ne_true, if_neg (fun h => hcount h.2.1)]
      rfl
  | true =>
      rw [if_pos rfl]
      by_cases hzero : m.terminalId 0 > 0
      · rw [if_pos hzero, if_neg (fun h => by omega), control_getHandsetIpui]
        rfl
      · have hcount : m.terminalIdCount = 0 :=
          markRegistered_finished_of_zero (by omega) hfin
        have ht : (markRegistered m.ids w.status.handset).1 = w.status.handset := by
          simp [RegistrationCountCfm.ids, hcount]
        rw [if_neg hzero, if_pos ⟨hs, hcount, by omega⟩, control_perhapsDisableProtocol, ht]
        rfl

theorem control_handsetIpuiCfm (env : Env) (handset : ℕ) (ipui : Fin 5 → UInt8) (w : World) :
    control (handsetIpuiCfm env handset ipui w) =
      (ipuiMove env handset w.status.handset).apply (control w) := by
  rw [handsetIpuiCfm_eq]
  unfold ipuiMove
  have hkeep : ∀ h : Hset, ({ h with ipui } : Hset).registered = h.registered := fun _ => rfl
  cases hbad : badHandsetnr handset with
  | true =>
      rw [if_pos rfl, if_neg (fun h => by simp at h)]
      rfl
  | false =>
      simp only [Bool.false_eq_true, if_false, true_and]
      rw [World.setHandset, read_modify_registered hkeep]
      by_cases hnext : (w.status.handset.read env.beyond handset).registered = true8
      · rw [if_pos hnext, if_neg (not_not_intro hnext), control_getHandsetIpui]
        rfl
      · rw [if_neg hnext, if_pos hnext, control_perhapsDisableProtocol,
          handsetCount_modify hkeep]
        rfl

/-! ## The simulation -/

/-- The move that a client command is. -/
def clientMove (w : World) (type : UInt32) (data : UInt8) (env : Env) : Move :=
  match PacketType.ofCode type with
  | some .registration => .registration
  | some .radio => .radio (decide (data ≠ 0))
  | some .reloadConfig => ((loadCfgFile env).map Move.reload).getD .idle
  | some .init => if env.dectshim then .linuxInit else .idle
  | some .button =>
    if data ≠ 0 ∧ (w.config.radio = .enabled ∨ w.config.radio = .auto) then .registration
    else .idle
  | _ => .idle

/-- The move that a mail is. -/
def mailMove (w : World) (m : Mail) (env : Env) : Move :=
  match m with
  | .getHandsetIpuiCfm handset _ => ipuiMove env handset w.status.handset
  | .getRegistrationCountCfm m => countMove m w.status.handset
  | .registrationCompleteInd => .close
  | .featuresCfm => .features
  | _ => .idle

/-- The move that the expiry of a timer is. -/
def timerMove : Callback → Move
  | .registrationDelayedStart => .delayedStart
  | .registerHandsetsStop => .close
  | _ => .idle

/-- The move that an event is for a manager in state `w`. -/
def moveOf (w : World) : Event → Move
  | .client type data env => clientMove w type data env
  | .mail m env => mailMove w m env
  | .timeout t => timerMove t.callback

/-- The moves that a client command can be. -/
theorem clientMove_cases (w : World) (type : UInt32) (data : UInt8) (env : Env) :
    clientMove w type data env = .idle ∨ clientMove w type data env = .registration ∨
      (PacketType.ofCode type = some .radio ∧
        clientMove w type data env = .radio (decide (data ≠ 0))) ∨
      (∃ config, PacketType.ofCode type = some .reloadConfig ∧ loadCfgFile env = some config ∧
        clientMove w type data env = .reload config) ∨
      (PacketType.ofCode type = some .init ∧ env.dectshim = true ∧
        clientMove w type data env = .linuxInit) := by
  unfold clientMove
  cases htype : PacketType.ofCode type with
  | none => exact .inl rfl
  | some t =>
      cases t with
      | registration => exact .inr (.inl rfl)
      | radio => exact .inr (.inr (.inl ⟨rfl, rfl⟩))
      | reloadConfig =>
          cases hload : loadCfgFile env with
          | none => exact .inl rfl
          | some config => exact .inr (.inr (.inr (.inl ⟨config, rfl, rfl, rfl⟩)))
      | init =>
          dsimp only
          split_ifs with hopen
          · exact .inr (.inr (.inr (.inr ⟨rfl, hopen, rfl⟩)))
          · exact .inl rfl
      | button =>
          dsimp only
          split_ifs
          · exact .inr (.inl rfl)
          · exact .inl rfl
      | _ => exact .inl rfl

/-- The moves that a mail can be. -/
theorem mailMove_cases (w : World) (m : Mail) (env : Env) :
    mailMove w m env = .idle ∨ mailMove w m env = .close ∨ mailMove w m env = .features ∨
      ∃ any, mailMove w m env = .enumerated any := by
  cases m with
  | getHandsetIpuiCfm handset ipui =>
      simp only [mailMove, ipuiMove]
      split_ifs <;> simp
  | getRegistrationCountCfm m =>
      simp only [mailMove, countMove]
      split_ifs <;> simp
  | _ => simp [mailMove]

/-- The moves that the expiry of a timer can be. -/
theorem timerMove_cases (callback : Callback) :
    timerMove callback = .idle ∨ timerMove callback = .close ∨
      timerMove callback = .delayedStart := by
  cases callback <;> simp [timerMove]

/-- A reload that does not end the process puts a configuration in force. -/
theorem control_reloadConfig {env : Env} {w w' : World} (h : reloadConfig env w = some w') :
    ∃ config, loadCfgFile env = some config ∧ control w' = (control w).reload config := by
  obtain ⟨config, hload, rfl⟩ := Option.map_eq_some_iff.mp h
  refine ⟨config, hload, ?_⟩
  simp only [apply_ite control, control_listHandsetsSchedule, control_dectRadio, control_initCfm]
  rfl

/-- `dect_init` restarts the stack if the driver can be opened. -/
theorem control_dectInit {env : Env} {w w' : World} (h : dectInit env w = some w') :
    control w' = if env.dectshim then { control w with protocol := false } else control w := by
  unfold dectInit at h
  split at h
  · rename_i hopen
    obtain ⟨data, -, rfl⟩ := Option.map_eq_some_iff.mp h
    rw [if_pos hopen, writeDect, control_record]
    rfl
  · rename_i hopen
    obtain rfl : w = w' := by simpa using h
    rw [if_neg hopen]

theorem control_handleClientPacket {env : Env} {type : UInt32} {data : UInt8} {w w' : World}
    (h : handleClientPacket env type data w = some w') :
    control w' = (clientMove w type data env).apply (control w) := by
  unfold handleClientPacket at h
  unfold clientMove
  cases htype : PacketType.ofCode type with
  | none =>
      simp only [htype, Option.some.injEq] at h
      rw [← h]
      rfl
  | some t =>
      cases t <;> simp only [htype, Option.some.injEq] at h ⊢
      case reloadConfig =>
        obtain ⟨config, hload, hc⟩ := control_reloadConfig h
        rw [hc, hload]
        rfl
      case init =>
        rw [control_dectInit h]
        split <;> rfl
      case button =>
        split at h
        · rename_i hb
          obtain rfl : registration w = w' := by simpa using h
          rw [if_pos hb, control_registration]
          rfl
        · rename_i hb
          obtain rfl : w = w' := by simpa using h
          rw [if_neg hb]
          rfl
      case radio =>
        rw [← h, control_dectRadio]
        rfl
      case registration =>
        rw [← h, control_registration]
        rfl
      all_goals
        rw [← h]
        simp [Move.apply]

theorem control_handleDectPacket (env : Env) (m : Mail) (w : World) :
    control (handleDectPacket env m w) = (mailMove w m env).apply (control w) := by
  cases m with
  | getHandsetIpuiCfm handset ipui => exact control_handsetIpuiCfm env handset ipui w
  | getRegistrationCountCfm m => exact control_registrationCountCfm m w
  | registrationCompleteInd => exact control_registerHandsetsStop w
  | featuresCfm =>
      rw [handleDectPacket, control_listHandsets, apply_ite control, control_dectRadio]
      rfl
  | handsetPresentInd handset length =>
      rw [handleDectPacket, apply_ite control, control_initCfm, control_presentInd, ite_self]
      rfl
  | setRegistrationModeCfm =>
      rw [handleDectPacket, apply_ite control, control_initCfm, ite_self]
      rfl
  | _ => simp [handleDectPacket, mailMove, Move.apply]

/-- The core does not see which timers are pending. -/
@[simp] theorem control_setTimers (timers : List Timer) (w : World) :
    control { w with timers } = control w := rfl

theorem control_expire (callback : Callback) (w : World) :
    control (expire callback w) = (timerMove callback).apply (control w) := by
  cases callback with
  | initCfm => exact control_initCfm w
  | registrationDelayedStart => exact control_registrationDelayedStart w
  | registerHandsetsStop => exact control_registerHandsetsStop w
  | pingHandsetStop handset => exact control_pingHandsetStop handset w

/-- **The simulation.**  One step of the manager is one move of the core. -/
theorem control_step {w w' : World} {e : Event} (h : step w e = some w') :
    control w' = (moveOf w e).apply (control w) := by
  cases e with
  | client type data env =>
      obtain ⟨v, hv, rfl⟩ := Option.map_eq_some_iff.mp h
      rw [control_tick, control_handleClientPacket hv]
      rfl
  | mail m env =>
      obtain rfl : tick (handleDectPacket env m w) = w' := by simpa [step] using h
      rw [control_tick, control_handleDectPacket]
      rfl
  | timeout t =>
      simp only [step, Option.ite_none_right_eq_some, Option.some.injEq] at h
      obtain ⟨-, rfl⟩ := h
      rw [control_tick, control_expire, control_setTimers]
      rfl

end DectManager
