/-
# What the handlers are made of

Every handler of the manager is put together from a few operations, most of them
guarded by a variable: a start of the protocol is written while the radio is off,
a registration mode while it is on, a deletion once the features have been asked
for.  `Effect` is one such operation with its guard, and `effects_step` says that
what an event does is a sequence of them, for every event but `GET_STATUS`, which
sends a reply.

This is the control flow of the handlers, analysed once.  `invariant_step` is the
rule that it gives: what every effect keeps, every step keeps.
-/
import DectManager.Identities
import Mathlib.Logic.Relation

namespace DectManager

open Relation

/-! ## Effects -/

/-- The timer of a ping. -/
def Callback.isPing : Callback → Bool
  | .pingHandsetStop _ => true
  | _ => false

/-- A request that is written whatever the manager's variables say. -/
def Request.isFree : Request → Bool
  | .startProtocolReq | .stopProtocolReq => false
  | .featuresReq _ => false
  | .setRegistrationModeReq _ _ => false
  | .deleteRegistrationReq _ => false
  | .setupReq .. | .releaseReq .. => false
  | _ => true

/-- What is written to an entry of the handset table. -/
inductive EntryWrite
  | registered
  | present
  | identity (ipui : Fin 5 → UInt8)
  | deleted
  | ringing
  | silent

/-- The entry after the write. -/
def EntryWrite.apply (h : Hset) : EntryWrite → Hset
  | registered => { h with registered := true8 }
  | present => { h with present := true8 }
  | identity ipui => { h with ipui }
  | deleted => { h with registered := false8, present := false8 }
  | ringing => { h with pinging := true8 }
  | silent => { h with pinging := false8 }

/-- One operation of a handler, with what guards it. -/
inductive Effect : World → World → Prop
  /-- the hotplug script is only ever run for the LED -/
  | hotplug (a : DectAction) (w : World) (h : a = .ledOn ∨ a = .ledOff ∨ a = .ledBlink) :
      Effect w (callHotplug a w)
  | perhaps (w : World) : Effect w (w.record .perhapsDisableProtocol)
  | start (w : World) (h : w.status.radio = .disabled) :
      Effect w ((writeDect .startProtocolReq w).setRadio .enabled (.inr rfl))
  | stop (w : World) (h : w.status.radio = .enabled) :
      Effect w ((writeDect .stopProtocolReq w).setRadio .disabled (.inl rfl))
  | features (w : World) : Effect w (initCfm w)
  | mode (enabled delete : Bool) (w : World) (h : w.status.radio = .enabled) :
      Effect w (writeDect (.setRegistrationModeReq enabled delete) w)
  | delete (handset : ℕ) (w : World) (h : w.status.dectInit = true) :
      Effect w (writeDect (.deleteRegistrationReq handset) w)
  | write (m : Request) (w : World) (h : m.isFree = true) : Effect w (writeDect m w)
  /-- a call is set up and its timer armed -/
  | ping (handset : ℕ) (w : World) :
      Effect w ((pingHandsetStart handset w).arm (.pingHandsetStop handset) 20000000)
  /-- a ping timer fires and a call is released -/
  | release (t : Timer) (w : World) (ht : t ∈ w.timers) (hping : t.callback.isPing = true) :
      Effect w (writeDect (.releaseReq w.callReference .rrUnexpectedMessage 0)
        { w with timers := w.timers.erase t })
  | fire (t : Timer) (w : World) : Effect w { w with timers := w.timers.erase t }
  | arm (callback : Callback) (usec : ℕ) (w : World) (h : callback.isPing = false) :
      Effect w (w.arm callback usec)
  | regMode (regMode : RegState) (h : regMode ≠ .auto) (w : World) :
      Effect w (w.setRegMode regMode h)
  | entry (i : ℕ) (x : EntryWrite) (w : World) :
      Effect w (w.setHandset (w.status.handset.modify i fun h => x.apply h))
  | config (config : Config) (w : World) : Effect w { w with config }
  | callReference (callReference : CallReference) (w : World) : Effect w { w with callReference }
  | switchState (switchStateOn : ℕ) (w : World) : Effect w { w with switchStateOn }
  | tick (w : World) : Effect w (tick w)

/-- A sequence of effects. -/
abbrev Effects : World → World → Prop := ReflTransGen Effect

/-! ## The handlers -/

namespace Effects

variable {w v : World}

theorem hotplug {a : DectAction} (h : Effects w v) (ha : a = .ledOn ∨ a = .ledOff ∨ a = .ledBlink) :
    Effects w (callHotplug a v) :=
  h.tail (.hotplug a v ha)

theorem entry {i : ℕ} (x : EntryWrite) (h : Effects w v) :
    Effects w (v.setHandset (v.status.handset.modify i fun h => x.apply h)) :=
  h.tail (.entry i x v)

theorem write {m : Request} (h : Effects w v) (hm : m.isFree = true) : Effects w (writeDect m v) :=
  h.tail (.write m v hm)

theorem arm {callback : Callback} {usec : ℕ} (h : Effects w v) (hc : callback.isPing = false) :
    Effects w (v.arm callback usec) :=
  h.tail (.arm callback usec v hc)

theorem setRegMode {regMode : RegState} {hmode : regMode ≠ .auto} (h : Effects w v) :
    Effects w (v.setRegMode regMode hmode) :=
  h.tail (.regMode regMode hmode v)

theorem controlLed (h : Effects w v) : Effects w (controlLed v) := by
  unfold DectManager.controlLed
  split
  · split
    · exact h.hotplug (.inr (.inr rfl))
    · exact h.hotplug (.inl rfl)
  · exact h.hotplug (.inr (.inl rfl))

theorem dectRadio {enable : Bool} (h : Effects w v) : Effects w (dectRadio enable v) := by
  unfold DectManager.dectRadio
  split_ifs with hstart hstop
  · exact controlLed (h.tail (.start v hstart.2))
  · exact controlLed (h.tail (.stop v hstop.2))
  · exact h

theorem initCfm (h : Effects w v) : Effects w (initCfm v) := h.tail (.features v)

theorem perhapsDisableProtocol (h : Effects w v) : Effects w (perhapsDisableProtocol v) := by
  have hrecord : Effects w (v.record .perhapsDisableProtocol) := h.tail (.perhaps v)
  rw [perhapsDisableProtocol_eq]
  refine controlLed ?_
  split
  · exact hrecord.dectRadio
  · exact hrecord

theorem reloadConfig {env : Env} {w' : World} (h : Effects w v)
    (hw : reloadConfig env v = some w') : Effects w w' := by
  obtain ⟨config, -, rfl⟩ := Option.map_eq_some_iff.mp hw
  have hconfig : Effects w { v with config } := h.tail (.config config v)
  dsimp only
  split
  · exact hconfig.dectRadio.arm rfl
  · split
    · exact hconfig.initCfm
    · exact hconfig.dectRadio

theorem pingHandset {handset : ℕ} (h : Effects w v) : Effects w (pingHandset handset v) := by
  rw [pingHandset_eq]
  split
  · exact h
  · split
    · exact h
    · exact (h.entry .ringing).tail (.ping handset _)

/-- The loop of `registration_count_cfm` writes one entry after the other. -/
theorem markRegistered {ids : List ℕ} (h : Effects w v) :
    Effects w (v.setHandset (markRegistered ids v.status.handset).1) := by
  induction ids generalizing v with
  | nil => exact h
  | cons handset ids ih =>
      rw [markRegistered_cons]
      split
      · exact h
      · exact ih (h.entry (i := handset - 1) .registered)

theorem registrationCountCfm {m : RegistrationCountCfm} (h : Effects w v) :
    Effects w (registrationCountCfm m v) := by
  rw [registrationCountCfm_eq]
  split
  · split
    · split
      · exact h.markRegistered.write rfl
      · exact h.markRegistered.perhapsDisableProtocol
    · exact h.markRegistered
  · exact h

/-- The expiry of a ping timer. -/
theorem pingHandsetStop {t : Timer} {handset : ℕ} (h : Effects w v) (ht : t ∈ v.timers)
    (hping : t.callback.isPing = true) :
    Effects w (pingHandsetStop handset { v with timers := v.timers.erase t }) := by
  rw [pingHandsetStop_eq]
  split
  · exact h.tail (.fire t v)
  · split
    · exact entry .silent (h.tail (.release t v ht hping))
    · exact h.tail (.fire t v)

theorem registerHandsetsStart (h : Effects w v) : Effects w (registerHandsetsStart v) := by
  unfold DectManager.registerHandsetsStart
  split
  · rename_i hon
    refine h.setRegMode.controlLed.tail (.mode true false _ ?_)
    rw [DectManager.controlLed]
    split_ifs <;> exact hon
  · exact h

theorem dectInit {env : Env} {w' : World} (h : Effects w v) (hw : dectInit env v = some w') :
    Effects w w' := by
  unfold DectManager.dectInit at hw
  split at hw
  · obtain ⟨data, -, rfl⟩ := Option.map_eq_some_iff.mp hw
    exact h.write rfl
  · rw [← Option.some.inj hw]
    exact h

theorem registerHandsetsStop (h : Effects w v) : Effects w (registerHandsetsStop v) := by
  unfold DectManager.registerHandsetsStop
  dsimp only
  split
  · rename_i hon
    refine h.setRegMode.controlLed.tail (.mode false false _ ?_)
    rw [DectManager.controlLed]
    split_ifs <;> exact hon
  · exact h.setRegMode.controlLed

theorem deleteHset {handset : ℕ} (h : Effects w v) : Effects w (deleteHset handset v) := by
  unfold DectManager.deleteHset
  split
  · rename_i hinit
    exact h.tail (.delete handset v hinit)
  · exact h

theorem presentInd {handset : ℕ} (h : Effects w v) : Effects w (presentInd handset v) := by
  rw [presentInd_eq]
  split
  · exact h
  · exact h.entry .present

theorem deleteRegistrationCfm {handset : ℕ} (h : Effects w v) :
    Effects w (deleteRegistrationCfm handset v) := by
  rw [deleteRegistrationCfm_eq]
  split
  · exact h
  · exact h.entry .deleted

theorem connectInd {handset : ℕ} (h : Effects w v) : Effects w (connectInd handset v) := by
  rw [connectInd_eq]
  split
  · exact h
  · split
    · exact h.entry .silent
    · exact h

theorem handsetIpuiCfm {env : Env} {handset : ℕ} {ipui : Fin 5 → UInt8} (h : Effects w v) :
    Effects w (handsetIpuiCfm env handset ipui v) := by
  rw [handsetIpuiCfm_eq]
  split
  · exact h
  · have hentry := h.entry (i := handset - 1) (.identity ipui)
    split
    · exact hentry.write rfl
    · exact hentry.perhapsDisableProtocol

theorem registration (h : Effects w v) : Effects w (registration v) := by
  unfold DectManager.registration
  split
  · exact h
  · split
    · exact h.dectRadio.setRegMode.arm rfl
    · split
      · exact h.registerHandsetsStart.arm rfl
      · exact h

theorem uleDataReq {switchOn : ℕ} (h : Effects w v) : Effects w (uleDataReq switchOn v) :=
  write (h.tail (.switchState (switchData switchOn v.switchStateOn).2 v)) rfl

/-! ## Dispatch -/

theorem handleClientPacket {env : Env} {type : UInt32} {data : UInt8} {w' : World}
    (htype : type ≠ PacketType.getStatus.code)
    (hw : handleClientPacket env type data w = some w') : Effects w w' := by
  have h : Effects w w := .refl
  unfold DectManager.handleClientPacket at hw
  cases hcode : PacketType.ofCode type with
  | none =>
      simp only [hcode, Option.some.injEq] at hw
      exact hw ▸ h
  | some t =>
      cases t <;> simp only [hcode, Option.some.injEq] at hw
      case getStatus => exact absurd ((PacketType.ofCode_eq_some_iff type _).mp hcode) htype
      case registration => exact hw ▸ h.registration
      case pingHset => exact hw ▸ h.pingHandset
      case zwitch => exact hw ▸ h.uleDataReq
      case radio => exact hw ▸ h.dectRadio
      case reloadConfig => exact h.reloadConfig hw
      case deleteHset => exact hw ▸ h.deleteHset
      case listHandsets => exact hw ▸ h.initCfm
      case uleStart => exact hw ▸ h.write rfl
      case init => exact h.dectInit hw
      case button =>
        split at hw
        · exact Option.some.inj hw ▸ h.registration
        · exact Option.some.inj hw ▸ h
      all_goals exact hw ▸ h

theorem handleDectPacket (env : Env) (m : Mail) : Effects w (handleDectPacket env m w) := by
  have h : Effects w w := .refl
  cases m with
  | connectInd fp => exact h.connectInd
  | handsetPresentInd handset length =>
      simp only [DectManager.handleDectPacket]
      split
      · exact h.presentInd.initCfm
      · exact h.presentInd
  | setRegistrationModeCfm =>
      simp only [DectManager.handleDectPacket]
      split
      · exact h.initCfm
      · exact h
  | getHandsetIpuiCfm handset ipui => exact h.handsetIpuiCfm
  | getRegistrationCountCfm c => exact h.registrationCountCfm
  | deleteRegistrationCfm handset => exact h.deleteRegistrationCfm.arm rfl
  | registrationCompleteInd => exact h.registerHandsetsStop
  | linuxInitCfm => exact h.initCfm.write rfl
  | featuresCfm =>
      refine write ?_ rfl
      split
      · exact h.dectRadio
      · exact h
  | setupCfm callReference status => exact h.tail (.callReference callReference w)
  | ulePvcConfigInd terminalId => exact h.write rfl
  | ulePvcPendingInd terminalId => exact h.write rfl
  | ulePvcIwuDataInd terminalId length infoElement => exact (h.write rfl).write rfl
  | _ => exact h

theorem expire {t : Timer} (ht : t ∈ w.timers) :
    Effects w (expire t.callback { w with timers := w.timers.erase t }) := by
  have h : Effects w { w with timers := w.timers.erase t } := .single (.fire t w)
  cases hcb : t.callback with
  | initCfm => exact h.initCfm
  | registrationDelayedStart =>
      simp only [DectManager.expire, registrationDelayedStart]
      split
      · exact h.registration
      · exact h
  | registerHandsetsStop => exact h.registerHandsetsStop
  | pingHandsetStop handset => exact pingHandsetStop .refl ht (by rw [hcb]; rfl)

end Effects

/-! ## One step -/

/-- **A step is a sequence of effects**, unless it answers `GET_STATUS`. -/
theorem effects_step {w w' : World} {e : Event} (he : ¬ AsksStatus e) (h : step w e = some w') :
    Effects w w' := by
  have htick {v : World} (hv : Effects w v) : Effects w (tick v) := hv.tail (.tick v)
  cases e with
  | client type data env =>
      obtain ⟨v, hv, rfl⟩ := Option.map_eq_some_iff.mp h
      exact htick (Effects.handleClientPacket he hv)
  | mail m env =>
      obtain rfl : tick (handleDectPacket env m w) = w' := by simpa [step] using h
      exact htick (Effects.handleDectPacket env m)
  | timeout t =>
      simp only [step, Option.ite_none_right_eq_some, Option.some.injEq] at h
      obtain ⟨ht, rfl⟩ := h
      exact htick (Effects.expire ht)

/-- What every effect keeps, a sequence of them keeps. -/
theorem invariant_effects {P : World → Prop} (hP : ∀ w w', Effect w w' → P w → P w') {w w' : World}
    (h : Effects w w') (hw : P w) : P w' := by
  induction h with
  | refl => exact hw
  | tail _ heffect ih => exact hP _ _ heffect ih

/-- **The invariant rule of the manager.**  What every effect keeps, and a reply to `GET_STATUS`
too, every step keeps. -/
theorem invariant_step {P : World → Prop} (hP : ∀ w w', Effect w w' → P w → P w')
    (hreply : ∀ w, P w → P (getStatus w)) {w w' : World} {e : Event} (hw : P w)
    (h : step w e = some w') : P w' := by
  by_cases he : AsksStatus e
  · cases e with
    | client type data env =>
        obtain ⟨v, hv, rfl⟩ := Option.map_eq_some_iff.mp h
        have hcode := (PacketType.ofCode_eq_some_iff type .getStatus).mpr he
        simp only [handleClientPacket, hcode, Option.some.injEq] at hv
        rw [← hv]
        exact hP _ _ (.tick _) (hreply w hw)
    | _ => exact he.elim
  · exact invariant_effects hP (effects_step he h) hw

end DectManager
