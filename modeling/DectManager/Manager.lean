/-
# The manager `dectmngr.c`

The manager is one process that reacts to three kinds of events: a client
command, a mail from the stack, the expiry of a timer.  `World` holds its
global variables, its pending timers and, as history variables that no handler
reads, the actions taken so far (`log`, newest first) and the number of events
processed (`clock`).  The functions keep the names and the order of the source;
`step` processes one event, and `none` means that the process has exited.

A handler that works on `status.handset` is a program over the table: it says at
which C indices the handler reads and stores, behind which checks, and returns
the rest of the handler.  `serve` runs it; a lemma beside each handler says what
it comes to.

What the surroundings supply while a handler runs (files, uninitialised memory,
the memory behind the handset table) is the `Env` of the event.  Standard output
is not modelled.
-/
import DectManager.Mails
import DectManager.TablePrograms

namespace DectManager

open TablePrograms

/-! ## State -/

/-- The functions that the manager arms as one-shot timers. -/
inductive Callback
  | initCfm
  | registrationDelayedStart
  | registerHandsetsStop
  | pingHandsetStop (handset : ℕ)
  deriving DecidableEq, Repr

/-- A pending timer: what it will call and after how many microseconds.  `armed`
is the number of events that had been processed when it was armed; with the
callback it tells the pending timers apart, as their addresses do in C. -/
structure Timer where
  callback : Callback
  usec : ℕ
  armed : ℕ
  deriving DecidableEq, Repr

/-- What the manager does that others can see, and the calls of
`perhaps_disable_protocol`. -/
inductive Action
  | writeDect (m : Request)
  | callHotplug (a : DectAction)
  | sendStatus (s : Status)
  | perhapsDisableProtocol

/-- The globals of `dectmngr.c`, its timers and the history of the run. -/
structure World where
  status : Status
  config : Config
  callReference : CallReference
  switchStateOn : ℕ
  timers : List Timer
  log : List Action
  clock : ℕ

/-- What the surroundings supply to one event. -/
structure Env where
  /-- does `ucix_init("dect")` find the configuration -/
  uciContext : Bool
  /-- the option `dect.dect.radio`, if it is set -/
  radioOption : Option String
  /-- can `/dev/dectshim` be opened -/
  dectshim : Bool
  /-- what `read` returns of `/etc/dect/nvs`; `none` if a call on the file fails -/
  nvs : Option (List UInt8)
  /-- what freshly allocated memory holds -/
  heap : ℕ → UInt8
  /-- what lies behind the last entry of the handset table -/
  beyond : Hset

/-- Surroundings that supply nothing. -/
def Env.none : Env := ⟨false, .none, false, .none, fun _ => 0, .zero⟩

namespace World

/-- Append to the history. -/
def record (a : Action) (w : World) : World := { w with log := a :: w.log }

/-- Store to `status.radio`. -/
def setRadio (radio : RegState) (h : radio = .disabled ∨ radio = .enabled) (w : World) : World :=
  { w with status := { w.status with radio, radio_binary := h } }

/-- Store to `status.reg_mode`. -/
def setRegMode (regMode : RegState) (h : regMode ≠ .auto) (w : World) : World :=
  { w with status := { w.status with regMode, regMode_ne_auto := h } }

/-- Store to the handset table. -/
def setHandset (t : HandsetTable) (w : World) : World :=
  { w with status := { w.status with handset := t } }

/-- `event_new` and `event_add` of a one-shot timer. -/
def arm (callback : Callback) (usec : ℕ) (w : World) : World :=
  { w with timers := ⟨callback, usec, w.clock⟩ :: w.timers }

/-- Run a handler that works on the handset table, and then the rest of it. -/
def serve (beyond : Hset) (p : TableProgram Hset (World → World)) (w : World) : World :=
  let r := p.run beyond w.status.handset
  r.1 (w.setHandset r.2)

theorem serve_read (beyond : Hset) (i : ℤ) (k : Hset → TableProgram Hset (World → World))
    (w : World) :
    w.serve beyond (.read i k) = w.serve beyond (k (readAt w.status.handset beyond i)) := rfl

theorem serve_store (beyond : Hset) (i : ℤ) (f : Hset → Hset)
    (p : TableProgram Hset (World → World)) (w : World) :
    w.serve beyond (.store i f p) =
      (w.setHandset (storeAt w.status.handset i f)).serve beyond p := rfl

theorem serve_bind {α : Type} (beyond : Hset) (p : TableProgram Hset α)
    (q : α → TableProgram Hset (World → World)) (w : World) :
    w.serve beyond (p.bind q) = (w.setHandset (p.run beyond w.status.handset).2).serve beyond
      (q (p.run beyond w.status.handset).1) := by
  rw [serve, TableProgram.run_bind]
  rfl

end World

open World

/-! ## Indices of the handset table -/

/-- The check that the handlers make of an id before they use it. -/
def badHandsetnr (handset : ℕ) : Bool := handset ≤ 0 || handset > maxNrHandsets

/-- A read at the index of an entry. -/
theorem readAt_own {handset : ℕ} (h : ¬ badHandsetnr handset = true) (t : HandsetTable)
    (beyond : Hset) : readAt t beyond (handset - 1) = t.read beyond (handset - 1) := by
  simp only [badHandsetnr, Bool.or_eq_true, decide_eq_true_eq, not_or] at h
  have hin : Inside maxNrHandsets (handset - 1) := ⟨by omega, by omega⟩
  have hlt : handset - 1 < maxNrHandsets := by omega
  have hnat : ((handset : ℤ) - 1).toNat = handset - 1 := by omega
  rw [readAt, dif_pos hin, HandsetTable.read, dif_pos hlt]
  exact congrArg t (Fin.ext hnat)

/-- A read at the index behind it. -/
theorem readAt_next (handset : ℕ) (t : HandsetTable) (beyond : Hset) :
    readAt t beyond handset = t.read beyond handset := by
  rw [readAt, HandsetTable.read]
  by_cases hlt : handset < maxNrHandsets
  · have hin : Inside maxNrHandsets handset := ⟨by omega, by omega⟩
    rw [dif_pos hin, dif_pos hlt]
    rfl
  · have hout : ¬ Inside maxNrHandsets handset := fun hin => hlt (Int.ofNat_lt.mp hin.2)
    rw [dif_neg hlt, dif_neg hout]

/-- A store at the index of an entry. -/
theorem storeAt_own {handset : ℕ} (h : ¬ badHandsetnr handset = true) (t : HandsetTable)
    (f : Hset → Hset) : storeAt t (handset - 1) f = t.modify (handset - 1) f := by
  simp only [badHandsetnr, Bool.or_eq_true, decide_eq_true_eq, not_or] at h
  funext k
  have hindex : (k.val : ℤ) = handset - 1 ↔ k.val = handset - 1 := by omega
  simp only [storeAt, HandsetTable.modify, hindex]

/-! ## Writing to the stack and to the hotplug script -/

def writeDect (m : Request) : World → World := record (.writeDect m)

def callHotplug (a : DectAction) : World → World := record (.callHotplug a)

def controlLed (w : World) : World :=
  if w.status.radio = .enabled then
    if w.status.regMode = .enabled then callHotplug .ledBlink w else callHotplug .ledOn w
  else callHotplug .ledOff w

def startProtocol (w : World) : World :=
  controlLed ((writeDect .startProtocolReq w).setRadio .enabled (.inr rfl))

def stopProtocol (w : World) : World :=
  controlLed ((writeDect .stopProtocolReq w).setRadio .disabled (.inl rfl))

def dectRadio (enable : Bool) (w : World) : World :=
  if enable ∧ w.status.radio = .disabled then startProtocol w
  else if ¬ enable ∧ w.status.radio = .enabled then stopProtocol w
  else w

def initCfm (w : World) : World :=
  let w := writeDect (.featuresReq .extendedTerminalIdSupport) w
  { w with status := { w.status with dectInit := true } }

def listHandsetsSchedule : World → World := arm .initCfm 1250000

def listHandsets : World → World := writeDect (.getRegistrationCountReq 0)

/-- `handsetCount` of `perhaps_disable_protocol`. -/
def handsetCount (t : HandsetTable) : ℕ :=
  (List.finRange maxNrHandsets).countP fun i => decide ((t i).registered ≠ 0)

/-- The loop of `perhaps_disable_protocol` over the entries from 0 on. -/
def countRegistered (count : ℕ) : List ℕ → TableProgram Hset ℕ
  | [] => .done count
  | i :: is => .read i fun h => countRegistered (if h.registered ≠ 0 then count + 1 else count) is

def perhapsDisableProtocolProgram (radio : RegState) : TableProgram Hset (World → World) :=
  if radio = .auto then
    (countRegistered 0 (List.range maxNrHandsets)).bind fun count =>
      .done fun w => controlLed (dectRadio (decide (count > 0)) (record .perhapsDisableProtocol w))
  else .done fun w => controlLed (record .perhapsDisableProtocol w)

def perhapsDisableProtocol (w : World) : World :=
  w.serve .zero (perhapsDisableProtocolProgram w.config.radio)

/-- The loop counts what it reads, and stores nothing. -/
theorem run_countRegistered (beyond : Hset) (is : List ℕ) (t : HandsetTable) (count : ℕ) :
    (countRegistered count is).run beyond t =
      (count + is.countP fun i => decide ((t.read beyond i).registered ≠ 0), t) := by
  induction is generalizing count with
  | nil => rfl
  | cons i is ih =>
      rw [countRegistered, TableProgram.run, ih, readAt_next, List.countP_cons]
      simp only [decide_eq_true_eq]
      split_ifs
      · rw [Nat.add_assoc, Nat.add_comm 1]
      · rfl

/-- It counts the whole table, whatever lies behind it. -/
theorem run_countRegistered_table (beyond : Hset) (t : HandsetTable) :
    (countRegistered 0 (List.range maxNrHandsets)).run beyond t = (handsetCount t, t) := by
  have hrange : List.range maxNrHandsets = (List.finRange maxNrHandsets).map Fin.val := by decide
  rw [run_countRegistered, Nat.zero_add, handsetCount, hrange, List.countP_map]
  simp only [Function.comp_def, HandsetTable.read_val]

/-- At the end of a handler. -/
theorem serve_perhapsDisableProtocol (beyond : Hset) (w : World) :
    w.serve beyond (perhapsDisableProtocolProgram w.config.radio) = perhapsDisableProtocol w := by
  unfold perhapsDisableProtocol perhapsDisableProtocolProgram
  split
  · rw [serve_bind, serve_bind, run_countRegistered_table, run_countRegistered_table]
    rfl
  · rfl

/-- What it comes to. -/
theorem perhapsDisableProtocol_eq (w : World) :
    perhapsDisableProtocol w = controlLed
      (if w.config.radio = .auto then
        dectRadio (decide (handsetCount w.status.handset > 0)) (record .perhapsDisableProtocol w)
      else record .perhapsDisableProtocol w) := by
  unfold perhapsDisableProtocol perhapsDisableProtocolProgram
  split
  · rw [serve_bind, run_countRegistered_table]
    rfl
  · rfl

/-! ## Configuration -/

/-- `none` is a call of `exit_failure`, or a missing option (`strcmp` of `NULL`). -/
def loadCfgFile (env : Env) : Option Config :=
  if env.uciContext then
    match env.radioOption with
    | some "on" => some ⟨.enabled, by decide⟩
    | some "off" => some ⟨.disabled, by decide⟩
    | some "auto" => some ⟨.auto, by decide⟩
    -- an unknown value, or none at all
    | _ => none
  else none

def reloadConfig (env : Env) (w : World) : Option World :=
  (loadCfgFile env).map fun config =>
    let w := { w with config }
    if config.radio = .enabled then listHandsetsSchedule (dectRadio true w)
    else if config.radio = .auto then initCfm w
    else dectRadio false w

/-! ## ULE -/

def uleStart : World → World := writeDect (.uleInitReq 4)

def ulePvcConfigInd (terminalId : ℕ) : World → World :=
  writeDect (.ulePvcConfigRes terminalId .ulePpInitiator .uleMtuSizeMax .uleMtuSizeMax
    .uleMtuLifetimeDefault .uleWindowSizeDefault 1 (.uleProtocolFun1, .uleProtocolVersion0, 0))

def ulePvcDataPendingInd (terminalId : ℕ) : World → World :=
  writeDect (.ulePvcPendingRes terminalId .uleErrNoError 1 (.ulePagingCh, 17, 2))

def ulePvcDataIwuInd (terminalId infoElementLength : ℕ) (infoElement : ℕ → UInt8) (w : World) :
    World :=
  writeDect (.ulePvcPendingRes terminalId .uleErrNoError 1 (.ulePagingCh, 17, 2))
    (writeDect (.ulePvcIwuDataReq terminalId infoElementLength
      ((List.range infoElementLength).map infoElement)) w)

/-- `switch_timer_p`, `switch_on_p` and `switch_off_p` of `ule_data_req`. -/
def switchTimerP : List UInt8 := [0x18, 0x45, 0, 0xff, 0] ++ List.replicate 14 0
def switchOnP : List UInt8 := [0x31, 0x45, 0, 1, 1] ++ List.replicate 14 0
def switchOffP : List UInt8 := [0x31, 0x45, 0, 1, 0] ++ List.replicate 14 0

/-- What `ule_data_req` copies to `Data`, and the `switch_state_on` it leaves. -/
def switchData (switchOn switchStateOn : ℕ) : List UInt8 × ℕ :=
  if switchOn = 1 then (switchOnP, 1)
  else if switchOn = 0 then (switchOffP, 0)
  else if switchOn = 2 then (switchTimerP, switchStateOn)
  else (List.replicate 19 0, switchStateOn)

def uleDataReq (switchOn : ℕ) (w : World) : World :=
  let r := switchData switchOn w.switchStateOn
  writeDect (.uleDataReq 7 (1 <<< 7 ||| 2) 20 r.1) { w with switchStateOn := r.2 }

/-! ## Handsets -/

def pingHandsetStart (handset : ℕ) (w : World) : World :=
  let w := { w with callReference := ⟨0, 0, 1⟩ }
  writeDect (.setupReq w.callReference handset ⟨.ieaInt, 0⟩ .basicSpeech .ccNormal
    .ccSignalAlertOnPattern2 0) w

def getHandsetIpui (handset : ℕ) : World → World := writeDect (.getHandsetIpuiReq handset)

/-- The loop of `registration_count_cfm`; the result is whether it ran to its end, or
`return`ed at a bad id. -/
def markProgram : List ℕ → TableProgram Hset Bool
  | [] => .done true
  | handset :: ids =>
    -- what has been marked so far stays marked
    if badHandsetnr handset then .done false
    else .store (handset - 1) (fun h => { h with registered := true8 }) (markProgram ids)

def registrationCountCfmProgram (m : RegistrationCountCfm) (radio : RegState) :
    TableProgram Hset (World → World) :=
  if m.status = .success then
    (markProgram m.ids).bind fun finished =>
      if finished then
        -- the first element is read whatever the count
        if m.terminalId 0 > 0 then .done (getHandsetIpui (m.terminalId 0))
        else perhapsDisableProtocolProgram radio
      else .done id
  else .done id

def registrationCountCfm (m : RegistrationCountCfm) (w : World) : World :=
  w.serve .zero (registrationCountCfmProgram m w.config.radio)

/-- The table that the loop leaves, and whether it ran to its end. -/
def markRegistered (ids : List ℕ) (t : HandsetTable) : HandsetTable × Bool :=
  ((markProgram ids).run .zero t).swap

@[simp] theorem markRegistered_nil (t : HandsetTable) : markRegistered [] t = (t, true) := rfl

theorem markRegistered_cons (handset : ℕ) (ids : List ℕ) (t : HandsetTable) :
    markRegistered (handset :: ids) t =
      if badHandsetnr handset then (t, false)
      else markRegistered ids (t.modify (handset - 1) fun h => { h with registered := true8 }) := by
  show ((markProgram (handset :: ids)).run .zero t).swap = _
  rw [markProgram]
  split
  · rfl
  · rename_i hgood
    rw [TableProgram.run, storeAt_own hgood]
    rfl

theorem registrationCountCfm_eq (m : RegistrationCountCfm) (w : World) :
    registrationCountCfm m w =
      if m.status = .success then
        if (markRegistered m.ids w.status.handset).2 then
          if m.terminalId 0 > 0 then
            getHandsetIpui (m.terminalId 0)
              (w.setHandset (markRegistered m.ids w.status.handset).1)
          else perhapsDisableProtocol (w.setHandset (markRegistered m.ids w.status.handset).1)
        else w.setHandset (markRegistered m.ids w.status.handset).1
      else w := by
  unfold registrationCountCfm registrationCountCfmProgram
  split
  · rw [serve_bind]
    show serve _ _ (w.setHandset (markRegistered m.ids w.status.handset).1) = _
    show World.serve _ (if (markRegistered m.ids w.status.handset).2 then _ else _) _ = _
    split_ifs <;> rfl
  · rfl

/-- The test of the flag that `ping_handset_stop` and `connect_ind` make; it is cleared if it is
set, and then the rest follows. -/
def hangUpProgram (handset : ℕ) (rest : World → World) : TableProgram Hset (World → World) :=
  if badHandsetnr handset then .done id
  else .read (handset - 1) fun h =>
    if h.pinging = true8 then
      .store (handset - 1) (fun h => { h with pinging := false8 }) (.done rest)
    else .done id

theorem serve_hangUp (handset : ℕ) (rest : World → World) (w : World) :
    w.serve .zero (hangUpProgram handset rest) =
      if badHandsetnr handset then w
      else if (w.status.handset.read .zero (handset - 1)).pinging = true8 then
        rest (w.setHandset (w.status.handset.modify (handset - 1) fun h =>
          { h with pinging := false8 }))
      else w := by
  unfold hangUpProgram
  split
  · rfl
  · rename_i hgood
    rw [serve_read, readAt_own hgood]
    split
    · rw [serve_store, storeAt_own hgood]
      rfl
    · rfl

def pingHandsetStopProgram (handset : ℕ) : TableProgram Hset (World → World) :=
  hangUpProgram handset fun w =>
    writeDect (.releaseReq w.callReference .rrUnexpectedMessage 0) w

def pingHandsetStop (handset : ℕ) : World → World := serve .zero (pingHandsetStopProgram handset)

theorem pingHandsetStop_eq (handset : ℕ) (w : World) :
    pingHandsetStop handset w =
      if badHandsetnr handset then w
      else if (w.status.handset.read .zero (handset - 1)).pinging = true8 then
        writeDect (.releaseReq w.callReference .rrUnexpectedMessage 0)
          (w.setHandset (w.status.handset.modify (handset - 1) fun h =>
            { h with pinging := false8 }))
      else w :=
  serve_hangUp handset _ w

def setupCfm (callReference : CallReference) (w : World) : World := { w with callReference }

def registerHandsetsStart (w : World) : World :=
  if w.status.radio = .enabled then
    writeDect (.setRegistrationModeReq true false) (controlLed (w.setRegMode .enabled (by decide)))
  else w

/-- `DECT_NVS_SIZE` -/
def dectNvsSize : ℕ := 4096

/-- The buffer that `nvs_get_data` leaves: what was read, then what the
allocation happened to hold. -/
def nvsGetData (env : Env) : Option (List UInt8) :=
  env.nvs.map fun bytes =>
    (List.range dectNvsSize).map fun i => (bytes[i]?).getD (env.heap i)

def dectInit (env : Env) (w : World) : Option World :=
  if env.dectshim then
    (nvsGetData env).map fun data => writeDect (.linuxInitReq dectNvsSize data) w
  else some w

def registerHandsetsStop (w : World) : World :=
  let w := w.setRegMode .disabled (by decide)
  if w.status.radio = .enabled then
    writeDect (.setRegistrationModeReq false false) (controlLed w)
  else controlLed w

def deleteHset (handset : ℕ) (w : World) : World :=
  if w.status.dectInit then writeDect (.deleteRegistrationReq handset) w else w

def presentIndProgram (handset : ℕ) : TableProgram Hset (World → World) :=
  if badHandsetnr handset then .done id
  else .store (handset - 1) (fun h => { h with present := true8 }) (.done id)

def presentInd (handset : ℕ) : World → World := serve .zero (presentIndProgram handset)

theorem presentInd_eq (handset : ℕ) (w : World) :
    presentInd handset w =
      if badHandsetnr handset then w
      else w.setHandset (w.status.handset.modify (handset - 1) fun h =>
        { h with present := true8 }) := by
  unfold presentInd presentIndProgram
  split
  · rfl
  · rename_i hgood
    rw [serve_store, storeAt_own hgood]
    rfl

def deleteRegistrationCfmProgram (handset : ℕ) : TableProgram Hset (World → World) :=
  if badHandsetnr handset then .done id
  else
    .store (handset - 1) (fun h => { h with registered := false8 }) <|
      .store (handset - 1) (fun h => { h with present := false8 }) (.done id)

def deleteRegistrationCfm (handset : ℕ) : World → World :=
  serve .zero (deleteRegistrationCfmProgram handset)

theorem deleteRegistrationCfm_eq (handset : ℕ) (w : World) :
    deleteRegistrationCfm handset w =
      if badHandsetnr handset then w
      else w.setHandset (w.status.handset.modify (handset - 1)
        fun h => { h with registered := false8, present := false8 }) := by
  unfold deleteRegistrationCfm deleteRegistrationCfmProgram
  split
  · rfl
  · rename_i hgood
    rw [← storeAt_own hgood, ← storeAt_storeAt w.status.handset _
      (fun h => { h with registered := false8 }) fun h => { h with present := false8 }]
    rfl

def connectIndProgram (handset : ℕ) : TableProgram Hset (World → World) := hangUpProgram handset id

def connectInd (handset : ℕ) : World → World := serve .zero (connectIndProgram handset)

theorem connectInd_eq (handset : ℕ) (w : World) :
    connectInd handset w =
      if badHandsetnr handset then w
      else if (w.status.handset.read .zero (handset - 1)).pinging = true8 then
        w.setHandset (w.status.handset.modify (handset - 1) fun h => { h with pinging := false8 })
      else w :=
  serve_hangUp handset id w

/-- The loop of `handset_ipui_cfm` stores one byte after the other. -/
def storeIpui (handset : ℕ) (ipui : Fin 5 → UInt8) (next : TableProgram Hset (World → World)) :
    TableProgram Hset (World → World) :=
  (List.finRange 5).foldr
    (fun i => .store (handset - 1) fun h => { h with ipui := Function.update h.ipui i (ipui i) })
    next

def handsetIpuiCfmProgram (handset : ℕ) (ipui : Fin 5 → UInt8) (radio : RegState) :
    TableProgram Hset (World → World) :=
  if badHandsetnr handset then .done id
  else storeIpui handset ipui <|
    -- the C index is `handset`, one past the handset's own entry
    .read handset fun next =>
      if next.registered = true8 then .done (getHandsetIpui (handset + 1))
      else perhapsDisableProtocolProgram radio

def handsetIpuiCfm (env : Env) (handset : ℕ) (ipui : Fin 5 → UInt8) (w : World) : World :=
  w.serve env.beyond (handsetIpuiCfmProgram handset ipui w.config.radio)

/-- The five bytes are the identity. -/
theorem serve_storeIpui (beyond : Hset) (handset : ℕ) (ipui : Fin 5 → UInt8)
    (next : TableProgram Hset (World → World)) (w : World) :
    w.serve beyond (storeIpui handset ipui next) =
      (w.setHandset (storeAt w.status.handset (handset - 1) fun h => { h with ipui })).serve beyond
        next := by
  have hall (old : Fin 5 → UInt8) : Function.update (Function.update (Function.update
      (Function.update (Function.update old 0 (ipui 0)) 1 (ipui 1)) 2 (ipui 2)) 3 (ipui 3)) 4
        (ipui 4) = ipui := by
    funext i
    fin_cases i <;> rfl
  have hstores : storeAt (storeAt (storeAt (storeAt (storeAt w.status.handset (handset - 1)
      fun h => { h with ipui := Function.update h.ipui 0 (ipui 0) }) (handset - 1)
      fun h => { h with ipui := Function.update h.ipui 1 (ipui 1) }) (handset - 1)
      fun h => { h with ipui := Function.update h.ipui 2 (ipui 2) }) (handset - 1)
      fun h => { h with ipui := Function.update h.ipui 3 (ipui 3) }) (handset - 1)
      (fun h => { h with ipui := Function.update h.ipui 4 (ipui 4) }) =
        storeAt w.status.handset (handset - 1) fun h => { h with ipui } := by
    simp only [storeAt_storeAt, hall]
  rw [← hstores]
  rfl

theorem handsetIpuiCfm_eq (env : Env) (handset : ℕ) (ipui : Fin 5 → UInt8) (w : World) :
    handsetIpuiCfm env handset ipui w =
      if badHandsetnr handset then w
      else if ((w.setHandset (w.status.handset.modify (handset - 1) fun h =>
          { h with ipui })).status.handset.read env.beyond handset).registered = true8 then
        getHandsetIpui (handset + 1)
          (w.setHandset (w.status.handset.modify (handset - 1) fun h => { h with ipui }))
      else perhapsDisableProtocol
        (w.setHandset (w.status.handset.modify (handset - 1) fun h => { h with ipui })) := by
  unfold handsetIpuiCfm handsetIpuiCfmProgram
  split
  · rfl
  · rename_i hgood
    rw [serve_storeIpui, storeAt_own hgood, serve_read, readAt_next]
    split
    · rfl
    · exact serve_perhapsDisableProtocol env.beyond
        (w.setHandset (w.status.handset.modify (handset - 1) fun h => { h with ipui }))

def registration (w : World) : World :=
  if w.config.radio = .disabled then w
  else if w.status.radio = .disabled then
    -- the window opens when this timer fires
    arm .registrationDelayedStart 1000000
      ((dectRadio true w).setRegMode .delayedStart (by decide))
  else if w.status.regMode ≠ .enabled then
    arm .registerHandsetsStop 180000000 (registerHandsetsStart w)
  else w

def registrationDelayedStart (w : World) : World :=
  if w.status.regMode = .delayedStart then registration w else w

def pingHandsetProgram (handset : ℕ) (radio : RegState) : TableProgram Hset (World → World) :=
  if badHandsetnr handset then .done id
  else if radio = .disabled then .done id
  else .store (handset - 1) (fun h => { h with pinging := true8 }) <|
    .done fun w => arm (.pingHandsetStop handset) 20000000 (pingHandsetStart handset w)

def pingHandset (handset : ℕ) (w : World) : World :=
  w.serve .zero (pingHandsetProgram handset w.config.radio)

theorem pingHandset_eq (handset : ℕ) (w : World) :
    pingHandset handset w =
      if badHandsetnr handset then w
      else if w.config.radio = .disabled then w
      else
        arm (.pingHandsetStop handset) 20000000 (pingHandsetStart handset
          (w.setHandset (w.status.handset.modify (handset - 1) fun h =>
            { h with pinging := true8 }))) := by
  unfold pingHandset pingHandsetProgram
  split
  · rfl
  · rename_i hgood
    split
    · rfl
    · rw [serve_store, storeAt_own hgood]
      rfl

def getStatus (w : World) : World := record (.sendStatus w.status) w

/-! ## Dispatch -/

/-- `init_status` and the loaded configuration. -/
def initial (config : Config) : World where
  status := ⟨false, .disabled, .disabled, fun _ => .zero, by decide, .inl rfl⟩
  config := config
  callReference := ⟨0, 0, 0⟩
  switchStateOn := 1
  timers := []
  log := []
  clock := 0

def handleDectPacket (env : Env) (mail : Mail) (w : World) : World :=
  match mail with
  | .connectInd fp => connectInd fp w
  | .handsetPresentInd handset _ =>
    let w := presentInd handset w
    -- enumerate unless a registration is going on
    if w.status.regMode = .disabled then initCfm w else w
  | .setRegistrationModeCfm => if w.status.regMode = .disabled then initCfm w else w
  | .getHandsetIpuiCfm handset ipui => handsetIpuiCfm env handset ipui w
  | .getRegistrationCountCfm m => registrationCountCfm m w
  | .deleteRegistrationCfm handset => listHandsetsSchedule (deleteRegistrationCfm handset w)
  | .registrationCompleteInd => registerHandsetsStop w
  | .linuxInitCfm => uleStart (initCfm w)
  | .setupCfm callReference _ => setupCfm callReference w
  | .featuresCfm =>
    listHandsets (if w.config.radio = .enabled then dectRadio true w else w)
  | .uleInitCfm .. => w
  | .uleDataInd .. => w
  | .uleDataCfm .. => w
  | .ulePvcConfigInd terminalId => ulePvcConfigInd terminalId w
  | .ulePvcPendingInd terminalId => ulePvcDataPendingInd terminalId w
  | .ulePvcIwuDataInd terminalId length infoElement =>
    ulePvcDataIwuInd terminalId length infoElement w
  | .printed _ => w

def handleClientPacket (env : Env) (type : UInt32) (data : UInt8) (w : World) : Option World :=
  match PacketType.ofCode type with
  | some .getStatus => some (getStatus w)
  | some .registration => some (registration w)
  | some .pingHset => some (pingHandset data.toNat w)
  | some .zwitch => some (uleDataReq data.toNat w)
  | some .radio => some (dectRadio (decide (data ≠ 0)) w)
  | some .reloadConfig => reloadConfig env w
  | some .deleteHset => some (deleteHset data.toNat w)
  | some .listHandsets => some (initCfm w)
  | some .uleStart => some (uleStart w)
  | some .init => dectInit env w
  | some .button =>
    if data ≠ 0 ∧ (w.config.radio = .enabled ∨ w.config.radio = .auto) then some (registration w)
    else some w
  | _ => some w

/-- The call that an expired timer makes. -/
def expire (callback : Callback) (w : World) : World :=
  match callback with
  | .initCfm => initCfm w
  | .registrationDelayedStart => registrationDelayedStart w
  | .registerHandsetsStop => registerHandsetsStop w
  | .pingHandsetStop handset => pingHandsetStop handset w

/-! ## The event loop -/

/-- What the event loop of `event_base_dispatch` hands to the manager: a client
frame that `packet_read` passes to `handle_client_packet`, a frame that it
passes to `handle_dect_packet`, or the expiry of a pending timer. -/
inductive Event
  | client (type : UInt32) (data : UInt8) (env : Env)
  | mail (m : Mail) (env : Env)
  | timeout (t : Timer)

/-- One more event has been processed. -/
def tick (w : World) : World := { w with clock := w.clock + 1 }

/-- Process one event.  Only a pending timer can expire, and it expires once. -/
def step (w : World) : Event → Option World
  | .client type data env => (handleClientPacket env type data w).map tick
  | .mail m env => some (tick (handleDectPacket env m w))
  | .timeout t =>
    if t ∈ w.timers then some (tick (expire t.callback { w with timers := w.timers.erase t }))
    else none

/-! ## Views that ignore the radio -/

/-- A view of the manager that does not show what switching the radio and the LED
changes. -/
structure IgnoresRadio {α : Type*} (v : World → α) : Prop where
  callHotplug : ∀ a w, v (callHotplug a w) = v w
  startProtocolReq : ∀ w, v (writeDect .startProtocolReq w) = v w
  stopProtocolReq : ∀ w, v (writeDect .stopProtocolReq w) = v w
  setRadio : ∀ radio h w, v (w.setRadio radio h) = v w

namespace IgnoresRadio

variable {α : Type*} {v : World → α}

theorem controlLed (hv : IgnoresRadio v) (w : World) : v (controlLed w) = v w := by
  simp only [DectManager.controlLed, apply_ite v, hv.callHotplug, ite_self]

theorem dectRadio (hv : IgnoresRadio v) (enable : Bool) (w : World) :
    v (dectRadio enable w) = v w := by
  have hstart : v (startProtocol w) = v w := by
    rw [startProtocol, hv.controlLed, hv.setRadio, hv.startProtocolReq]
  have hstop : v (stopProtocol w) = v w := by
    rw [stopProtocol, hv.controlLed, hv.setRadio, hv.stopProtocolReq]
  simp only [DectManager.dectRadio, apply_ite v, hstart, hstop, ite_self]

/-- At most the call itself shows. -/
theorem perhapsDisableProtocol (hv : IgnoresRadio v) (w : World) :
    v (perhapsDisableProtocol w) = v (w.record .perhapsDisableProtocol) := by
  simp only [perhapsDisableProtocol_eq, hv.controlLed, apply_ite v, hv.dectRadio, ite_self]

end IgnoresRadio

end DectManager
