/-
# The lengths that outgoing mails declare

Three mails of the manager end in an array of variable length: the echo of an
IWU message, the ULE data request and the download of the NVS.  Each of them is
built by hand: an allocation, assignments to the members before the array, a copy
into the array, a size for the write and a declared length.  The builders are
modelled here byte by byte; a byte of an allocation that has not been set is
`none`.

* `ulePvcDataIwuIndMail_eq`, `uleDataReqMail_eq`, `dectInitMail_eq`: what each of
  them writes.
* `payloads_writes`: these are the mails that the manager's requests stand for.
* `lengths_honest_iff`: the declared lengths of a run are honest exactly when it
  has no ULE data request and no download of a short NVS.
-/
import DectManager.Blocks
import DectManager.Writes

namespace DectManager

open PartialRun

open Block

/-! ## The three builders -/

/-- The bytes of the members before the array, in the vendor's layout, as the manager
assigns them. -/
structure Headers where
  /-- of `ApiFpUlePvcIwuDataReqType`, for a terminal id and a length -/
  ulePvcIwuDataReq : ℕ → ℕ → List UInt8
  /-- of `ApiFpUleDataReqType` -/
  uleDataReq : List UInt8
  /-- of `ApiLinuxInitReqType` -/
  linuxInitReq : List UInt8

/-- `sizeof` of a packed structure that ends in an array of one byte. -/
def sizeofPacked (header : List UInt8) : ℕ := header.length + 1

/-- A mail on its way to the stack: where its array starts, the length it declares
for it, and the bytes that are written. -/
structure OutgoingMail where
  offset : ℕ
  declared : ℕ
  bytes : Block

/-- The bytes of the array. -/
def OutgoingMail.payload (m : OutgoingMail) : Block := m.bytes.drop m.offset

/-- The echo of `ule_pvc_data_iwu_ind`. -/
def ulePvcDataIwuIndMail (headers : Headers) (terminalId infoElementLength : ℕ)
    (infoElement : ℕ → UInt8) : Option OutgoingMail := do
  let header := headers.ulePvcIwuDataReq terminalId infoElementLength
  let size := sizeofPacked header - 1 + infoElementLength
  let r ← (malloc size).store 0 header
  let r ← r.store header.length ((List.range infoElementLength).map infoElement)
  return ⟨header.length, infoElementLength, r.take size⟩

/-- The request of `ule_data_req`. -/
def uleDataReqMail (headers : Headers) (switchOn : ℕ) : Option OutgoingMail := do
  let header := headers.uleDataReq
  let size := sizeofPacked header + 18
  let r ← (calloc size).store 0 header
  let r ←
    if switchOn = 1 then r.store header.length switchOnP
    else if switchOn = 0 then r.store header.length switchOffP
    else if switchOn = 2 then r.store header.length switchTimerP
    else some r
  return ⟨header.length, 20, r.take size⟩

/-- The download of `dect_init`, where `nvs` is what `read` has stored, or would have
with a larger buffer. -/
def dectInitMail (headers : Headers) (nvs : List UInt8) : Option OutgoingMail := do
  let header := headers.linuxInitReq
  let size := header.length + dectNvsSize
  let t ← (malloc size).store 0 header
  let t ← t.store header.length (nvs.take dectNvsSize)
  return ⟨header.length, dectNvsSize, t.take size⟩

/-! ## What they write -/

/-- **The echo** is the received bytes. -/
theorem ulePvcDataIwuIndMail_eq (headers : Headers) (terminalId infoElementLength : ℕ)
    (infoElement : ℕ → UInt8) :
    ulePvcDataIwuIndMail headers terminalId infoElementLength infoElement =
      some ⟨(headers.ulePvcIwuDataReq terminalId infoElementLength).length, infoElementLength,
        (headers.ulePvcIwuDataReq terminalId infoElementLength).map some ++
          ((List.range infoElementLength).map infoElement).map some⟩ := by
  have hlen : ((List.range infoElementLength).map infoElement).length = infoElementLength := by
    rw [List.length_map, List.length_range]
  unfold ulePvcDataIwuIndMail sizeofPacked
  generalize headers.ulePvcIwuDataReq terminalId infoElementLength = header
  simp only [Nat.add_sub_cancel, malloc, store_header, Option.bind_eq_bind,
    Option.bind_some, store_array header none (le_of_eq hlen), hlen, Nat.sub_self,
    List.replicate_zero, List.append_nil]
  rw [List.take_of_length_le]
  · rfl
  · rw [List.length_append, List.length_map, List.length_map, hlen]

/-- **The ULE data request** has 19 bytes of data. -/
theorem uleDataReqMail_eq (headers : Headers) (switchOn switchStateOn : ℕ) :
    uleDataReqMail headers switchOn =
      some ⟨headers.uleDataReq.length, 20,
        headers.uleDataReq.map some ++ (switchData switchOn switchStateOn).1.map some⟩ := by
  have hcopy : ∀ bytes : List UInt8, bytes.length = 19 →
      store headers.uleDataReq.length bytes
          (headers.uleDataReq.map some ++ List.replicate 19 (some 0)) =
        some (headers.uleDataReq.map some ++ bytes.map some) := by
    intro bytes hlen
    rw [store_array _ _ (le_of_eq hlen), hlen, Nat.sub_self, List.replicate_zero, List.append_nil]
  have hwritten : ∀ bytes : List UInt8, bytes.length = 19 →
      (headers.uleDataReq.map some ++ bytes.map some).take (headers.uleDataReq.length + 19) =
        headers.uleDataReq.map some ++ bytes.map some := by
    intro bytes hlen
    refine List.take_of_length_le ?_
    rw [List.length_append, List.length_map, List.length_map, hlen]
  unfold uleDataReqMail sizeofPacked switchData
  simp only [Nat.add_assoc, Nat.reduceAdd, calloc, store_header, Option.bind_eq_bind,
    Option.bind_some]
  split_ifs
  · rw [hcopy _ rfl, Option.bind_some, hwritten _ rfl]
    rfl
  · rw [hcopy _ rfl, Option.bind_some, hwritten _ rfl]
    rfl
  · rw [hcopy _ rfl, Option.bind_some, hwritten _ rfl]
    rfl
  · -- no copy is made, and the bytes are those of `calloc`
    have hzero : List.replicate 19 (some 0) = (List.replicate 19 (0 : UInt8)).map some := rfl
    rw [hzero, hwritten _ rfl]
    rfl

/-- **The download** has what was read, and then what the allocation held. -/
theorem dectInitMail_eq (headers : Headers) (nvs : List UInt8) :
    dectInitMail headers nvs =
      some ⟨headers.linuxInitReq.length, dectNvsSize,
        headers.linuxInitReq.map some ++ (nvs.take dectNvsSize).map some ++
          List.replicate (dectNvsSize - nvs.length) none⟩ := by
  have hfit : (nvs.take dectNvsSize).length ≤ dectNvsSize := List.length_take_le _ _
  have hrest : dectNvsSize - (nvs.take dectNvsSize).length = dectNvsSize - nvs.length := by
    rw [List.length_take]
    omega
  unfold dectInitMail
  simp only [malloc, store_header, Option.bind_eq_bind, Option.bind_some,
    store_array headers.linuxInitReq none hfit, hrest]
  rw [List.take_of_length_le]
  · rfl
  · simp only [List.length_append, List.length_map, List.length_replicate, List.length_take]
    omega

/-! ## The mails of an event -/

/-- The mails with a variable payload that an event makes the manager build; `none` would
be a copy out of bounds. -/
def outgoing (headers : Headers) : Event → List (Option OutgoingMail)
  | .client type data env =>
    match PacketType.ofCode type with
    | some .zwitch => [uleDataReqMail headers data.toNat]
    | some .init => if env.dectshim then (env.nvs.map (dectInitMail headers)).toList else []
    | _ => []
  | .mail (.ulePvcIwuDataInd terminalId length infoElement) _ =>
    [ulePvcDataIwuIndMail headers terminalId length infoElement]
  | _ => []

/-- The declared length and the payload of a request with a variable payload. -/
def Request.payload? : Request → Option (ℕ × List UInt8)
  | .linuxInitReq length data => some (length, data)
  | .uleDataReq _ _ length data => some (length, data)
  | .ulePvcIwuDataReq _ length data => some (length, data)
  | _ => none

/-- The declared length and the payload of a mail, where the allocation held `heap`. -/
def OutgoingMail.sent (heap : ℕ → UInt8) (m : OutgoingMail) : ℕ × List UInt8 :=
  (m.declared, m.payload.mapIdx fun i c => c.getD (heap i))

/-- What an allocation of the event holds. -/
def Event.heap : Event → ℕ → UInt8
  | .client _ _ env => env.heap
  | .mail _ env => env.heap
  | .timeout _ => fun _ => 0

/-- The payload of a mail lies behind its header. -/
theorem payload_mk (header : List UInt8) (declared : ℕ) (payload : Block) :
    (⟨header.length, declared, header.map some ++ payload⟩ : OutgoingMail).payload = payload := by
  have hlen : header.length = (header.map (some : UInt8 → Option UInt8)).length := by
    rw [List.length_map]
  show List.drop header.length (header.map some ++ payload) = payload
  rw [hlen, List.drop_left]

/-- The bytes that have been set are sent as they are. -/
theorem sent_mk_map_some (header : List UInt8) (declared : ℕ) (bytes : List UInt8)
    (heap : ℕ → UInt8) :
    (⟨header.length, declared, header.map some ++ bytes.map some⟩ : OutgoingMail).sent heap =
      (declared, bytes) := by
  rw [OutgoingMail.sent, payload_mk]
  refine congrArg (Prod.mk declared) (List.ext_getElem? fun i => ?_)
  simp [List.getElem?_mapIdx]

/-- The declared lengths and payloads of some requests. -/
def payloads (ms : List Request) : List (ℕ × List UInt8) := ms.filterMap Request.payload?

@[simp] theorem payloads_radioWrites (enable : Bool) (w : World) :
    payloads (radioWrites enable w) = [] := by
  unfold radioWrites
  split_ifs <;> rfl

@[simp] theorem payloads_registrationWrites (w : World) :
    payloads (registrationWrites w) = [] := by
  unfold registrationWrites
  split_ifs <;> rfl

@[simp] theorem payloads_enumerationWrites (t : HandsetTable) (w : World) :
    payloads (enumerationWrites t w) = [] := by
  unfold enumerationWrites
  split_ifs
  · exact payloads_radioWrites _ w
  · rfl

@[simp] theorem payloads_reloadWrites (config : Config) (w : World) :
    payloads (reloadWrites config w) = [] := by
  unfold reloadWrites
  split_ifs
  · exact payloads_radioWrites true w
  · rfl
  · exact payloads_radioWrites false w

/-- A read that comes short leaves the rest of a buffer as it was. -/
theorem mapIdx_short_read (bytes : List UInt8) (heap : ℕ → UInt8) (size : ℕ) :
    ((bytes.take size).map some ++ List.replicate (size - bytes.length) none).mapIdx
        (fun i c => Option.getD c (heap i)) =
      (List.range size).map fun i => bytes[i]?.getD (heap i) := by
  refine List.ext_getElem? fun i => ?_
  rw [List.getElem?_mapIdx, List.getElem?_map]
  by_cases hi : i < size
  · rw [List.getElem?_range hi]
    by_cases hread : i < bytes.length
    · rw [List.getElem?_append_left (by simp [hi, hread])]
      simp [hi, hread]
    · have hshort : (bytes.take size).map some = bytes.map some := by
        rw [List.take_of_length_le (by omega)]
      have hnone : bytes[i]? = none := List.getElem?_eq_none (Nat.le_of_not_lt hread)
      rw [hshort, List.getElem?_append_right (by simp; omega), List.getElem?_replicate,
        if_pos (by simp; omega), Option.map_some, Option.map_some, hnone]
  · rw [List.getElem?_eq_none (by simp; omega), List.getElem?_eq_none (by simp; omega)]
    rfl

/-- The payload of the download is what the builder writes. -/
theorem payloads_initWrites (headers : Headers) (env : Env) :
    payloads (initWrites env) =
      (if env.dectshim then (env.nvs.map (dectInitMail headers)).toList else []).filterMap
        (Option.map (OutgoingMail.sent env.heap)) := by
  unfold initWrites nvsGetData
  split_ifs
  · cases hnvs : env.nvs with
    | none => rfl
    | some nvs =>
        have hmail := dectInitMail_eq headers nvs
        rw [List.append_assoc] at hmail
        simp only [Option.map_some, Option.toList_some, hmail, List.filterMap_cons,
          List.filterMap_nil, OutgoingMail.sent, payload_mk, mapIdx_short_read]
        rfl
  · rfl

/-- The requests with a variable payload of a client's command. -/
theorem payloads_client (headers : Headers) (w : World) (type : UInt32) (data : UInt8) (env : Env) :
    payloads (writes w (.client type data env)) =
      (outgoing headers (.client type data env)).filterMap
        (Option.map (OutgoingMail.sent env.heap)) := by
  simp only [writes, outgoing]
  cases htype : PacketType.ofCode type with
  | none => rfl
  | some p =>
      cases p <;> dsimp only
      case init => exact payloads_initWrites headers env
      case zwitch =>
        rw [uleDataReqMail_eq headers data.toNat w.switchStateOn, List.filterMap_cons,
          Option.map_some, sent_mk_map_some]
        rfl
      case registration => exact payloads_registrationWrites w
      case radio => exact payloads_radioWrites _ w
      case pingHset =>
        unfold pingWrites
        split_ifs <;> rfl
      case deleteHset =>
        unfold deleteWrites
        split_ifs <;> rfl
      case button =>
        split_ifs
        · exact payloads_registrationWrites w
        · rfl
      case reloadConfig =>
        cases loadCfgFile env with
        | none => rfl
        | some config => exact payloads_reloadWrites config w
      all_goals rfl

/-- Those of a mail: the echo. -/
theorem payloads_mail (headers : Headers) (w : World) (m : Mail) (env : Env) :
    payloads (writes w (.mail m env)) =
      (outgoing headers (.mail m env)).filterMap (Option.map (OutgoingMail.sent env.heap)) := by
  cases m with
  | ulePvcIwuDataInd terminalId length infoElement =>
      rw [outgoing, ulePvcDataIwuIndMail_eq, List.filterMap_cons, Option.map_some,
        sent_mk_map_some]
      rfl
  | getHandsetIpuiCfm handset ipui =>
      simp only [writes, ipuiWrites, outgoing]
      split_ifs
      · rfl
      · rfl
      · exact payloads_enumerationWrites _ w
  | getRegistrationCountCfm m =>
      simp only [writes, countWrites, outgoing]
      split_ifs
      · rfl
      · exact payloads_enumerationWrites _ w
      · rfl
  | featuresCfm =>
      simp only [writes, outgoing]
      split_ifs
      · exact payloads_radioWrites true w
      · rfl
  | handsetPresentInd handset length | setRegistrationModeCfm =>
      simp only [writes, outgoing]
      split_ifs <;> rfl
  | registrationCompleteInd =>
      simp only [writes, stopWrites, outgoing]
      split_ifs <;> rfl
  | _ => rfl

/-- The expiry of a timer has none. -/
theorem payloads_timeout (w : World) (t : Timer) : payloads (writes w (.timeout t)) = [] := by
  simp only [writes]
  cases t.callback with
  | initCfm => rfl
  | registrationDelayedStart =>
      dsimp only
      split_ifs
      · exact payloads_registrationWrites w
      · rfl
  | registerHandsetsStop =>
      dsimp only [stopWrites]
      split_ifs <;> rfl
  | pingHandsetStop handset =>
      dsimp only [pingStopWrites]
      split_ifs <;> rfl

/-- **The requests with a variable payload** of an event are the mails that the builders
make, with the bytes that have been set and what the allocation held otherwise. -/
theorem payloads_writes (headers : Headers) (w : World) (e : Event) :
    payloads (writes w e) =
      (outgoing headers e).filterMap (Option.map (OutgoingMail.sent e.heap)) := by
  cases e with
  | client type data env => exact payloads_client headers w type data env
  | mail m env => exact payloads_mail headers w m env
  | timeout t => exact payloads_timeout w t

/-! ## Honest lengths -/

/-- The declared length is that of the payload, and all of the payload has been set. -/
def OutgoingMail.Honest (m : OutgoingMail) : Prop :=
  m.declared = m.payload.length ∧ none ∉ m.payload

/-- A payload that has been set is honest about its length. -/
theorem honest_mk_map_some_iff (header : List UInt8) (declared : ℕ) (bytes : List UInt8) :
    (⟨header.length, declared, header.map some ++ bytes.map some⟩ : OutgoingMail).Honest ↔
      declared = bytes.length := by
  rw [OutgoingMail.Honest, payload_mk, List.length_map]
  refine and_iff_left ?_
  simp

/-- **The download** is honest exactly when the read has filled the buffer. -/
theorem honest_download_iff (header nvs : List UInt8) (size : ℕ) :
    (⟨header.length, size, header.map some ++
      ((nvs.take size).map some ++ List.replicate (size - nvs.length) none)⟩ :
        OutgoingMail).Honest ↔ size ≤ nvs.length := by
  rw [OutgoingMail.Honest, payload_mk, List.length_append, List.length_map, List.length_take,
    List.length_replicate]
  constructor
  · rintro ⟨-, hset⟩
    by_contra hshort
    refine hset (List.mem_append_right _ (List.mem_replicate.mpr ⟨?_, rfl⟩))
    omega
  · intro hfull
    constructor
    · show size = min size nvs.length + (size - nvs.length)
      omega
    · rw [Nat.sub_eq_zero_of_le hfull, List.replicate_zero, List.append_nil]
      intro hunset
      obtain ⟨b, -, hb⟩ := List.mem_map.mp hunset
      cases hb

/-- The mails with a variable payload that an event makes the manager write are honest
about its length. -/
def HonestMails (headers : Headers) (e : Event) : Prop :=
  ∀ r ∈ outgoing headers e, ∃ m, r = some m ∧ m.Honest

/-- The echo of an IWU message has the received bytes as its payload. -/
def EchoesPayload (headers : Headers) (e : Event) : Prop :=
  ∀ terminalId length infoElement env,
    e = .mail (.ulePvcIwuDataInd terminalId length infoElement) env →
      ∃ m, outgoing headers e = [some m] ∧
        m.payload = ((List.range length).map infoElement).map some

/-- The event makes the manager send a ULE data request, or download an NVS of which
fewer bytes have been read than are sent. -/
def Misdeclares : Event → Prop
  | .client type _ env =>
    type = PacketType.zwitch.code ∨
      type = PacketType.init.code ∧ env.dectshim = true ∧
        ∃ nvs, env.nvs = some nvs ∧ nvs.length < dectNvsSize
  | _ => False

/-- The echo is what was received, whatever its length. -/
theorem echoesPayload (headers : Headers) (e : Event) : EchoesPayload headers e := by
  rintro terminalId length infoElement env rfl
  rw [outgoing, ulePvcDataIwuIndMail_eq]
  exact ⟨_, rfl, payload_mk _ _ _⟩

/-- **One event** has honest mails exactly when it does not misdeclare a payload. -/
theorem honestMails_iff (headers : Headers) (e : Event) :
    HonestMails headers e ↔ ¬ Misdeclares e := by
  have hone (m : OutgoingMail) : (∀ r ∈ [some m], ∃ m', r = some m' ∧ m'.Honest) ↔ m.Honest := by
    simp
  cases e with
  | client type data env =>
      simp only [HonestMails, outgoing, Misdeclares, ← PacketType.ofCode_eq_some_iff]
      cases htype : PacketType.ofCode type with
      | none => simp
      | some p =>
          cases p
          case zwitch =>
            -- 20 bytes are declared, and 19 sent
            refine iff_of_false ?_ (by simp)
            dsimp only
            rw [uleDataReqMail_eq headers data.toNat 0, hone, honest_mk_map_some_iff]
            unfold switchData
            split_ifs <;> decide
          case init =>
            dsimp only
            by_cases hopen : env.dectshim = true
            · cases hnvs : env.nvs with
              | none => simp
              | some nvs =>
                  have hmail := dectInitMail_eq headers nvs
                  rw [List.append_assoc] at hmail
                  rw [if_pos hopen, Option.map_some, Option.toList_some, hmail, hone,
                    honest_download_iff]
                  simp [hopen]
            · simp [hopen]
          all_goals simp
  | mail m env =>
      refine iff_of_true ?_ not_false
      cases m with
      | ulePvcIwuDataInd terminalId length infoElement =>
          rw [HonestMails, outgoing, ulePvcDataIwuIndMail_eq, hone, honest_mk_map_some_iff,
            List.length_map, List.length_range]
      | _ => exact List.forall_mem_nil _
  | timeout t => exact iff_of_true (List.forall_mem_nil _) not_false

/-- **The lengths of outgoing mails are honest** along a run, and its echoes are the
received bytes, exactly when the run has no ULE data request and no download of a short
NVS. -/
theorem lengths_honest_iff (headers : Headers) (config : Config) (es : List Event) :
    Along step (fun _ _ e _ => HonestMails headers e ∧ EchoesPayload headers e)
        (initial config) es ↔
      Along step (fun _ _ e _ => ¬ Misdeclares e) (initial config) es := by
  refine along_congr fun _ e _ _ _ _ _ _ => ?_
  rw [and_iff_left (echoesPayload headers e)]
  exact honestMails_iff headers e

/-- Switching on declares 20 bytes and sends 19. -/
theorem switch_on_declares_too_much :
    ¬ Along step (fun _ _ e _ => HonestMails ⟨fun _ _ => [0, 0], [0, 0], [0]⟩ e ∧
        EchoesPayload ⟨fun _ _ => [0, 0], [0, 0], [0]⟩ e)
      (initial ⟨.enabled, by decide⟩) [command .zwitch 1] := by
  intro h
  obtain ⟨hhonest, -⟩ := h [] (command .zwitch 1) [] _ _ rfl rfl rfl
  obtain ⟨m, hm, hdeclared, -⟩ := hhonest _ List.mem_cons_self
  obtain rfl := Option.some.inj hm
  exact absurd hdeclared (by decide)

end DectManager
