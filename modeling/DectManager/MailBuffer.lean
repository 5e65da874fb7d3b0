/-
# Mails in memory

`handle_dect_packet` gets a pointer to the payload of a frame and no length.
`decodeMail` is what it and the handler that it calls read through this pointer,
in the order of the source and with its early exits, as a program over bytes; it
returns the mail that the handlers of `Manager.lean` take.  Where the fields lie
and which numbers their bytes are is the business of the vendor and of the host:
`VendorApi` is a parameter.

* `SelfContained` says of a payload that it has every field that its primitive
  calls for, its embedded counts included.
* `reads_inside_payload_iff`: the reads stay inside the payload exactly when the
  payload is self-contained.  Nothing in the source checks that it is.
-/
import DectManager.ByteReads
import DectManager.PacketRead
import DectManager.Manager

namespace DectManager

open ByteReads

/-! ## The vendor's layout -/

/-- A fixed field of a vendor structure: where it lies, and which number its bytes are, in the
byte order of the host. -/
structure Field where
  offset : ℕ
  size : ℕ
  size_pos : 0 < size
  number : List UInt8 → ℕ

namespace Field

/-- Read a field. -/
def read (f : Field) : Reads UInt8 ℕ := do
  let bytes ← Reads.block f.offset f.size
  return f.number bytes

/-- The field lies inside a payload. -/
def Fits (f : Field) (payload : List UInt8) : Prop := f.offset + f.size ≤ payload.length

/-- The number in the field of a payload. -/
def value (f : Field) (payload : List UInt8) : ℕ := f.number ((payload.drop f.offset).take f.size)

/-- The `i`-th element of the array that begins with the field. -/
def element (f : Field) (i : ℕ) : Field := ⟨f.offset + i * f.size, f.size, f.size_pos, f.number⟩

instance (f : Field) (payload : List UInt8) : Decidable (f.Fits payload) :=
  inferInstanceAs (Decidable (_ ≤ _))

/-- Checking a program that begins with a field. -/
theorem check_read_bind {α : Type} (f : Field) (payload : List UInt8) (k : ℕ → Reads UInt8 α) :
    (f.read >>= k).check payload =
      if f.Fits payload then (k (f.value payload)).check payload else none := by
  have hpos := f.size_pos
  rw [Reads.check_bind, read, Reads.check_bind, Reads.check_block]
  by_cases hfit : f.offset + f.size ≤ payload.length
  · rw [if_pos (.inr hfit)]
    exact (if_pos hfit).symm
  · rw [if_neg (by omega)]
    exact (if_neg hfit).symm

theorem isSome_check_read_bind {α : Type} (f : Field) (payload : List UInt8)
    (k : ℕ → Reads UInt8 α) :
    ((f.read >>= k).check payload).isSome ↔
      f.Fits payload ∧ ((k (f.value payload)).check payload).isSome := by
  rw [check_read_bind]
  split
  · rename_i hfit
    exact (and_iff_right hfit).symm
  · rename_i hfit
    exact iff_of_false (by simp) fun h => hfit h.1

end Field

/-- What the manager uses of the vendor's headers: the values of the primitives
and of `RSS_SUCCESS`, and the fields that the handlers read. -/
structure VendorApi where
  primitiveOf : ℕ → Option Primitive
  statusOf : ℕ → RsStatus
  /-- `ApifpccEmptySignalType.Primitive` -/
  primitive : Field
  /-- `ApiFpCcConnectIndType.CallReference.Instance.Fp` -/
  connectIndFp : Field
  /-- `ApiFpMmHandsetPresentIndType` -/
  presentIndTerminalId : Field
  presentIndInfoElementLength : Field
  /-- `ApiFpMmGetHandsetIpuiCfmType`; `IPUI` has five bytes -/
  ipuiCfmTerminalId : Field
  ipuiCfmIpui : ℕ
  /-- `ApiFpMmGetRegistrationCountCfmType`; `TerminalId` is its first element -/
  countCfmStatus : Field
  countCfmMaxNoHandsets : Field
  countCfmTerminalIdCount : Field
  countCfmTerminalId : Field
  /-- `ApiFpMmDeleteRegistrationCfmType` -/
  deleteCfmTerminalId : Field
  /-- `ApiFpCcSetupResType`, which `setup_cfm` takes the mail for -/
  setupCfmValue : Field
  setupCfmHost : Field
  setupCfmFp : Field
  setupCfmStatus : Field
  /-- `ApiFpUleInitCfmType` -/
  uleInitCfmStatus : Field
  uleInitCfmMaxUlpDevices : Field
  uleInitCfmUpLinkBuffers : Field
  /-- `ApiFpUleDataIndType`; `Data` is where its bytes begin -/
  uleDataIndTerminalId : Field
  uleDataIndLength : Field
  uleDataIndData : ℕ
  /-- `ApiFpUleDataCfmType` -/
  uleDataCfmTerminalId : Field
  uleDataCfmStatus : Field
  /-- `ApiFpUlePvcConfigIndType`, which both handlers take their mail for -/
  pvcConfigIndTerminalId : Field
  /-- `ApiFpUlePvcIwuDataIndType`; `InfoElement` is where its bytes begin -/
  iwuDataIndTerminalId : Field
  iwuDataIndInfoElementLength : Field
  iwuDataIndInfoElement : ℕ

/-! ## What the handlers read -/

namespace VendorApi

variable (api : VendorApi)

/-- The elements of the array `TerminalId` that the loop of
`registration_count_cfm` is to read. -/
def terminalIds (count : ℕ) : List Field := (List.range count).map api.countCfmTerminalId.element

/-- The loop of `registration_count_cfm`: the ids it reads, and whether it runs to
its end or returns at a bad one. -/
def readTerminalIds : List Field → Reads UInt8 (List ℕ × Bool)
  | [] => return ([], true)
  | f :: fs => do
    let handset ← f.read
    if badHandsetnr handset then
      return ([handset], false)
    else
      let r ← readTerminalIds fs
      return (handset :: r.1, r.2)

/-- What `registration_count_cfm` reads.  After the loop it reads `TerminalId[0]`,
also of an empty list. -/
def readCountCfm : Reads UInt8 RegistrationCountCfm := do
  let status ← api.countCfmStatus.read
  if api.statusOf status = .success then
    let maxNoHandsets ← api.countCfmMaxNoHandsets.read
    let count ← api.countCfmTerminalIdCount.read
    let r ← readTerminalIds (api.terminalIds count)
    if r.2 then
      let first ← (api.countCfmTerminalId.element 0).read
      return ⟨.success, maxNoHandsets, count, fun i => if i = 0 then first else r.1.getD i 0⟩
    else
      return ⟨.success, maxNoHandsets, count, fun i => r.1.getD i 0⟩
  else
    return ⟨api.statusOf status, 0, 0, fun _ => 0⟩

/-- What `handset_ipui_cfm` reads. -/
def readIpuiCfm : Reads UInt8 Mail := do
  let handset ← api.ipuiCfmTerminalId.read
  if badHandsetnr handset then
    return .getHandsetIpuiCfm handset fun _ => 0
  else
    let ipui ← Reads.block api.ipuiCfmIpui 5
    return .getHandsetIpuiCfm handset fun i => ipui.getD i.val 0

/-- What `ule_pvc_data_iwu_ind` reads. -/
def readIwuDataInd : Reads UInt8 Mail := do
  let length ← api.iwuDataIndInfoElementLength.read
  let terminalId ← api.iwuDataIndTerminalId.read
  let infoElement ← Reads.block api.iwuDataIndInfoElement length
  return .ulePvcIwuDataInd terminalId length fun i => infoElement.getD i 0

/-- What the handler of a primitive reads. -/
def readMail : Primitive → Reads UInt8 Mail
  | .ccConnectInd => do
    let fp ← api.connectIndFp.read
    return .connectInd fp
  | .mmHandsetPresentInd => do
    let handset ← api.presentIndTerminalId.read
    let length ← api.presentIndInfoElementLength.read
    return .handsetPresentInd handset length
  | .mmSetRegistrationModeCfm => return .setRegistrationModeCfm
  | .mmGetHandsetIpuiCfm => api.readIpuiCfm
  | .mmGetRegistrationCountCfm => do
    let m ← api.readCountCfm
    return .getRegistrationCountCfm m
  | .mmDeleteRegistrationCfm => do
    let handset ← api.deleteCfmTerminalId.read
    return .deleteRegistrationCfm handset
  | .mmRegistrationCompleteInd => return .registrationCompleteInd
  | .linuxInitCfm => return .linuxInitCfm
  | .ccSetupCfm => do
    let value ← api.setupCfmValue.read
    let host ← api.setupCfmHost.read
    let fp ← api.setupCfmFp.read
    let status ← api.setupCfmStatus.read
    return .setupCfm ⟨value, host, fp⟩ status
  | .ccFeaturesCfm => return .featuresCfm
  | .uleInitCfm => do
    let status ← api.uleInitCfmStatus.read
    let maxUlpDevices ← api.uleInitCfmMaxUlpDevices.read
    let upLinkBuffers ← api.uleInitCfmUpLinkBuffers.read
    return .uleInitCfm status maxUlpDevices upLinkBuffers
  | .uleDataInd => do
    let terminalId ← api.uleDataIndTerminalId.read
    let length ← api.uleDataIndLength.read
    -- `Data` is printed as a string
    .scan (· == 0) api.uleDataIndData (return .uleDataInd terminalId length)
  | .uleDataCfm => do
    let terminalId ← api.uleDataCfmTerminalId.read
    let status ← api.uleDataCfmStatus.read
    return .uleDataCfm terminalId status
  | .ulePvcConfigInd => do
    let terminalId ← api.pvcConfigIndTerminalId.read
    return .ulePvcConfigInd terminalId
  | .ulePvcPendingInd => do
    let terminalId ← api.pvcConfigIndTerminalId.read
    return .ulePvcPendingInd terminalId
  | .ulePvcIwuDataInd => api.readIwuDataInd
  | p => return .printed (some p)

/-- What `handle_dect_packet` and the handler that it calls read. -/
def decodeMail : Reads UInt8 Mail := do
  let primitive ← api.primitive.read
  match api.primitiveOf primitive with
  | some p => api.readMail p
  | none => return .printed none

/-! ## Self-contained payloads -/

/-- The payload holds the ids of a list up to the first bad one. -/
def HoldsIds (payload : List UInt8) : List Field → Prop
  | [] => True
  | f :: fs =>
    f.Fits payload ∧ (badHandsetnr (f.value payload) = false → HoldsIds payload fs)

/-- A count confirmation holds its fields and its ids up to the first bad one, and
the first element of the array even if there is no id. -/
def HoldsCount (payload : List UInt8) : Prop :=
  api.countCfmStatus.Fits payload ∧
    (api.statusOf (api.countCfmStatus.value payload) = .success →
      api.countCfmMaxNoHandsets.Fits payload ∧ api.countCfmTerminalIdCount.Fits payload ∧
        HoldsIds payload (api.terminalIds (api.countCfmTerminalIdCount.value payload)) ∧
        ((∀ f ∈ api.terminalIds (api.countCfmTerminalIdCount.value payload),
            badHandsetnr (f.value payload) = false) →
          (api.countCfmTerminalId.element 0).Fits payload))

/-- A payload holds every byte that a primitive calls for. -/
def Holds (payload : List UInt8) : Primitive → Prop
  | .ccConnectInd => api.connectIndFp.Fits payload
  | .mmHandsetPresentInd =>
    api.presentIndTerminalId.Fits payload ∧ api.presentIndInfoElementLength.Fits payload
  | .mmGetHandsetIpuiCfm =>
    api.ipuiCfmTerminalId.Fits payload ∧
      (badHandsetnr (api.ipuiCfmTerminalId.value payload) = false →
        api.ipuiCfmIpui + 5 ≤ payload.length)
  | .mmGetRegistrationCountCfm => api.HoldsCount payload
  | .mmDeleteRegistrationCfm => api.deleteCfmTerminalId.Fits payload
  | .ccSetupCfm =>
    api.setupCfmValue.Fits payload ∧ api.setupCfmHost.Fits payload ∧
      api.setupCfmFp.Fits payload ∧ api.setupCfmStatus.Fits payload
  | .uleInitCfm =>
    api.uleInitCfmStatus.Fits payload ∧ api.uleInitCfmMaxUlpDevices.Fits payload ∧
      api.uleInitCfmUpLinkBuffers.Fits payload
  | .uleDataInd =>
    api.uleDataIndTerminalId.Fits payload ∧ api.uleDataIndLength.Fits payload ∧
      0 ∈ payload.drop api.uleDataIndData
  | .uleDataCfm => api.uleDataCfmTerminalId.Fits payload ∧ api.uleDataCfmStatus.Fits payload
  | .ulePvcConfigInd => api.pvcConfigIndTerminalId.Fits payload
  | .ulePvcPendingInd => api.pvcConfigIndTerminalId.Fits payload
  | .ulePvcIwuDataInd =>
    api.iwuDataIndInfoElementLength.Fits payload ∧ api.iwuDataIndTerminalId.Fits payload ∧
      (api.iwuDataIndInfoElementLength.value payload = 0 ∨
        api.iwuDataIndInfoElement + api.iwuDataIndInfoElementLength.value payload ≤
          payload.length)
  | _ => True

/-- A payload holds its primitive and every byte that the primitive calls for. -/
def SelfContained (payload : List UInt8) : Prop :=
  api.primitive.Fits payload ∧
    ∀ p ∈ api.primitiveOf (api.primitive.value payload), api.Holds payload p

/-! ## Bounds checks -/

variable {api} {payload : List UInt8}

/-- Checking a block of bytes and what follows it. -/
theorem check_block_bind {α : Type} (off n : ℕ) (k : List UInt8 → Reads UInt8 α)
    (hk : ∀ bytes, ((k bytes).check payload).isSome) :
    ((Reads.block off n >>= k).check payload).isSome ↔ n = 0 ∨ off + n ≤ payload.length := by
  rw [Reads.check_bind, Reads.check_block]
  split
  · rename_i hfit
    exact iff_of_true (hk _) hfit
  · rename_i hfit
    exact iff_of_false (by simp) hfit

/-- **The loop of `registration_count_cfm`** stays inside exactly when the ids up
to the first bad one do, and runs to its end exactly when there is no bad one. -/
theorem check_readTerminalIds (payload : List UInt8) (fs : List Field) :
    (((readTerminalIds fs).check payload).isSome ↔ HoldsIds payload fs) ∧
      ∀ r, (readTerminalIds fs).check payload = some r →
        (r.2 = true ↔ ∀ f ∈ fs, badHandsetnr (f.value payload) = false) := by
  induction fs with
  | nil =>
      refine ⟨iff_of_true rfl trivial, fun r hr => ?_⟩
      obtain rfl : ([], true) = r := by simpa [readTerminalIds] using hr
      simp
  | cons f fs ih =>
      rw [readTerminalIds, Field.check_read_bind, HoldsIds]
      by_cases hfit : f.Fits payload
      swap
      · rw [if_neg hfit]
        exact ⟨iff_of_false (by simp) fun h => hfit h.1, fun r hr => by simp at hr⟩
      rw [if_pos hfit]
      cases hbad : badHandsetnr (f.value payload) with
      | true =>
          refine ⟨by simp [hfit], fun r hr => ?_⟩
          obtain rfl : ([f.value payload], false) = r := by simpa using hr
          simp [hbad]
      | false =>
          simp only [Bool.false_eq_true, if_false, Reads.check_bind]
          cases hrest : (readTerminalIds fs).check payload with
          | none =>
              rw [hrest] at ih
              have hno : ¬ HoldsIds payload fs := by simpa using ih.1
              simp [hno]
          | some r =>
              rw [hrest] at ih
              have hids : HoldsIds payload fs := ih.1.mp rfl
              refine ⟨by simp [hfit, hids], fun r' hr' => ?_⟩
              obtain rfl : (f.value payload :: r.1, r.2) = r' := by simpa using hr'
              simp [hbad, ih.2 r rfl]

/-- **`registration_count_cfm`** stays inside exactly when its payload holds all
that it reads. -/
theorem check_readCountCfm :
    ((api.readCountCfm).check payload).isSome ↔ api.HoldsCount payload := by
  rw [readCountCfm, Field.isSome_check_read_bind, HoldsCount]
  refine and_congr_right fun _ => ?_
  by_cases hok : api.statusOf (api.countCfmStatus.value payload) = .success
  swap
  · simp [hok]
  rw [if_pos hok, Field.isSome_check_read_bind, Field.isSome_check_read_bind]
  simp only [hok, forall_const]
  refine and_congr_right fun _ => and_congr_right fun _ => ?_
  obtain ⟨hsome, hend⟩ := check_readTerminalIds payload
    (api.terminalIds (api.countCfmTerminalIdCount.value payload))
  rw [← hsome, Reads.check_bind]
  cases hids : (readTerminalIds (api.terminalIds (api.countCfmTerminalIdCount.value payload))).check
      payload with
  | none => simp
  | some r =>
      rw [← hend r hids]
      simp only [Option.bind_some, Option.isSome_some, true_and]
      cases r.2 with
      | true => simp [Field.isSome_check_read_bind]
      | false => simp

/-- **The handler of a primitive** stays inside exactly when its payload holds all
that the primitive calls for. -/
theorem check_readMail (p : Primitive) :
    ((api.readMail p).check payload).isSome ↔ api.Holds payload p := by
  cases p with
  | mmGetRegistrationCountCfm =>
      rw [readMail, Holds, ← check_readCountCfm, Reads.check_bind]
      cases (api.readCountCfm).check payload <;> simp
  | mmGetHandsetIpuiCfm =>
      rw [readMail, readIpuiCfm, Holds, Field.isSome_check_read_bind]
      refine and_congr_right fun _ => ?_
      cases badHandsetnr (api.ipuiCfmTerminalId.value payload) with
      | true => simp
      | false =>
          simp only [Bool.false_eq_true, if_false, forall_const]
          rw [check_block_bind _ _ _ fun _ => rfl]
          simp
  | ulePvcIwuDataInd =>
      rw [readMail, readIwuDataInd, Holds, Field.isSome_check_read_bind,
        Field.isSome_check_read_bind, check_block_bind _ _ _ fun _ => rfl]
  | uleDataInd =>
      simp only [readMail, Holds, Field.isSome_check_read_bind]
      refine and_congr_right fun _ => and_congr_right fun _ => ?_
      simp [Reads.check]
  | _ => simp [readMail, Holds, Field.isSome_check_read_bind]

/-- **`handle_dect_packet`** stays inside exactly when its payload is
self-contained. -/
theorem check_decodeMail :
    ((api.decodeMail).check payload).isSome ↔ api.SelfContained payload := by
  rw [decodeMail, Field.isSome_check_read_bind, SelfContained]
  refine and_congr_right fun _ => ?_
  cases api.primitiveOf (api.primitive.value payload) with
  | none => simp
  | some p => simp [check_readMail]

end VendorApi

/-! ## Reads through the packet's pointer -/

namespace Packet

/-- The memory behind the pointer that `packet_read` passes on: the packet's data,
then whatever follows its allocation. -/
def memory (p : Packet) (beyond : ℕ → UInt8) (i : ℕ) : UInt8 := p.data.getD i (beyond i)

/-- The memory begins with the payload. -/
theorem memory_payload (p : Packet) (beyond : ℕ → UInt8) (i : ℕ) (h : i < p.payload.length) :
    p.memory beyond i = p.payload[i] := by
  unfold payload at h ⊢
  rw [List.length_take] at h
  have hdata : i < p.data.length := by omega
  rw [memory, List.getD_eq_getElem _ _ hdata, List.getElem_take]

end Packet

/-- **Reads inside the payload.**  All that `handle_dect_packet` and the handler
that it calls read of a packet, whatever lies in memory behind it, is in the
packet's payload exactly when the payload is self-contained. -/
theorem reads_inside_payload_iff (api : VendorApi) (p : Packet) (beyond : ℕ → UInt8) :
    (∀ i, api.decodeMail.Touches (p.memory beyond) i → i < p.payload.length) ↔
      api.SelfContained p.payload := by
  rw [Reads.touches_lt_iff (p.memory_payload beyond)]
  exact VendorApi.check_decodeMail

/-- What a self-contained payload says does not depend on what lies behind it in memory. -/
theorem run_decodeMail_congr {api : VendorApi} {payload : List UInt8}
    (hself : api.SelfContained payload) {mem mem' : ℕ → UInt8}
    (hmem : ∀ i (h : i < payload.length), mem i = payload[i])
    (hmem' : ∀ i (h : i < payload.length), mem' i = payload[i]) :
    api.decodeMail.run mem' = api.decodeMail.run mem := by
  have hinside := (Reads.touches_lt_iff hmem _).mpr (VendorApi.check_decodeMail.mpr hself)
  refine Reads.run_congr _ fun i hi => ?_
  rw [hmem i (hinside i hi), hmem' i (hinside i hi)]

/-- What a payload says, by itself. -/
def decoded (api : VendorApi) (payload : List UInt8) : Mail :=
  api.decodeMail.run fun i => payload.getD i 0

/-- What is read of a packet whose payload is self-contained is what the payload says. -/
theorem run_memory_eq_decoded {api : VendorApi} {p : Packet} (hself : api.SelfContained p.payload)
    (beyond : ℕ → UInt8) : api.decodeMail.run (p.memory beyond) = decoded api p.payload :=
  run_decodeMail_congr hself (fun _ hi => List.getD_eq_getElem _ _ hi) (p.memory_payload beyond)

/-- The number in some bytes, the lowest byte first. -/
def leNat (bytes : List UInt8) : ℕ := bytes.foldr (fun b n => b.toNat + 256 * n) 0

/-- A field of a little-endian host. -/
def Field.little (offset size : ℕ) (size_pos : 0 < size) : Field := ⟨offset, size, size_pos, leNat⟩

/-- A packed layout on such a host: two bytes for the primitive, then the fields one after the
other. -/
def packedApi : VendorApi where
  primitiveOf n :=
    [.ccConnectInd, .mmGetRegistrationCountCfm, .mmGetHandsetIpuiCfm, .mmHandsetPresentInd][n]?
  statusOf n := if n = 0 then .success else .failure n
  primitive := .little 0 2 (by decide)
  connectIndFp := .little 4 1 (by decide)
  presentIndTerminalId := .little 2 2 (by decide)
  presentIndInfoElementLength := .little 4 2 (by decide)
  ipuiCfmTerminalId := .little 2 2 (by decide)
  ipuiCfmIpui := 4
  countCfmStatus := .little 2 1 (by decide)
  countCfmMaxNoHandsets := .little 3 1 (by decide)
  countCfmTerminalIdCount := .little 4 1 (by decide)
  countCfmTerminalId := .little 5 2 (by decide)
  deleteCfmTerminalId := .little 2 2 (by decide)
  setupCfmValue := .little 2 1 (by decide)
  setupCfmHost := .little 3 1 (by decide)
  setupCfmFp := .little 4 1 (by decide)
  setupCfmStatus := .little 5 1 (by decide)
  uleInitCfmStatus := .little 2 1 (by decide)
  uleInitCfmMaxUlpDevices := .little 3 2 (by decide)
  uleInitCfmUpLinkBuffers := .little 5 1 (by decide)
  uleDataIndTerminalId := .little 2 2 (by decide)
  uleDataIndLength := .little 4 2 (by decide)
  uleDataIndData := 6
  uleDataCfmTerminalId := .little 2 2 (by decide)
  uleDataCfmStatus := .little 4 1 (by decide)
  pvcConfigIndTerminalId := .little 2 2 (by decide)
  iwuDataIndTerminalId := .little 2 2 (by decide)
  iwuDataIndInfoElementLength := .little 4 2 (by decide)
  iwuDataIndInfoElement := 6

/-- The packet of a frame with an empty payload. -/
def emptyPacket : Packet := { Packet.calloc with size := 8, type := PacketType.dectPacket.code }

/-- Of an empty payload the primitive is read all the same. -/
theorem empty_payload_read :
    ¬ ∀ i, packedApi.decodeMail.Touches (emptyPacket.memory fun _ => 0) i →
      i < emptyPacket.payload.length := by
  intro h
  exact absurd (h 0 (.inl rfl)) (by decide)

end DectManager
