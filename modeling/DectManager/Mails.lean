/-
# Mails between the manager and the DECT stack

The vendor's API headers are not part of the repository.  What the manager
uses of them is modelled here: the symbolic constants it passes on, the mails
it writes (`Request`, one constructor for each structure it fills in) and the
mails it reads (`Mail`, one constructor for each case of `handle_dect_packet`
that calls a handler, with the fields the handler reads).  How mails lie in
memory is the business of `MailBuffer.lean`.

A trailing one-element array of a vendor structure is read through C indexing,
whatever its declared length, so it is a function on all indices here.
-/
import DectManager.DectHeader

namespace DectManager

/-! ## Vendor constants -/

/-- The vendor constants that the manager stores in a request. -/
inductive ApiConstant
  | extendedTerminalIdSupport
  | ieaInt
  | basicSpeech
  | ccNormal
  | ccSignalAlertOnPattern2
  | rrUnexpectedMessage
  | ulePpInitiator
  | uleMtuSizeMax
  | uleMtuLifetimeDefault
  | uleWindowSizeDefault
  | uleProtocolFun1
  | uleProtocolVersion0
  | ulePagingCh
  | uleErrNoError
  deriving DecidableEq, Repr

/-- A vendor status word, compared with `RSS_SUCCESS` only. -/
inductive RsStatus
  | success
  | failure (code : ℕ)
  deriving DecidableEq, Repr

/-- `ApiCallReferenceType`. -/
structure CallReference where
  value : ℕ
  instanceHost : ℕ
  instanceFp : ℕ
  deriving DecidableEq, Repr

/-- `ApiFpCcAudioIdType`. -/
structure AudioId where
  intExtAudio : ApiConstant
  sourceTerminalId : ℕ
  deriving DecidableEq, Repr

/-! ## Requests -/

/-- The mails that the manager writes to the stack. -/
inductive Request
  /-- `API_FP_MM_START_PROTOCOL_REQ` -/
  | startProtocolReq
  /-- `API_FP_MM_STOP_PROTOCOL_REQ` -/
  | stopProtocolReq
  /-- `API_FP_CC_FEATURES_REQ` -/
  | featuresReq (apiFpCcFeature : ApiConstant)
  /-- `API_FP_MM_GET_REGISTRATION_COUNT_REQ` -/
  | getRegistrationCountReq (startTerminalId : ℕ)
  /-- `API_FP_MM_GET_HANDSET_IPUI_REQ` -/
  | getHandsetIpuiReq (terminalId : ℕ)
  /-- `API_FP_MM_SET_REGISTRATION_MODE_REQ` -/
  | setRegistrationModeReq (registrationEnabled deleteLastHandset : Bool)
  /-- `API_FP_MM_DELETE_REGISTRATION_REQ` -/
  | deleteRegistrationReq (terminalId : ℕ)
  /-- `API_FP_CC_SETUP_REQ` -/
  | setupReq (callReference : CallReference) (terminalId : ℕ) (audioId : AudioId)
      (basicService callClass signal : ApiConstant) (infoElementLength : ℕ)
  /-- `API_FP_CC_RELEASE_REQ` -/
  | releaseReq (callReference : CallReference) (reason : ApiConstant) (infoElementLength : ℕ)
  /-- `API_LINUX_INIT_REQ` -/
  | linuxInitReq (lengthOfData : ℕ) (data : List UInt8)
  /-- `API_FP_ULE_INIT_REQ` -/
  | uleInitReq (maxUlpDevices : ℕ)
  /-- `API_FP_ULE_DATA_REQ` -/
  | uleDataReq (terminalId dlcCtrl length : ℕ) (data : List UInt8)
  /-- `API_FP_ULE_PVC_CONFIG_RES` -/
  | ulePvcConfigRes (terminalId : ℕ) (initiator mtuPtSize mtuFtSize mtuLifetime windowSize :
      ApiConstant) (protocolCount : ℕ) (protocol : ApiConstant × ApiConstant × ℕ)
  /-- `API_FP_ULE_PVC_PENDING_RES` -/
  | ulePvcPendingRes (terminalId : ℕ) (status : ApiConstant) (pageChCount : ℕ)
      (pageChannel : ApiConstant × ℕ × ℕ)
  /-- `API_FP_ULE_PVC_IWU_DATA_REQ` -/
  | ulePvcIwuDataReq (terminalId infoElementLength : ℕ) (infoElement : List UInt8)
  deriving DecidableEq, Repr

/-! ## Mails -/

/-- The primitives that `handle_dect_packet` knows, in the order of its cases. -/
inductive Primitive
  | ccSetupInd
  | ccRejectInd
  | ccReleaseInd
  | fwuDeviceNotifyInd
  | ccConnectCfm
  | ccConnectInd
  | ccInfoInd
  | ccAlertInd
  | linuxNvsUpdateInd
  | mmHandsetPresentInd
  | mmSetRegistrationModeCfm
  | mmGetHandsetIpuiCfm
  | mmGetRegistrationCountCfm
  | mmDeleteRegistrationCfm
  | mmRegistrationCompleteInd
  | linuxInitCfm
  | ccReleaseCfm
  | ccSetupCfm
  | ccFeaturesCfm
  | uleInitCfm
  | uleDataInd
  | uleDataCfm
  | uleDtrInd
  | uleGetRegistrationCountCfm
  | uleGetDeviceIpuiCfm
  | uleAbortDataCfm
  | ulePvcConfigRej
  | ulePvcConfigInd
  | ulePvcPendingInd
  | ulePvcIwuDataInd
  deriving DecidableEq, Repr

/-- `ApiFpMmGetRegistrationCountCfmType`. -/
structure RegistrationCountCfm where
  status : RsStatus
  maxNoHandsets : ℕ
  terminalIdCount : ℕ
  terminalId : ℕ → ℕ

/-- The terminal ids that a count confirmation lists. -/
def RegistrationCountCfm.ids (m : RegistrationCountCfm) : List ℕ :=
  (List.range m.terminalIdCount).map m.terminalId

/-- A list that is not empty starts with `TerminalId[0]`. -/
theorem RegistrationCountCfm.ids_eq_cons {m : RegistrationCountCfm}
    (h : m.terminalIdCount ≠ 0) : ∃ ids, m.ids = m.terminalId 0 :: ids := by
  obtain ⟨n, hn⟩ := Nat.exists_eq_succ_of_ne_zero h
  exact ⟨_, by rw [RegistrationCountCfm.ids, hn, List.range_succ_eq_map, List.map_cons]⟩

/-- The first id of a list that is not empty is in the list. -/
theorem RegistrationCountCfm.first_mem_ids {m : RegistrationCountCfm}
    (h : m.terminalIdCount ≠ 0) : m.terminalId 0 ∈ m.ids := by
  obtain ⟨ids, hids⟩ := m.ids_eq_cons h
  rw [hids]
  exact List.mem_cons_self

/-- The mails that the manager reads. -/
inductive Mail
  /-- `API_FP_CC_CONNECT_IND` -/
  | connectInd (callReferenceFp : ℕ)
  /-- `API_FP_MM_HANDSET_PRESENT_IND` -/
  | handsetPresentInd (terminalId infoElementLength : ℕ)
  /-- `API_FP_MM_SET_REGISTRATION_MODE_CFM` -/
  | setRegistrationModeCfm
  /-- `API_FP_MM_GET_HANDSET_IPUI_CFM` -/
  | getHandsetIpuiCfm (terminalId : ℕ) (ipui : Fin 5 → UInt8)
  /-- `API_FP_MM_GET_REGISTRATION_COUNT_CFM` -/
  | getRegistrationCountCfm (m : RegistrationCountCfm)
  /-- `API_FP_MM_DELETE_REGISTRATION_CFM` -/
  | deleteRegistrationCfm (terminalId : ℕ)
  /-- `API_FP_MM_REGISTRATION_COMPLETE_IND` -/
  | registrationCompleteInd
  /-- `API_LINUX_INIT_CFM` -/
  | linuxInitCfm
  /-- `API_FP_CC_SETUP_CFM` -/
  | setupCfm (callReference : CallReference) (status : ℕ)
  /-- `API_FP_CC_FEATURES_CFM` -/
  | featuresCfm
  /-- `API_FP_ULE_INIT_CFM` -/
  | uleInitCfm (status maxUlpDevices upLinkBuffers : ℕ)
  /-- `API_FP_ULE_DATA_IND` -/
  | uleDataInd (terminalId length : ℕ)
  /-- `API_FP_ULE_DATA_CFM` -/
  | uleDataCfm (terminalId status : ℕ)
  /-- `API_FP_ULE_PVC_CONFIG_IND` -/
  | ulePvcConfigInd (terminalId : ℕ)
  /-- `API_FP_ULE_PVC_PENDING_IND` -/
  | ulePvcPendingInd (terminalId : ℕ)
  /-- `API_FP_ULE_PVC_IWU_DATA_IND` -/
  | ulePvcIwuDataInd (terminalId infoElementLength : ℕ) (infoElement : ℕ → UInt8)
  /-- a primitive that is only printed, or an unknown one -/
  | printed (primitive : Option Primitive)

end DectManager
