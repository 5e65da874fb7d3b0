/-
# The manager and the answers of the stack

Of the requests that the manager writes, ten kinds have a confirmation that
`handle_dect_packet` knows; the rest (start and stop of the protocol, the
responses to indications of the stack) are not answered, as far as the manager
can tell.  `Request.confirmedBy` says which mail confirms which request.

`correspond` is a step of the manager and of the requests that wait for their
confirmation.  The dialogue of auto mode (`converse`) is what remains of it if
one looks at the requests of the refresh chain and the registration modes only
(`converse_awaited`).
-/
import DectManager.Requests
import DectManager.Writes

namespace DectManager

/-! ## Confirmations -/

/-- The mail is a confirmation of the request.  A confirmation that carries a terminal id
confirms a request for that terminal. -/
def Request.confirmedBy : Request → Mail → Bool
  | .featuresReq _, .featuresCfm => true
  | .getRegistrationCountReq _, .getRegistrationCountCfm _ => true
  | .getHandsetIpuiReq terminalId, .getHandsetIpuiCfm handset _ => handset == terminalId
  | .setRegistrationModeReq _ _, .setRegistrationModeCfm => true
  | .deleteRegistrationReq terminalId, .deleteRegistrationCfm handset => handset == terminalId
  | .setupReq .., .setupCfm _ _ => true
  | .releaseReq .., .printed (some .ccReleaseCfm) => true
  | .linuxInitReq _ _, .linuxInitCfm => true
  | .uleInitReq _, .uleInitCfm .. => true
  | .uleDataReq terminalId .., .uleDataCfm handset _ => handset == terminalId
  | _, _ => false

/-- The request is of a kind that the stack confirms. -/
def Request.isConfirmed : Request → Bool
  | .startProtocolReq => false
  | .stopProtocolReq => false
  | .ulePvcConfigRes .. => false
  | .ulePvcPendingRes .. => false
  | .ulePvcIwuDataReq .. => false
  | _ => true

/-- The kinds that the stack confirms are those with a confirmation. -/
theorem Request.isConfirmed_iff (r : Request) :
    r.isConfirmed = true ↔ ∃ m, r.confirmedBy m = true := by
  cases r with
  | featuresReq feature => exact iff_of_true rfl ⟨.featuresCfm, rfl⟩
  | getRegistrationCountReq start =>
      exact iff_of_true rfl ⟨.getRegistrationCountCfm ⟨.success, 0, 0, fun _ => 0⟩, rfl⟩
  | getHandsetIpuiReq terminalId =>
      exact iff_of_true rfl ⟨.getHandsetIpuiCfm terminalId fun _ => 0, beq_self_eq_true terminalId⟩
  | setRegistrationModeReq enabled delete => exact iff_of_true rfl ⟨.setRegistrationModeCfm, rfl⟩
  | deleteRegistrationReq terminalId =>
      exact iff_of_true rfl ⟨.deleteRegistrationCfm terminalId, beq_self_eq_true terminalId⟩
  | setupReq callReference => exact iff_of_true rfl ⟨.setupCfm callReference 0, rfl⟩
  | releaseReq callReference => exact iff_of_true rfl ⟨.printed (some .ccReleaseCfm), rfl⟩
  | linuxInitReq length data => exact iff_of_true rfl ⟨.linuxInitCfm, rfl⟩
  | uleInitReq devices => exact iff_of_true rfl ⟨.uleInitCfm 0 devices 0, rfl⟩
  | uleDataReq terminalId => exact iff_of_true rfl ⟨.uleDataCfm terminalId 0, beq_self_eq_true _⟩
  | _ =>
      refine iff_of_false Bool.false_ne_true ?_
      rintro ⟨m, hm⟩
      cases m <;> exact Bool.false_ne_true hm

/-- The event is a confirmation of the request. -/
def Event.confirms : Event → Request → Bool
  | .mail m _, r => r.confirmedBy m
  | _, _ => false

/-! ## A step -/

/-- The requests in the log of the second state that are not in that of the first. -/
def latestRequests (w w' : World) : List Request :=
  (written w').take ((written w').length - (written w).length)

/-- One step of the manager: a confirmation answers one request, and the requests written wait
for theirs. -/
def correspond (s : Dialogue) (e : Event) : Option Dialogue :=
  (step s.world e).map fun w' =>
    ⟨w', (latestRequests s.world w').filter Request.isConfirmed ++ s.unanswered.eraseP e.confirms⟩

/-- **A step** in terms of the requests that the event makes the manager write. -/
theorem correspond_eq_some_iff {s s' : Dialogue} {e : Event} :
    correspond s e = some s' ↔
      step s.world e = some s'.world ∧
        s'.unanswered = (writes s.world e).filter Request.isConfirmed ++
          s.unanswered.eraseP e.confirms := by
  have hnew {w' : World} (h : step s.world e = some w') :
      latestRequests s.world w' = writes s.world e := by
    rw [latestRequests, written_step h, List.length_append, Nat.add_sub_cancel]
    exact List.take_left' rfl
  rw [correspond, Option.map_eq_some_iff]
  constructor
  · rintro ⟨w', hw', rfl⟩
    exact ⟨hw', by rw [hnew hw']⟩
  · rintro ⟨hw', hun⟩
    refine ⟨s'.world, hw', ?_⟩
    rw [hnew hw', ← hun]

/-! ## The requests of auto mode -/

/-- A request of the refresh chain or for a registration mode. -/
def Request.isAwaited (r : Request) : Bool := r.isRefresh || r.isMode

/-- The dialogue as auto mode sees it. -/
def Dialogue.awaited (s : Dialogue) : Dialogue := ⟨s.world, s.unanswered.filter Request.isAwaited⟩

@[simp] theorem Dialogue.awaited_world (s : Dialogue) : s.awaited.world = s.world := rfl

end DectManager
