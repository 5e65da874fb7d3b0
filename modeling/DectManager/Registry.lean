/-
# The registry: which handsets there are

The registered, present and ipui fields of the handset table are the manager's
knowledge of the stack's handsets.  Four mails write them and nothing else does:
`registry_step` says that a step applies `Registry.receive` to the registry if
it processes a mail and leaves the registry alone otherwise, and
`registry_run` that the registry after a run is a function of the mails
processed.
-/
import DectManager.PartialRun
import DectManager.Manager

namespace DectManager

open PartialRun

/-- What an entry of the table says about its handset, apart from pings. -/
structure Identity where
  registered : UInt8
  present : UInt8
  ipui : Fin 5 → UInt8
  deriving DecidableEq

/-- The entry's registry part. -/
def Hset.identity (h : Hset) : Identity := ⟨h.registered, h.present, h.ipui⟩

/-- An entry is its registry part and its ping flag. -/
theorem hset_eq_of_parts {h h' : Hset} (hid : h'.identity = h.identity)
    (hping : h'.pinging = h.pinging) : h' = h := by
  obtain ⟨registered, present, pinging, ipui⟩ := h
  obtain ⟨registered', present', pinging', ipui'⟩ := h'
  obtain ⟨rfl, rfl, rfl⟩ := Identity.mk.inj hid
  obtain rfl : pinging' = pinging := hping
  rfl

/-- The registered, present and ipui fields of the whole table. -/
abbrev Registry := Fin maxNrHandsets → Identity

namespace Registry

/-- Write an entry through a C index. -/
def modify (r : Registry) (i : ℕ) (f : Identity → Identity) : Registry :=
  fun k => if k.val = i then f (r k) else r k

theorem modify_apply (r : Registry) (i : ℕ) (f : Identity → Identity) (k : Fin maxNrHandsets) :
    r.modify i f k = if k.val = i then f (r k) else r k := rfl

/-- Mark the handsets of a list as registered, up to the first bad id. -/
def mark : List ℕ → Registry → Registry
  | [], r => r
  | handset :: ids, r =>
    if badHandsetnr handset then r
    else mark ids (r.modify (handset - 1) fun h => { h with registered := true8 })

/-- What a mail does to the registry. -/
def receive (r : Registry) : Mail → Registry
  | .handsetPresentInd handset _ =>
    if badHandsetnr handset then r
    else r.modify (handset - 1) fun h => { h with present := true8 }
  | .getHandsetIpuiCfm handset ipui =>
    if badHandsetnr handset then r else r.modify (handset - 1) fun h => { h with ipui }
  | .getRegistrationCountCfm m => if m.status = .success then mark m.ids r else r
  | .deleteRegistrationCfm handset =>
    if badHandsetnr handset then r
    else r.modify (handset - 1) fun h => { h with registered := false8, present := false8 }
  | _ => r

/-- What an event does to the registry. -/
def observe (r : Registry) : Event → Registry
  | .mail m _ => r.receive m
  | _ => r

end Registry

/-- The registry of a table. -/
def HandsetTable.registry (t : HandsetTable) : Registry := fun k => (t k).identity

/-- An update of an entry that acts on its registry part as `g`. -/
theorem HandsetTable.registry_modify (f : Hset → Hset) (g : Identity → Identity)
    (h : ∀ x, (f x).identity = g x.identity) (t : HandsetTable) (i : ℕ) :
    (t.modify i f).registry = t.registry.modify i g := by
  funext k
  simp only [HandsetTable.registry, HandsetTable.modify, Registry.modify]
  split
  · exact h _
  · rfl

/-- An update of the ping flag is none of the registry. -/
theorem HandsetTable.registry_modify_pinging (t : HandsetTable) (i : ℕ) (pinging : UInt8) :
    (t.modify i fun h => { h with pinging }).registry = t.registry := by
  funext k
  simp only [HandsetTable.registry, HandsetTable.modify]
  split <;> rfl

theorem registry_markRegistered (ids : List ℕ) (t : HandsetTable) :
    (markRegistered ids t).1.registry = t.registry.mark ids := by
  induction ids generalizing t with
  | nil => rfl
  | cons handset ids ih =>
      simp only [markRegistered_cons, Registry.mark]
      split
      · rfl
      · rw [ih, HandsetTable.registry_modify _ (fun h => { h with registered := true8 })
          fun _ => rfl]

/-- The registry of a manager state. -/
def registry (w : World) : Registry := w.status.handset.registry

/-! ## Ids and flags -/

/-- Ids of the table are not bad. -/
theorem badHandsetnr_eq_false_iff {id : ℕ} :
    badHandsetnr id = false ↔ 1 ≤ id ∧ id ≤ maxNrHandsets := by
  simp only [badHandsetnr, Bool.or_eq_false_iff, decide_eq_false_iff_not]
  omega

/-- An id that is not bad has an entry. -/
theorem exists_entry {id : ℕ} (hgood : badHandsetnr id = false) :
    ∃ k : Fin maxNrHandsets, k.val + 1 = id := by
  obtain ⟨hlow, hhigh⟩ := badHandsetnr_eq_false_iff.mp hgood
  exact ⟨⟨id - 1, by omega⟩, Nat.sub_add_cancel hlow⟩

/-- The id of an entry is not bad. -/
theorem ne_entry_of_bad {handset : ℕ} (hbad : badHandsetnr handset = true)
    (k : Fin maxNrHandsets) : handset ≠ k.val + 1 := by
  rintro rfl
  have hgood := badHandsetnr_eq_false_iff.mpr ⟨Nat.le_add_left 1 k.val, k.isLt⟩
  rw [hgood] at hbad
  exact absurd hbad (by decide)

/-- A list is marked to its end exactly when it has no bad id. -/
theorem markRegistered_finished_iff {ids : List ℕ} {t : HandsetTable} :
    (markRegistered ids t).2 = true ↔ ∀ id ∈ ids, badHandsetnr id = false := by
  induction ids generalizing t with
  | nil => simp
  | cons handset ids ih =>
      rw [markRegistered_cons, List.forall_mem_cons]
      cases hbad : badHandsetnr handset with
      | true => simp
      | false => simp [ih]

/-- An update of the entry of a handset that is not bad. -/
theorem Registry.modify_entry {handset : ℕ} (hgood : badHandsetnr handset = false) (r : Registry)
    (f : Identity → Identity) (k : Fin maxNrHandsets) :
    r.modify (handset - 1) f k = if handset = k.val + 1 then f (r k) else r k := by
  have hlow := (badHandsetnr_eq_false_iff.mp hgood).1
  have hentry : k.val = handset - 1 ↔ handset = k.val + 1 := by omega
  simp only [modify_apply, hentry]

/-- **The registry after a list**: the ids before the first bad one are marked. -/
theorem Registry.mark_apply (ids : List ℕ) (r : Registry) (k : Fin maxNrHandsets) :
    r.mark ids k =
      if k.val + 1 ∈ ids.takeWhile (fun id => !badHandsetnr id) then
        { r k with registered := true8 }
      else r k := by
  induction ids generalizing r with
  | nil => simp [Registry.mark]
  | cons handset ids ih =>
      rw [Registry.mark, List.takeWhile_cons]
      cases hbad : badHandsetnr handset with
      | true => simp
      | false =>
          simp only [Bool.false_eq_true, if_false, Bool.not_false, if_true, ih,
            Registry.modify_entry hbad, List.mem_cons]
          by_cases hk : handset = k.val + 1
          · simp [hk]
          · have hk' : ¬ k.val + 1 = handset := fun h => hk h.symm
            simp [hk, hk']

/-- The ids before the first bad one are all of them if there is none. -/
theorem takeWhile_good {ids : List ℕ} (h : ∀ id ∈ ids, badHandsetnr id = false) :
    ids.takeWhile (fun id => !badHandsetnr id) = ids := by
  rw [List.takeWhile_eq_self_iff]
  intro id hid
  simp [h id hid]

/-- The registered flags after a list without a bad id. -/
theorem Registry.mark_registered {ids : List ℕ} (h : ∀ id ∈ ids, badHandsetnr id = false)
    (r : Registry) (k : Fin maxNrHandsets) :
    (r.mark ids k).registered = if k.val + 1 ∈ ids then true8 else (r k).registered := by
  rw [Registry.mark_apply, takeWhile_good h]
  split_ifs <;> rfl

/-- The mail writes registered flags. -/
def Mail.WritesFlags : Mail → Prop
  | .getRegistrationCountCfm _ => True
  | .deleteRegistrationCfm _ => True
  | _ => False

/-- The event is a mail that writes registered flags. -/
def Event.WritesFlags : Event → Prop
  | .mail m _ => m.WritesFlags
  | _ => False

/-- Other mails leave the registered flags alone. -/
theorem Registry.receive_registered {m : Mail} (hm : ¬ m.WritesFlags) (r : Registry)
    (k : Fin maxNrHandsets) : (r.receive m k).registered = (r k).registered := by
  cases m with
  | getRegistrationCountCfm c => exact absurd trivial hm
  | deleteRegistrationCfm id => exact absurd trivial hm
  | handsetPresentInd handset length =>
      simp only [Registry.receive]
      split
      · rfl
      · rw [Registry.modify_apply]
        split <;> rfl
  | getHandsetIpuiCfm handset ipui =>
      simp only [Registry.receive]
      split
      · rfl
      · rw [Registry.modify_apply]
        split <;> rfl
  | _ => rfl

/-! ## What the handlers do to the registry -/

theorem registry_ignoresRadio : IgnoresRadio registry :=
  ⟨fun _ _ => rfl, fun _ => rfl, fun _ => rfl, fun _ _ _ => rfl⟩

@[simp] theorem registry_record (a : Action) (w : World) : registry (w.record a) = registry w := rfl

@[simp] theorem registry_writeDect (m : Request) (w : World) :
    registry (writeDect m w) = registry w := rfl

@[simp] theorem registry_setRegMode (regMode : RegState) (h : regMode ≠ .auto) (w : World) :
    registry (w.setRegMode regMode h) = registry w := rfl

@[simp] theorem registry_arm (callback : Callback) (usec : ℕ) (w : World) :
    registry (w.arm callback usec) = registry w := rfl

@[simp] theorem registry_setHandset (t : HandsetTable) (w : World) :
    registry (w.setHandset t) = t.registry := rfl

@[simp] theorem registry_controlLed (w : World) : registry (controlLed w) = registry w :=
  registry_ignoresRadio.controlLed w

@[simp] theorem registry_dectRadio (enable : Bool) (w : World) :
    registry (dectRadio enable w) = registry w :=
  registry_ignoresRadio.dectRadio enable w

@[simp] theorem registry_initCfm (w : World) : registry (initCfm w) = registry w := rfl

@[simp] theorem registry_listHandsetsSchedule (w : World) :
    registry (listHandsetsSchedule w) = registry w := rfl

@[simp] theorem registry_perhapsDisableProtocol (w : World) :
    registry (perhapsDisableProtocol w) = registry w :=
  registry_ignoresRadio.perhapsDisableProtocol w

@[simp] theorem registry_registerHandsetsStart (w : World) :
    registry (registerHandsetsStart w) = registry w := by
  simp [registerHandsetsStart, apply_ite registry]

@[simp] theorem registry_registerHandsetsStop (w : World) :
    registry (registerHandsetsStop w) = registry w := by
  simp [registerHandsetsStop, apply_ite registry]

@[simp] theorem registry_registration (w : World) : registry (registration w) = registry w := by
  simp [registration, apply_ite registry]

@[simp] theorem registry_registrationDelayedStart (w : World) :
    registry (registrationDelayedStart w) = registry w := by
  simp [registrationDelayedStart, apply_ite registry]

@[simp] theorem registry_pingHandsetStart (handset : ℕ) (w : World) :
    registry (pingHandsetStart handset w) = registry w := rfl

@[simp] theorem registry_pingHandset (handset : ℕ) (w : World) :
    registry (pingHandset handset w) = registry w := by
  simp only [pingHandset_eq, apply_ite registry, registry_arm, registry_pingHandsetStart,
    registry_setHandset, HandsetTable.registry_modify_pinging]
  simp [registry]

@[simp] theorem registry_pingHandsetStop (handset : ℕ) (w : World) :
    registry (pingHandsetStop handset w) = registry w := by
  simp only [pingHandsetStop_eq, apply_ite registry, registry_writeDect, registry_setHandset,
    HandsetTable.registry_modify_pinging]
  simp [registry]

@[simp] theorem registry_connectInd (handset : ℕ) (w : World) :
    registry (connectInd handset w) = registry w := by
  simp only [connectInd_eq, apply_ite registry, registry_setHandset,
    HandsetTable.registry_modify_pinging]
  simp [registry]

@[simp] theorem registry_deleteHset (handset : ℕ) (w : World) :
    registry (deleteHset handset w) = registry w := by
  simp [deleteHset, apply_ite registry]

theorem registry_presentInd (handset length : ℕ) (w : World) :
    registry (presentInd handset w) = (registry w).receive (.handsetPresentInd handset length) := by
  simp only [presentInd_eq, Registry.receive, apply_ite registry, registry_setHandset]
  rw [HandsetTable.registry_modify _ (fun h => { h with present := true8 }) fun _ => rfl]
  rfl

theorem registry_deleteRegistrationCfm (handset : ℕ) (w : World) :
    registry (deleteRegistrationCfm handset w) =
      (registry w).receive (.deleteRegistrationCfm handset) := by
  simp only [deleteRegistrationCfm_eq, Registry.receive, apply_ite registry, registry_setHandset]
  rw [HandsetTable.registry_modify _
    (fun h => { h with registered := false8, present := false8 }) fun _ => rfl]
  rfl

theorem registry_handsetIpuiCfm (env : Env) (handset : ℕ) (ipui : Fin 5 → UInt8) (w : World) :
    registry (handsetIpuiCfm env handset ipui w) =
      (registry w).receive (.getHandsetIpuiCfm handset ipui) := by
  simp only [handsetIpuiCfm_eq, Registry.receive, apply_ite registry, getHandsetIpui,
    registry_writeDect, registry_perhapsDisableProtocol, ite_self, registry_setHandset]
  rw [HandsetTable.registry_modify _ (fun h => { h with ipui }) fun _ => rfl]
  rfl

theorem registry_registrationCountCfm (m : RegistrationCountCfm) (w : World) :
    registry (registrationCountCfm m w) = (registry w).receive (.getRegistrationCountCfm m) := by
  simp only [registrationCountCfm_eq, Registry.receive, apply_ite registry, getHandsetIpui,
    registry_writeDect, registry_perhapsDisableProtocol, ite_self, registry_setHandset,
    registry_markRegistered]
  rfl

/-! ## One step, one run -/

theorem registry_handleDectPacket (env : Env) (m : Mail) (w : World) :
    registry (handleDectPacket env m w) = (registry w).receive m := by
  cases m with
  | handsetPresentInd handset length =>
      rw [handleDectPacket, apply_ite registry, registry_initCfm, registry_presentInd _ length,
        ite_self]
  | getHandsetIpuiCfm handset ipui => exact registry_handsetIpuiCfm env handset ipui w
  | getRegistrationCountCfm m => exact registry_registrationCountCfm m w
  | deleteRegistrationCfm handset => exact registry_deleteRegistrationCfm handset w
  | setRegistrationModeCfm =>
      rw [handleDectPacket, apply_ite registry, registry_initCfm, ite_self]
      rfl
  | featuresCfm =>
      rw [handleDectPacket, listHandsets, registry_writeDect, apply_ite registry,
        registry_dectRadio, ite_self]
      rfl
  | connectInd handset => exact registry_connectInd handset w
  | registrationCompleteInd => exact registry_registerHandsetsStop w
  | _ => rfl

theorem registry_handleClientPacket {env : Env} {type : UInt32} {data : UInt8} {w w' : World}
    (h : handleClientPacket env type data w = some w') : registry w' = registry w := by
  unfold handleClientPacket at h
  cases htype : PacketType.ofCode type with
  | none =>
      simp only [htype, Option.some.injEq] at h
      rw [← h]
  | some t =>
      cases t <;> simp only [htype, Option.some.injEq] at h
      case reloadConfig =>
        obtain ⟨config, -, rfl⟩ := Option.map_eq_some_iff.mp h
        simp only [apply_ite registry, registry_listHandsetsSchedule, registry_dectRadio,
          registry_initCfm, ite_self]
        rfl
      case init =>
        unfold dectInit at h
        split at h
        · obtain ⟨data, -, rfl⟩ := Option.map_eq_some_iff.mp h
          rfl
        · rw [Option.some.inj h]
      case button =>
        split at h
        · rw [← Option.some.inj h, registry_registration]
        · rw [Option.some.inj h]
      case getStatus | listHandsets | zwitch | uleStart =>
        rw [← h]
        rfl
      case registration => rw [← h, registry_registration]
      case pingHset => rw [← h, registry_pingHandset]
      case radio => rw [← h, registry_dectRadio]
      case deleteHset => rw [← h, registry_deleteHset]
      all_goals rw [← h]

theorem registry_expire (callback : Callback) (w : World) :
    registry (expire callback w) = registry w := by
  cases callback <;> simp [expire]

/-- **One step.**  Only a mail changes the registry, and its effect depends on the
mail and the registry alone. -/
theorem registry_step {w w' : World} {e : Event} (h : step w e = some w') :
    registry w' = (registry w).observe e := by
  cases e with
  | client type data env =>
      obtain ⟨v, hv, rfl⟩ := Option.map_eq_some_iff.mp h
      exact (registry_handleClientPacket hv :)
  | mail m env =>
      obtain rfl : tick (handleDectPacket env m w) = w' := by simpa [step] using h
      exact registry_handleDectPacket env m w
  | timeout t =>
      simp only [step, Option.ite_none_right_eq_some, Option.some.injEq] at h
      obtain ⟨-, rfl⟩ := h
      exact registry_expire t.callback { w with timers := w.timers.erase t }

/-- The registered flags after a step that writes none. -/
theorem registered_step {w w' : World} {e : Event} (h : step w e = some w')
    (he : ¬ e.WritesFlags) (k : Fin maxNrHandsets) :
    (w'.status.handset k).registered = (w.status.handset k).registered := by
  have hreg : (registry w' k).registered = ((registry w).observe e k).registered := by
    rw [registry_step h]
  refine hreg.trans ?_
  cases e with
  | mail m env => exact Registry.receive_registered he _ k
  | _ => rfl

/-- **A run.**  The registry is what the mails processed have made of it. -/
theorem registry_run {w w' : World} {es : List Event} (h : run step w es = some w') :
    registry w' = es.foldl Registry.observe (registry w) :=
  proj_run (fun _ _ _ => registry_step) es w w' h

end DectManager
