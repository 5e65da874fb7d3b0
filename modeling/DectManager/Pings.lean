/-
# Pings and the calls that they set up

A ping asks the stack to set up a call, marks the handset as pinging and arms a
timer.  The stack confirms the request with the reference of the call; the
handset ends the ping when it answers, and the timer ends it otherwise, with a
request to release the call.  There is one `CallReference` for all of them, and
the timer of a ping that has been answered stays armed.

`Calls` puts beside the manager which ping each confirmation belongs to.
`release_own_call_iff` says when the expiries of a run release only their own
calls: exactly when each expiry that finds a ping of its handset in progress is
that of the handset's last ping, and the confirmation of this ping was the last
to write `CallReference`.
-/
import DectManager.Writes
import DectManager.Timers

namespace DectManager

open PartialRun

/-! ## Events about pings -/

/-- The handset that an event makes the manager ping. -/
def pingOf (w : World) : Event → Option ℕ
  | .client type data _ =>
    if type = PacketType.pingHset.code ∧ badHandsetnr data.toNat = false ∧
        w.config.radio ≠ .disabled then some data.toNat
    else none
  | _ => none

/-- The handset whose ping an event ends. -/
def endsPing : Event → Option ℕ
  | .mail (.connectInd handset) _ => some handset
  | .timeout ⟨.pingHandsetStop handset, _, _⟩ => some handset
  | _ => none

/-- The call reference that an event confirms. -/
def confirms : Event → Option CallReference
  | .mail (.setupCfm callReference _) _ => some callReference
  | _ => none

/-- A ping is of a handset of the table, and nothing else. -/
theorem pingOf_spec {w : World} {e : Event} {handset : ℕ} (h : pingOf w e = some handset) :
    badHandsetnr handset = false ∧ confirms e = none ∧ endsPing e = none := by
  cases e with
  | client type data env =>
      simp only [pingOf, Option.ite_none_right_eq_some, Option.some.injEq] at h
      obtain ⟨⟨-, hgood, -⟩, rfl⟩ := h
      exact ⟨hgood, rfl, rfl⟩
  | _ => cases h

/-- A confirmation ends no ping. -/
theorem endsPing_of_confirms {e : Event} {r : CallReference} (h : confirms e = some r) :
    endsPing e = none := by
  cases e with
  | mail m env =>
      cases m with
      | setupCfm callReference status => rfl
      | _ => cases h
  | _ => cases h

/-! ## What the handlers do to the pings -/

/-- The global call reference and the ping flags. -/
def pinging (w : World) : CallReference × (Fin maxNrHandsets → UInt8) :=
  (w.callReference, fun k => (w.status.handset k).pinging)

theorem pinging_ignoresRadio : IgnoresRadio pinging :=
  ⟨fun _ _ => rfl, fun _ => rfl, fun _ => rfl, fun _ _ _ => rfl⟩

@[simp] theorem pinging_writeDect (m : Request) (w : World) :
    pinging (writeDect m w) = pinging w := rfl

@[simp] theorem pinging_record (a : Action) (w : World) : pinging (w.record a) = pinging w := rfl

@[simp] theorem pinging_setRegMode (regMode : RegState) (h : regMode ≠ .auto) (w : World) :
    pinging (w.setRegMode regMode h) = pinging w := rfl

@[simp] theorem pinging_arm (callback : Callback) (usec : ℕ) (w : World) :
    pinging (w.arm callback usec) = pinging w := rfl

@[simp] theorem pinging_controlLed (w : World) : pinging (controlLed w) = pinging w :=
  pinging_ignoresRadio.controlLed w

@[simp] theorem pinging_dectRadio (enable : Bool) (w : World) :
    pinging (dectRadio enable w) = pinging w :=
  pinging_ignoresRadio.dectRadio enable w

@[simp] theorem pinging_initCfm (w : World) : pinging (initCfm w) = pinging w := rfl

@[simp] theorem pinging_listHandsetsSchedule (w : World) :
    pinging (listHandsetsSchedule w) = pinging w := rfl

@[simp] theorem pinging_perhapsDisableProtocol (w : World) :
    pinging (perhapsDisableProtocol w) = pinging w :=
  pinging_ignoresRadio.perhapsDisableProtocol w

/-- An update of an entry that keeps its ping flag. -/
theorem pinging_setHandset_modify {f : Hset → Hset} (hf : ∀ h, (f h).pinging = h.pinging)
    (i : ℕ) (w : World) : pinging (w.setHandset (w.status.handset.modify i f)) = pinging w := by
  unfold pinging World.setHandset HandsetTable.modify
  refine Prod.ext rfl (funext fun k => ?_)
  dsimp only
  split_ifs
  · exact hf _
  · rfl

/-- Marking handsets keeps the ping flags. -/
theorem pinging_setHandset_markRegistered (ids : List ℕ) (w : World) :
    pinging (w.setHandset (markRegistered ids w.status.handset).1) = pinging w := by
  suffices h : ∀ t : HandsetTable, ∀ k, ((markRegistered ids t).1 k).pinging = (t k).pinging from
    Prod.ext rfl (funext (h w.status.handset))
  intro t
  induction ids generalizing t with
  | nil => exact fun _ => rfl
  | cons handset ids ih =>
      intro k
      rw [markRegistered_cons]
      split_ifs
      · rfl
      · rw [ih, HandsetTable.modify]
        split_ifs <;> rfl

@[simp] theorem pinging_registrationCountCfm (m : RegistrationCountCfm) (w : World) :
    pinging (registrationCountCfm m w) = pinging w := by
  simp only [registrationCountCfm_eq, getHandsetIpui, apply_ite pinging, pinging_writeDect,
    pinging_perhapsDisableProtocol, pinging_setHandset_markRegistered, ite_self]

@[simp] theorem pinging_handsetIpuiCfm (env : Env) (handset : ℕ) (ipui : Fin 5 → UInt8)
    (w : World) : pinging (handsetIpuiCfm env handset ipui w) = pinging w := by
  have hset := pinging_setHandset_modify (f := fun h => { h with ipui }) (fun _ => rfl)
    (handset - 1) w
  simp only [handsetIpuiCfm_eq, getHandsetIpui, apply_ite pinging, pinging_writeDect,
    pinging_perhapsDisableProtocol, hset, ite_self]

@[simp] theorem pinging_presentInd (handset : ℕ) (w : World) :
    pinging (presentInd handset w) = pinging w := by
  have hset := pinging_setHandset_modify (f := fun h => { h with present := true8 })
    (fun _ => rfl) (handset - 1) w
  simp only [presentInd_eq, apply_ite pinging, hset, ite_self]

@[simp] theorem pinging_deleteRegistrationCfm (handset : ℕ) (w : World) :
    pinging (deleteRegistrationCfm handset w) = pinging w := by
  have hset := pinging_setHandset_modify
    (f := fun h => { h with registered := false8, present := false8 }) (fun _ => rfl)
    (handset - 1) w
  simp only [deleteRegistrationCfm_eq, apply_ite pinging, hset, ite_self]

@[simp] theorem pinging_registerHandsetsStop (w : World) :
    pinging (registerHandsetsStop w) = pinging w := by
  simp [registerHandsetsStop, apply_ite pinging]

@[simp] theorem pinging_registration (w : World) : pinging (registration w) = pinging w := by
  simp [registration, registerHandsetsStart, apply_ite pinging]

@[simp] theorem pinging_registrationDelayedStart (w : World) :
    pinging (registrationDelayedStart w) = pinging w := by
  simp [registrationDelayedStart, apply_ite pinging]

@[simp] theorem pinging_deleteHset (handset : ℕ) (w : World) :
    pinging (deleteHset handset w) = pinging w := by
  simp [deleteHset, apply_ite pinging]

/-- A ping takes the call reference and sets the handset's flag. -/
def ring (handset : ℕ) (p : CallReference × (Fin maxNrHandsets → UInt8)) :
    CallReference × (Fin maxNrHandsets → UInt8) :=
  (⟨0, 0, 1⟩, fun k => if k.val + 1 = handset then true8 else p.2 k)

/-- The end of a ping clears the handset's flag. -/
def hangUp (handset : ℕ) (p : CallReference × (Fin maxNrHandsets → UInt8)) :
    CallReference × (Fin maxNrHandsets → UInt8) :=
  (p.1, fun k => if k.val + 1 = handset ∧ p.2 k = true8 then false8 else p.2 k)

theorem pinging_pingHandset (handset : ℕ) (w : World) :
    pinging (pingHandset handset w) =
      if badHandsetnr handset = false ∧ w.config.radio ≠ .disabled then ring handset (pinging w)
      else pinging w := by
  rw [pingHandset_eq]
  cases hbad : badHandsetnr handset with
  | true => simp
  | false =>
      obtain ⟨i, rfl⟩ := exists_entry hbad
      by_cases hcfg : w.config.radio = .disabled
      · simp [hcfg]
      · simp only [Bool.false_eq_true, if_false, hcfg, ne_eq, not_false_eq_true, and_self, if_true]
        refine Prod.ext rfl (funext fun k => ?_)
        show (w.status.handset.modify (i.val + 1 - 1) _ k).pinging = _
        simp only [HandsetTable.modify, ring, Nat.add_sub_cancel, Nat.add_right_cancel_iff]
        split_ifs <;> rfl

theorem pinging_connectInd (handset : ℕ) (w : World) :
    pinging (connectInd handset w) = hangUp handset (pinging w) := by
  rw [connectInd_eq]
  cases hbad : badHandsetnr handset with
  | true =>
      -- no entry has this id
      have hne (k : Fin maxNrHandsets) : k.val + 1 ≠ handset := (ne_entry_of_bad hbad k).symm
      simp [hangUp, hne]
  | false =>
      obtain ⟨i, rfl⟩ := exists_entry hbad
      simp only [Bool.false_eq_true, if_false, Nat.add_sub_cancel, HandsetTable.read_val]
      split_ifs with hflag
      · refine Prod.ext rfl (funext fun k => ?_)
        show (w.status.handset.modify i.val _ k).pinging = _
        simp only [HandsetTable.modify, hangUp, Nat.add_right_cancel_iff, pinging]
        by_cases hk : k.val = i.val
        · obtain rfl : k = i := Fin.ext hk
          simp [hflag]
        · simp [hk]
      · refine Prod.ext rfl (funext fun k => ?_)
        simp only [hangUp, Nat.add_right_cancel_iff, pinging]
        rw [if_neg]
        rintro ⟨hk, hset⟩
        obtain rfl : k = i := Fin.ext hk
        exact hflag hset

theorem pinging_pingHandsetStop (handset : ℕ) (w : World) :
    pinging (pingHandsetStop handset w) = hangUp handset (pinging w) := by
  rw [← pinging_connectInd]
  simp only [pingHandsetStop_eq, connectInd_eq, apply_ite pinging, pinging_writeDect]

/-! ## One step -/

/-- What an event does to the call reference and the ping flags. -/
def pingEffect (w : World) (e : Event) : CallReference × (Fin maxNrHandsets → UInt8) :=
  match pingOf w e, confirms e, endsPing e with
  | some handset, _, _ => ring handset (pinging w)
  | none, some callReference, _ => (callReference, (pinging w).2)
  | none, none, some handset => hangUp handset (pinging w)
  | none, none, none => pinging w

theorem pinging_handleClientPacket {env : Env} {type : UInt32} {data : UInt8} {w w' : World}
    (h : handleClientPacket env type data w = some w') :
    pinging w' = pingEffect w (.client type data env) := by
  unfold handleClientPacket at h
  simp only [pingEffect, pingOf, confirms, endsPing, ← PacketType.ofCode_eq_some_iff]
  cases htype : PacketType.ofCode type with
  | none =>
      simp only [htype, Option.some.injEq] at h
      simp [h]
  | some t =>
      cases t <;> simp only [htype, Option.some.injEq] at h
      case pingHset =>
        rw [← h, pinging_pingHandset]
        simp only [true_and]
        split_ifs <;> rfl
      case reloadConfig =>
        obtain ⟨config, -, rfl⟩ := Option.map_eq_some_iff.mp h
        simp only [apply_ite pinging, pinging_listHandsetsSchedule, pinging_dectRadio,
          pinging_initCfm, ite_self]
        rfl
      case init =>
        unfold dectInit at h
        split at h
        · obtain ⟨data, -, rfl⟩ := Option.map_eq_some_iff.mp h
          rfl
        · rw [← Option.some.inj h]
          rfl
      case button =>
        split at h
        · rw [← Option.some.inj h, pinging_registration]
          rfl
        · rw [← Option.some.inj h]
          rfl
      case registration =>
        rw [← h, pinging_registration]
        rfl
      case radio =>
        rw [← h, pinging_dectRadio]
        rfl
      case deleteHset =>
        rw [← h, pinging_deleteHset]
        rfl
      all_goals
        rw [← h]
        rfl

theorem pinging_handleDectPacket (env : Env) (m : Mail) (w : World) :
    pinging (handleDectPacket env m w) = pingEffect w (.mail m env) := by
  cases m with
  | connectInd handset => exact pinging_connectInd handset w
  | handsetPresentInd handset length =>
      rw [handleDectPacket, apply_ite pinging, pinging_initCfm, pinging_presentInd, ite_self]
      rfl
  | setRegistrationModeCfm =>
      rw [handleDectPacket, apply_ite pinging, pinging_initCfm, ite_self]
      rfl
  | getHandsetIpuiCfm handset ipui => exact pinging_handsetIpuiCfm env handset ipui w
  | getRegistrationCountCfm m => exact pinging_registrationCountCfm m w
  | deleteRegistrationCfm handset =>
      rw [handleDectPacket, pinging_listHandsetsSchedule, pinging_deleteRegistrationCfm]
      rfl
  | registrationCompleteInd => exact pinging_registerHandsetsStop w
  | featuresCfm =>
      rw [handleDectPacket, listHandsets, pinging_writeDect, apply_ite pinging, pinging_dectRadio,
        ite_self]
      rfl
  | _ => rfl

theorem pinging_expire (t : Timer) (w : World) :
    pinging (expire t.callback w) = pingEffect w (.timeout t) := by
  obtain ⟨callback, usec, armed⟩ := t
  cases callback with
  | initCfm => rfl
  | registrationDelayedStart => exact pinging_registrationDelayedStart w
  | registerHandsetsStop => exact pinging_registerHandsetsStop w
  | pingHandsetStop handset => exact pinging_pingHandsetStop handset w

/-- **One step.**  What an event does to the call reference and the ping flags. -/
theorem pinging_step {w w' : World} {e : Event} (h : step w e = some w') :
    pinging w' = pingEffect w e := by
  cases e with
  | client type data env =>
      obtain ⟨v, hv, rfl⟩ := Option.map_eq_some_iff.mp h
      exact (pinging_handleClientPacket hv :)
  | mail m env =>
      obtain rfl : tick (handleDectPacket env m w) = w' := by simpa [step] using h
      exact pinging_handleDectPacket env m w
  | timeout t =>
      simp only [step, Option.ite_none_right_eq_some, Option.some.injEq] at h
      obtain ⟨-, rfl⟩ := h
      exact pinging_expire t { w with timers := w.timers.erase t }

/-- **One step.**  What an event does to a ping flag. -/
theorem flag_step {w w' : World} {e : Event} (h : step w e = some w') (k : Fin maxNrHandsets) :
    (w'.status.handset k).pinging = true8 ↔
      pingOf w e = some (k.val + 1) ∨
        (w.status.handset k).pinging = true8 ∧ endsPing e ≠ some (k.val + 1) := by
  have hflag : (w'.status.handset k).pinging = (pingEffect w e).2 k :=
    congrFun (congrArg Prod.snd (pinging_step h)) k
  rw [hflag]
  unfold pingEffect
  cases hping : pingOf w e with
  | some handset =>
      obtain ⟨-, -, hends⟩ := pingOf_spec hping
      by_cases hk : k.val + 1 = handset
      · simp [ring, hk]
      · have hk' : ¬ handset = k.val + 1 := fun h => hk h.symm
        simp [ring, hk, hk', hends, pinging]
  | none =>
      cases hconf : confirms e with
      | some r => simp [endsPing_of_confirms hconf, pinging]
      | none =>
          cases hends : endsPing e with
          | some handset =>
              by_cases hk : k.val + 1 = handset
              · by_cases hset : (w.status.handset k).pinging = true8
                · simp [hangUp, hk, hset, pinging, true8, false8]
                · simp [hangUp, hk, hset, pinging]
              · have hk' : ¬ handset = k.val + 1 := fun h => hk h.symm
                simp [hangUp, hk, hk', pinging]
          | none => simp [pinging]

/-- **One step.**  What an event does to the call reference. -/
theorem callReference_step {w w' : World} {e : Event} (h : step w e = some w') :
    w'.callReference =
      if (pingOf w e).isSome then ⟨0, 0, 1⟩ else (confirms e).getD w.callReference := by
  have href : w'.callReference = (pingEffect w e).1 := congrArg Prod.fst (pinging_step h)
  rw [href]
  unfold pingEffect
  cases pingOf w e with
  | some handset => rfl
  | none =>
      cases confirms e with
      | some r => rfl
      | none => cases endsPing e <;> rfl

/-! ## Ping timers -/

/-- A ping timer is armed by a ping only, of the same handset. -/
theorem pingOf_of_mem_armedBy {w : World} {e : Event} {t : Timer} {handset : ℕ}
    (h : t ∈ armedBy w e) (hcb : t.callback = .pingHandsetStop handset) :
    pingOf w e = some handset := by
  have hreg (h : t ∈ registrationArms w) : False := by
    unfold registrationArms at h
    split_ifs at h <;> simp_all
  cases e with
  | client type data env =>
      simp only [pingOf, ← PacketType.ofCode_eq_some_iff]
      unfold armedBy at h
      cases htype : PacketType.ofCode type with
      | none => simp [htype] at h
      | some p =>
          cases p <;> simp only [htype, List.not_mem_nil] at h
          case pingHset =>
            split_ifs at h with hrefuse
            · simp at h
            · obtain rfl : t = _ := List.mem_singleton.mp h
              obtain rfl := Callback.pingHandsetStop.inj hcb
              simpa using hrefuse
          case registration => exact (hreg h).elim
          case button =>
            split_ifs at h
            · exact (hreg h).elim
            · simp at h
          case reloadConfig =>
            split_ifs at h <;> simp_all
  | mail m env => cases m <;> simp_all [armedBy]
  | timeout t' =>
      simp only [armedBy, expiryArms] at h
      split at h
      · split_ifs at h
        · exact (hreg h).elim
        · simp at h
      · simp at h

/-- **A pending ping timer** was armed by a ping of its handset, the event that its stamp names. -/
theorem ping_of_mem_timers (config : Config) :
    ∀ es w, run step (initial config) es = some w → ∀ t ∈ w.timers, ∀ handset,
      t.callback = .pingHandsetStop handset →
        ∃ pre e post v, es = pre ++ e :: post ∧ pre.length = t.armed ∧
          run step (initial config) pre = some v ∧ pingOf v e = some handset := by
  intro es w hrun t ht handset hcb
  obtain ⟨pre, e, post, v, hes, hlen, hv, harm⟩ := armedBy_of_mem_timers config es w hrun t ht
  exact ⟨pre, e, post, v, hes, hlen, hv, pingOf_of_mem_armedBy harm hcb⟩

/-! ## The manager and the calls that it has asked for -/

/-- No two arguments have the same value. -/
def Distinct {ι α : Type*} (f : ι → Option α) : Prop :=
  ∀ i j a, f i = some a → f j = some a → i = j

/-- A new value keeps the values distinct. -/
theorem Distinct.update {ι α : Type*} [DecidableEq ι] {f : ι → Option α} (hf : Distinct f) {a : α}
    (hnew : ∀ i, f i ≠ some a) (i : ι) : Distinct (Function.update f i (some a)) := by
  intro j k b hj hk
  rw [Function.update_apply] at hj hk
  split_ifs at hj hk with hji hki hki
  · rw [hji, hki]
  · rw [← hj] at hk
    exact absurd hk (hnew k)
  · rw [← hk] at hj
    exact absurd hj (hnew j)
  · exact hf j k b hj hk

/-- What has written the call reference last. -/
inductive Origin
  | start
  | ping
  | confirmation (ping : ℕ)
  deriving DecidableEq, Repr

/-- A manager and its pings.  A ping is named by the number of events processed before it, which is
also the stamp of its timer. -/
structure Calls where
  world : World
  /-- the pings whose calls the stack has still to confirm, oldest first -/
  unconfirmed : List ℕ
  /-- the reference that the stack has confirmed for a ping -/
  reference : ℕ → Option CallReference
  /-- what has written the global call reference last -/
  origin : Origin
  /-- the last ping of a handset -/
  lastPing : ℕ → Option ℕ
  /-- the ping of a handset that is in progress -/
  current : ℕ → Option ℕ

namespace Calls

/-- Before the first event. -/
def initial (config : Config) : Calls where
  world := DectManager.initial config
  unconfirmed := []
  reference := fun _ => none
  origin := .start
  lastPing := fun _ => none
  current := fun _ => none

/-- What an event that leads the manager to `w'` says about the pings. -/
def observe (s : Calls) (e : Event) (w' : World) : Calls :=
  match pingOf s.world e, confirms e, endsPing e with
  | some handset, _, _ =>
    { world := w'
      unconfirmed := s.unconfirmed ++ [s.world.clock]
      reference := s.reference
      origin := .ping
      lastPing := Function.update s.lastPing handset (some s.world.clock)
      current := Function.update s.current handset (some s.world.clock) }
  | none, some callReference, _ =>
    -- requests are confirmed in the order in which they were sent
    match s.unconfirmed with
    | ping :: rest =>
      { s with
        world := w'
        unconfirmed := rest
        reference := Function.update s.reference ping (some callReference)
        origin := .confirmation ping }
    | [] => { s with world := w' }
  | none, none, some handset =>
    { s with world := w', current := Function.update s.current handset none }
  | none, none, none => { s with world := w' }

@[simp] theorem observe_world (s : Calls) (e : Event) (w' : World) :
    (s.observe e w').world = w' := by
  unfold observe
  split
  · rfl
  · split <;> rfl
  · rfl
  · rfl

/-- One step of the manager, with the bookkeeping. -/
def track (s : Calls) (e : Event) : Option Calls := (step s.world e).map (s.observe e)

/-- A step of the manager and what it says about the pings. -/
theorem track_eq_some_iff {s s' : Calls} {e : Event} :
    track s e = some s' ↔ step s.world e = some s'.world ∧ s' = s.observe e s'.world := by
  rw [track, Option.map_eq_some_iff]
  constructor
  · rintro ⟨w', hw', rfl⟩
    rw [observe_world]
    exact ⟨hw', rfl⟩
  · rintro ⟨hw', hs'⟩
    exact ⟨s'.world, hw', hs'.symm⟩

/-- The bookkeeping restricts no run of the manager. -/
theorem exists_track_run {config : Config} {es : List Event} {w : World}
    (hrun : run step (DectManager.initial config) es = some w) :
    ∃ s, run track (initial config) es = some s ∧ s.world = w := by
  refine run_lift (fun s e w' he => ⟨s.observe e w', ?_, observe_world s e w'⟩) es
    (initial config) w hrun
  rw [track, he, Option.map_some]

/-- The stack confirms only requests, in order, and never with a reference that it has confirmed
before. -/
def Orderly (s : Calls) (e : Event) : Prop :=
  ∀ r, confirms e = some r → s.unconfirmed ≠ [] ∧ ∀ ping, s.reference ping ≠ some r

/-- The global call reference is what `origin` says. -/
def Explained (s : Calls) : Prop :=
  match s.origin with
  | .start => ∀ ping, s.reference ping = none
  | .ping => s.world.callReference = ⟨0, 0, 1⟩
  | .confirmation ping => s.reference ping = some s.world.callReference

/-- What the bookkeeping knows of the manager. -/
structure Kept (s : Calls) : Prop where
  explained : s.Explained
  distinct : Distinct s.reference
  flag : ∀ k : Fin maxNrHandsets,
    (s.world.status.handset k).pinging = true8 ↔ s.current (k.val + 1) ≠ none
  good : ∀ handset, s.current handset ≠ none → badHandsetnr handset = false
  last : ∀ handset, s.current handset ≠ none → s.current handset = s.lastPing handset

theorem kept_initial (config : Config) : (initial config).Kept where
  explained := fun _ => rfl
  distinct := fun _ _ _ h _ => by cases h
  flag := fun _ => iff_of_false (fun h => absurd (show false8 = true8 from h) (by decide))
    fun h => h rfl
  good := fun _ h => absurd rfl h
  last := fun _ h => absurd rfl h

/-- The ping in progress after an event. -/
theorem observe_current (s : Calls) (e : Event) (w' : World) (handset : ℕ) :
    (s.observe e w').current handset =
      if pingOf s.world e = some handset then some s.world.clock
      else if endsPing e = some handset then none
      else s.current handset := by
  unfold observe
  cases hping : pingOf s.world e with
  | some h =>
      obtain ⟨-, -, hends⟩ := pingOf_spec hping
      simp [hends, Function.update_apply, eq_comm]
  | none =>
      cases hconf : confirms e with
      | some r => cases hun : s.unconfirmed <;> simp [endsPing_of_confirms hconf]
      | none =>
          cases hends : endsPing e with
          | some h => simp [Function.update_apply, eq_comm]
          | none => simp

/-- The last ping after an event. -/
theorem observe_lastPing (s : Calls) (e : Event) (w' : World) (handset : ℕ) :
    (s.observe e w').lastPing handset =
      if pingOf s.world e = some handset then some s.world.clock else s.lastPing handset := by
  unfold observe
  cases hping : pingOf s.world e with
  | some h => simp [Function.update_apply, eq_comm]
  | none =>
      cases confirms e with
      | some r => cases s.unconfirmed <;> simp
      | none => cases endsPing e <;> simp

/-- What a ping does to the references and their origin. -/
theorem observe_of_ping {s : Calls} {e : Event} {handset : ℕ}
    (hping : pingOf s.world e = some handset) (w' : World) :
    (s.observe e w').reference = s.reference ∧ (s.observe e w').origin = .ping := by
  unfold observe
  rw [hping]
  exact ⟨rfl, rfl⟩

/-- What a confirmation does to the references and their origin. -/
theorem observe_of_confirms {s : Calls} {e : Event} {r : CallReference} {ping : ℕ} {rest : List ℕ}
    (hping : pingOf s.world e = none) (hconf : confirms e = some r)
    (hun : s.unconfirmed = ping :: rest) (w' : World) :
    (s.observe e w').reference = Function.update s.reference ping (some r) ∧
      (s.observe e w').origin = .confirmation ping := by
  unfold observe
  simp only [hping, hconf, hun, and_self]

/-- Other events leave the references and their origin alone. -/
theorem observe_of_none {s : Calls} {e : Event} (hping : pingOf s.world e = none)
    (hconf : confirms e = none) (w' : World) :
    (s.observe e w').reference = s.reference ∧ (s.observe e w').origin = s.origin := by
  unfold observe
  rw [hping, hconf]
  cases endsPing e <;> exact ⟨rfl, rfl⟩

/-- **One step** with an orderly stack keeps the references explained and distinct. -/
theorem references_step {s s' : Calls} {e : Event} (hs : s.Kept) (ho : s.Orderly e)
    (h : track s e = some s') : s'.Explained ∧ Distinct s'.reference := by
  obtain ⟨hstep, hobs⟩ := track_eq_some_iff.mp h
  have href := callReference_step hstep
  unfold Explained
  cases hping : pingOf s.world e with
  | some handset =>
      obtain ⟨hreference, horigin⟩ := observe_of_ping hping s'.world
      rw [← hobs] at hreference horigin
      rw [hreference, horigin, href, hping]
      exact ⟨rfl, hs.distinct⟩
  | none =>
      cases hconf : confirms e with
      | some r =>
          obtain ⟨hun, hnew⟩ := ho r hconf
          obtain ⟨ping, rest, hcons⟩ := List.exists_cons_of_ne_nil hun
          obtain ⟨hreference, horigin⟩ := observe_of_confirms hping hconf hcons s'.world
          rw [← hobs] at hreference horigin
          rw [hreference, horigin, href, hping, hconf]
          refine ⟨?_, hs.distinct.update hnew ping⟩
          show Function.update s.reference ping (some r) ping = some r
          rw [Function.update_self]
      | none =>
          obtain ⟨hreference, horigin⟩ := observe_of_none hping hconf s'.world
          rw [← hobs] at hreference horigin
          rw [hreference, horigin, href, hping, hconf]
          exact ⟨hs.explained, hs.distinct⟩

/-- **One step** with an orderly stack keeps the bookkeeping. -/
theorem kept_step {s s' : Calls} {e : Event} (hs : s.Kept) (ho : s.Orderly e)
    (h : track s e = some s') : s'.Kept := by
  obtain ⟨hstep, hobs⟩ := track_eq_some_iff.mp h
  obtain ⟨hexplained, hdistinct⟩ := references_step hs ho h
  have hcur (handset : ℕ) := observe_current s e s'.world handset
  have hlast (handset : ℕ) := observe_lastPing s e s'.world handset
  rw [← hobs] at hcur hlast
  refine ⟨hexplained, hdistinct, fun k => ?_, fun handset => ?_, fun handset => ?_⟩
  · rw [flag_step hstep k, hcur, hs.flag k]
    split_ifs with hping hends
    · simp [hping]
    · simp [hping, hends]
    · simp [hping, hends]
  · rw [hcur]
    split_ifs with hping hends
    · exact fun _ => (pingOf_spec hping).1
    · exact fun h => absurd rfl h
    · exact hs.good handset
  · rw [hcur, hlast]
    split_ifs with hping hends
    · exact fun _ => rfl
    · exact fun h => absurd rfl h
    · exact hs.last handset

/-! ## Expiries -/

/-- If the event is the expiry of a ping timer and makes the manager release a call, then the
reference is the one that was confirmed for the ping that armed the timer, and this ping is the one
in progress. -/
def ReleasesOwnCall (s : Calls) (e : Event) (s' : Calls) : Prop :=
  ∀ t handset r reason length, e = .timeout t → t.callback = .pingHandsetStop handset →
    written s'.world = .releaseReq r reason length :: written s.world →
    s.reference t.armed = some r ∧ s.current handset = some t.armed

/-- If the event is the expiry of a ping timer and finds a ping of its handset in progress, then the
ping that armed the timer is the last one of the handset, and the confirmation of this ping was the
last to write the call reference (or a ping was, and the stack has confirmed this ping with the
reference that every ping writes). -/
def ExpiresOwn (s : Calls) (e : Event) : Prop :=
  ∀ t handset, e = .timeout t → t.callback = .pingHandsetStop handset →
    s.current handset ≠ none →
    s.lastPing handset = some t.armed ∧
      (s.origin = .confirmation t.armed ∨
        s.origin = .ping ∧ s.reference t.armed = some ⟨0, 0, 1⟩)

/-- The global call reference is that of a ping exactly when its confirmation has written it
last, or a ping has and the reference is the same. -/
theorem Kept.reference_iff {s : Calls} (hs : s.Kept) (ping : ℕ) :
    s.reference ping = some s.world.callReference ↔
      s.origin = .confirmation ping ∨
        s.origin = .ping ∧ s.reference ping = some ⟨0, 0, 1⟩ := by
  have hexpl := hs.explained
  unfold Explained at hexpl
  cases horigin : s.origin with
  | start =>
      rw [horigin] at hexpl
      simp [hexpl ping]
  | ping =>
      rw [horigin] at hexpl
      simp [show s.world.callReference = ⟨0, 0, 1⟩ from hexpl]
  | confirmation p =>
      rw [horigin] at hexpl
      have hp : s.reference p = some s.world.callReference := hexpl
      constructor
      · intro h
        exact .inl (by rw [hs.distinct p ping _ hp h])
      · rintro (h | ⟨h, -⟩)
        · rw [← Origin.confirmation.inj h]
          exact hp
        · cases h

/-- The flag that an expiry looks at tells whether a ping is in progress. -/
theorem Kept.current_iff {s : Calls} (hs : s.Kept) (handset : ℕ) :
    s.current handset ≠ none ↔
      badHandsetnr handset = false ∧
        (s.world.status.handset.read .zero (handset - 1)).pinging = true8 := by
  constructor
  · intro hcur
    have hgood := hs.good handset hcur
    obtain ⟨k, rfl⟩ := exists_entry hgood
    rw [Nat.add_sub_cancel, HandsetTable.read_val]
    exact ⟨hgood, (hs.flag k).mpr hcur⟩
  · rintro ⟨hgood, hflag⟩
    obtain ⟨k, rfl⟩ := exists_entry hgood
    rw [Nat.add_sub_cancel, HandsetTable.read_val] at hflag
    exact (hs.flag k).mp hflag

/-- An expiry that finds a ping of its handset in progress releases the call with the global
reference, and no other expiry releases one. -/
theorem written_of_expiry {s s' : Calls} {t : Timer} {handset : ℕ} (hs : s.Kept)
    (hcb : t.callback = .pingHandsetStop handset) (h : step s.world (.timeout t) = some s'.world)
    (r : CallReference) (reason : ApiConstant) (length : ℕ) :
    written s'.world = .releaseReq r reason length :: written s.world ↔
      s.current handset ≠ none ∧ s.world.callReference = r ∧ .rrUnexpectedMessage = reason ∧
        0 = length := by
  have hwrites : writes s.world (.timeout t) = pingStopWrites handset s.world := by
    simp only [writes, hcb]
  rw [written_step h, hwrites, hs.current_iff]
  unfold pingStopWrites
  split_ifs with hring
  · simp [hring]
  · refine iff_of_false (fun hself => ?_) fun h => hring h.1
    exact List.cons_ne_self _ _ hself.symm

/-- **Expiries release only their own calls** along a run with an orderly stack exactly when each
one that finds a ping of its handset in progress is that of the last ping of the handset, and no
ping and no confirmation has come after the confirmation of this ping. -/
theorem release_own_call_iff (config : Config) (es : List Event)
    (ho : Along track (fun _ s e _ => s.Orderly e) (initial config) es) :
    Along track (fun _ s e s' => s.ReleasesOwnCall e s') (initial config) es ↔
      Along track (fun _ s e _ => s.ExpiresOwn e) (initial config) es := by
  refine along_congr fun pre e post s s' hes hrun he => ?_
  have hs : s.Kept := by
    rw [hes] at ho
    exact run_induction_along (C := fun _ s e _ => s.Orderly e) (P := fun _ s => s.Kept)
      (kept_initial config) (fun _ _ _ _ _ hs he ho => kept_step hs ho he) pre s
      ho.of_append hrun
  have hstep := (track_eq_some_iff.mp he).1
  refine forall₂_congr fun t handset => ?_
  constructor
  · rintro hown rfl hcb hcur
    obtain ⟨href, hring⟩ := hown _ .rrUnexpectedMessage 0 rfl hcb
      ((written_of_expiry hs hcb hstep _ _ _).mpr ⟨hcur, rfl, rfl, rfl⟩)
    exact ⟨(hs.last handset hcur).symm.trans hring, (hs.reference_iff t.armed).mp href⟩
  · rintro hown r reason length rfl hcb hwritten
    obtain ⟨hcur, rfl, -, -⟩ := (written_of_expiry hs hcb hstep _ _ _).mp hwritten
    obtain ⟨hlast, horigin⟩ := hown rfl hcb hcur
    exact ⟨(hs.reference_iff t.armed).mpr horigin, (hs.last handset hcur).trans hlast⟩

/-- The stack confirms a call with reference `n`. -/
def setupCfmOf (n : ℕ) : Event := .mail (.setupCfm ⟨n, 0, 0⟩ 0) .none

/-- The timer that the first event of a run has armed for a ping of handset 1. -/
def firstTimer : Timer := ⟨.pingHandsetStop 1, 20000000, 0⟩

/-- One ping of one handset. -/
theorem single_ping_releases_own_call :
    Along track (fun _ s e s' => s.ReleasesOwnCall e s') (initial ⟨.enabled, by decide⟩)
      [command .pingHset 1, setupCfmOf 5, .timeout firstTimer] := by
  refine (release_own_call_iff ⟨.enabled, by decide⟩
    [command .pingHset 1, setupCfmOf 5, .timeout firstTimer] ?_).mpr ?_
  · refine .cons rfl (fun r hr => ?_) <| .cons rfl (fun r hr => ?_) <|
      .cons rfl (fun r hr => ?_) <| along_nil _ _
    · cases hr
    · exact ⟨List.cons_ne_nil _ _, fun _ h => by cases h⟩
    · cases hr
  · refine .cons rfl (fun t handset he => ?_) <| .cons rfl (fun t handset he => ?_) <|
      .cons rfl (fun t handset he hcb _ => ?_) <| along_nil _ _
    · cases he
    · cases he
    · obtain rfl := Event.timeout.inj he
      obtain rfl : 1 = handset := Callback.pingHandsetStop.inj hcb
      exact ⟨rfl, .inl rfl⟩

/-- Two pings of two handsets: the timer of the first releases the call of the second. -/
theorem first_timer_releases_second_call :
    Along track (fun _ s e _ => s.Orderly e) (initial ⟨.enabled, by decide⟩)
        [command .pingHset 1, setupCfmOf 5, command .pingHset 2, setupCfmOf 6,
          .timeout firstTimer] ∧
      ¬ Along track (fun _ s e s' => s.ReleasesOwnCall e s') (initial ⟨.enabled, by decide⟩)
        [command .pingHset 1, setupCfmOf 5, command .pingHset 2, setupCfmOf 6,
          .timeout firstTimer] := by
  constructor
  · refine .cons rfl (fun r hr => ?_) <| .cons rfl (fun r hr => ?_) <|
      .cons rfl (fun r hr => ?_) <| .cons rfl (fun r hr => ?_) <|
        .cons rfl (fun r hr => ?_) <| along_nil _ _
    · cases hr
    · exact ⟨List.cons_ne_nil _ _, fun _ h => by cases h⟩
    · cases hr
    · -- the first ping has reference 5, the others have none yet
      obtain rfl : (⟨6, 0, 0⟩ : CallReference) = r := Option.some.inj hr
      refine ⟨List.cons_ne_nil _ _, fun ping h => ?_⟩
      cases ping with
      | zero => exact absurd (show some (⟨5, 0, 0⟩ : CallReference) = _ from h) (by decide)
      | succ n => exact absurd (show (none : Option CallReference) = _ from h) (by decide)
    · cases hr
  · intro h
    have hown := h [command .pingHset 1, setupCfmOf 5, command .pingHset 2, setupCfmOf 6]
      (.timeout firstTimer) [] _ _ rfl rfl rfl firstTimer 1 ⟨6, 0, 0⟩ .rrUnexpectedMessage 0 rfl
      rfl rfl
    exact absurd (show some (⟨5, 0, 0⟩ : CallReference) = _ from hown.1) (by decide)

end Calls

end DectManager
