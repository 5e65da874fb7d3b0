/-
# Auto mode converges

In auto mode the radio is to be on exactly when a handset is registered.  The
manager sees to it at the end of a handset refresh only, and refreshes come from
timers and from the answers of the stack, so a mismatch may last for a while.

* `Settled` says what makes up for a mismatch: a refresh under way, a
  registration mode request that the stack has not confirmed, or a registration
  in progress.  Every move of the core keeps it (`settled_*`).
* `Dialogue` adds to the manager the requests that the stack has not answered.
* `auto_mode_converges`: with a cooperative stack, whenever nothing is under way
  in auto mode, the radio is on exactly when a handset is registered.
-/
import DectManager.RegistrationMode
import DectManager.Timers
import DectManager.Registry
import DectManager.Requests

namespace DectManager

open PartialRun

/-! ## Mismatches of the core and what makes up for them -/

/-- In auto mode the radio fits to whether `any` handset is registered, or else
something is under way: a `refresh`, or, where the radio is to be switched off,
the confirmation of a registration `mode` or a registration. -/
def Settled (any refresh mode : Prop) (c : Control) : Prop :=
  c.config = .auto →
    (c.radio = .disabled → any → refresh) ∧
      (c.radio = .enabled → ¬ any → refresh ∨ mode ∨ c.regMode ≠ .disabled)

section Settled

variable {any refresh mode : Prop} {c : Control}

theorem settled_of_refresh (h : refresh) : Settled any refresh mode c :=
  fun _ => ⟨fun _ _ => h, fun _ _ => .inl h⟩

/-- More may be under way, and other handsets may be registered. -/
theorem Settled.mono {any' refresh' mode' : Prop} (h : Settled any refresh mode c)
    (hany : any' ↔ any) (hrefresh : refresh → refresh') (hmode : mode → mode') :
    Settled any' refresh' mode' c := by
  intro hauto
  obtain ⟨hoff, hon⟩ := h hauto
  refine ⟨fun hr ha => hrefresh (hoff hr (hany.mp ha)), fun hr ha => ?_⟩
  exact (hon hr fun hany' => ha (hany.mpr hany')).imp hrefresh (Or.imp_left hmode)

/-- The end of an enumeration settles the core. -/
theorem settled_enumerated (hwf : c.Wf) {found : Bool} (hfound : found = true ↔ any) :
    Settled any refresh mode (c.enumerated found) := by
  intro hauto
  have hcfg : c.config = .auto := by
    unfold Control.enumerated at hauto
    split at hauto
    · assumption
    · exact hauto
  have hradio : (c.enumerated found).radio = if found then .enabled else .disabled := by
    rw [Control.enumerated, if_pos hcfg, Control.showLed_radio, hwf.setRadio_radio]
  rw [hradio]
  cases found with
  | true => exact ⟨fun h => absurd h (by decide), fun _ h => absurd (hfound.mp rfl) h⟩
  | false => exact ⟨fun _ h => absurd (hfound.mpr h) (by decide), fun h => absurd h (by decide)⟩

/-- A registration request keeps the core settled: it switches the radio on for a
registration. -/
theorem Settled.registration (h : Settled any refresh mode c) (hwf : c.Wf) :
    Settled any refresh mode c.registration := by
  by_cases hact : c.config ≠ .disabled ∧ (c.radio = .disabled ∨ c.regMode ≠ .enabled)
  · intro _
    have hmode : c.registration.regMode ≠ .disabled := by
      rw [Control.registration_regMode hwf hact.1 hact.2]
      split <;> decide
    have hradio : c.registration.radio = .enabled := by
      unfold Control.registration Control.openWindow
      rcases hwf.radio with hr | hr
      · simp [hact.1, hr, hwf.setRadio_radio]
      · simp [hact.1, hr, apply_ite Control.radio]
    exact ⟨fun hoff => absurd (hradio.symm.trans hoff) (by decide), fun _ _ => .inr (.inr hmode)⟩
  · rw [Control.registration_of_not_act hact]
    exact h

/-- The end of a registration keeps the core settled if the stack is told. -/
theorem Settled.close {mode' : Prop} (h : Settled any refresh mode c)
    (htold : c.radio = .enabled → mode') : Settled any refresh mode' c.close := by
  intro hauto
  rw [Control.close_config] at hauto
  rw [Control.close_radio]
  exact ⟨(h hauto).1, fun hon _ => .inr (.inl (htold hon))⟩

end Settled

/-! ## Cooperation -/

/-- What the stack and the clients do in the runs considered: no client switches
the radio, and the stack's confirmations of the refresh chain are in order. -/
def Cooperative (s : Dialogue) : Event → Prop
  | .client type _ _ => PacketType.ofCode type ≠ some .radio
  | .mail (.getRegistrationCountCfm m) _ =>
    m.status = .success ∧ (∀ id ∈ m.ids, 1 ≤ id ∧ id < maxNrHandsets) ∧
      (m.terminalIdCount = 0 → m.terminalId 0 = 0)
  | .mail (.getHandsetIpuiCfm handset _) _ => .getHandsetIpuiReq handset ∈ s.unanswered
  | _ => True

/-- Some handset is registered. -/
def AnyRegistered (w : World) : Prop := ∃ k, (w.status.handset k).registered ≠ 0

/-- A refresh is under way: a request of the chain is unanswered, or a timer will
start the chain. -/
def Refreshing (s : Dialogue) : Prop :=
  (∃ r ∈ s.unanswered, r.isRefresh = true) ∨ ∃ t ∈ s.world.timers, t.callback = .initCfm

/-- The stack has still to confirm a registration mode. -/
def AwaitsMode (s : Dialogue) : Prop := ∃ r ∈ s.unanswered, r.isMode = true

/-- The last entry of the table, which no refresh registers. -/
def lastEntry : Fin maxNrHandsets := ⟨maxNrHandsets - 1, by decide⟩

/-- The invariant of the dialogues with a cooperative stack. -/
structure Covered (s : Dialogue) : Prop where
  last : (s.world.status.handset lastEntry).registered = 0
  ids : ∀ id, .getHandsetIpuiReq id ∈ s.unanswered → 1 ≤ id ∧ id < maxNrHandsets
  settled : Settled (AnyRegistered s.world) (Refreshing s) (AwaitsMode s) (control s.world)

/-! ## One step -/

section Step

variable {s s' : Dialogue} {e : Event}

/-- An event that asks for a request of the chain starts or continues a refresh. -/
theorem refreshing_of_asks (h : converse s e = some s') {r : Request} (hr : r ∈ asks s.world e)
    (hchain : r.isRefresh = true) : Refreshing s' := by
  refine .inl ⟨r, ?_, hchain⟩
  rw [(converse_eq_some_iff.mp h).2]
  exact List.mem_append_left _ hr

/-- An event that schedules a refresh. -/
theorem refreshing_of_arms (h : converse s e = some s') {t : Timer} (ht : t ∈ armedBy s.world e)
    (hcb : t.callback = .initCfm) : Refreshing s' := by
  refine .inr ⟨t, ?_, hcb⟩
  rw [(timers_step (converse_eq_some_iff.mp h).1).1]
  exact List.mem_append_left _ ht

/-- A request that the event does not answer stays unanswered. -/
theorem unanswered_keep (h : converse s e = some s') {r : Request} (hr : r ∈ s.unanswered)
    (hnot : answers e r = false) : r ∈ s'.unanswered := by
  rw [(converse_eq_some_iff.mp h).2]
  refine List.mem_append_right _ ?_
  exact (List.mem_eraseP_of_neg (by simp [hnot])).mpr hr

/-- A refresh goes on unless the event answers a request of the chain or is the
scheduled start. -/
theorem Refreshing.keep (hs : Refreshing s) (h : converse s e = some s')
    (hans : ∀ r, r.isRefresh = true → answers e r = false)
    (htimer : ∀ t, e = .timeout t → t.callback ≠ .initCfm) : Refreshing s' := by
  rcases hs with ⟨r, hr, hchain⟩ | ⟨t, ht, hcb⟩
  · exact .inl ⟨r, unanswered_keep h hr (hans r hchain), hchain⟩
  · refine .inr ⟨t, ?_, hcb⟩
    rw [(timers_step (converse_eq_some_iff.mp h).1).1]
    refine List.mem_append_right _ ?_
    cases e with
    | timeout t' =>
        refine (List.mem_erase_of_ne ?_).mpr ht
        rintro rfl
        exact htimer t rfl hcb
    | _ => exact ht

/-- An unconfirmed mode stays so unless the event confirms one. -/
theorem AwaitsMode.keep (hs : AwaitsMode s) (h : converse s e = some s')
    (hans : ∀ r, r.isMode = true → answers e r = false) : AwaitsMode s' := by
  obtain ⟨r, hr, hmode⟩ := hs
  exact ⟨r, unanswered_keep h hr (hans r hmode), hmode⟩

/-- The event answers nothing and is not the scheduled start of a refresh. -/
def Quiet (e : Event) : Prop :=
  (∀ r, answers e r = false) ∧ ∀ t, e = .timeout t → t.callback ≠ .initCfm

/-- **A quiet step** that is a registration, the end of one or no move of the core
keeps it settled, if it leaves the registered flags alone. -/
theorem settled_quiet (hcov : Covered s) (h : converse s e = some s') (hquiet : Quiet e)
    (hany : AnyRegistered s'.world ↔ AnyRegistered s.world)
    (hmove : moveOf s.world e = .registration ∨ moveOf s.world e = .delayedStart ∨
      moveOf s.world e = .linuxInit ∨ moveOf s.world e = .idle ∨
      moveOf s.world e = .close ∧ asks s.world e = stopAsks s.world) :
    Settled (AnyRegistered s'.world) (Refreshing s') (AwaitsMode s') (control s'.world) := by
  obtain ⟨hstep, hun⟩ := converse_eq_some_iff.mp h
  have hkept : Settled (AnyRegistered s'.world) (Refreshing s') (AwaitsMode s')
      (control s.world) :=
    hcov.settled.mono hany (fun hs => hs.keep h (fun r _ => hquiet.1 r) hquiet.2)
      fun hs => hs.keep h fun r _ => hquiet.1 r
  rw [control_step hstep]
  rcases hmove with hm | hm | hm | hm | ⟨hm, hasks⟩
  · rw [hm]
    exact hkept.registration (control_wf s.world)
  · rw [hm]
    simp only [Move.apply]
    split
    · exact hkept.registration (control_wf s.world)
    · exact hkept
  · rw [hm]
    exact hkept
  · rw [hm]
    exact hkept
  · rw [hm]
    refine hkept.close fun hon => ⟨.setRegistrationModeReq false false, ?_, rfl⟩
    have hwrites : stopAsks s.world = [.setRegistrationModeReq false false] := if_pos hon
    rw [hun, hasks, hwrites]
    exact List.mem_append_left _ List.mem_cons_self

/-! ### The registered flags -/

theorem anyRegistered_step {w w' : World} {e : Event} (h : step w e = some w')
    (he : ¬ e.WritesFlags) : AnyRegistered w' ↔ AnyRegistered w := by
  unfold AnyRegistered
  simp only [registered_step h he]

/-! ### The three parts of the invariant -/

/-- The last entry of the table stays unregistered. -/
theorem last_step {w w' : World} (h : step w e = some w')
    (hids : ∀ c env, e = .mail (.getRegistrationCountCfm c) env →
      ∀ id ∈ c.ids, 1 ≤ id ∧ id < maxNrHandsets)
    (hlast : (w.status.handset lastEntry).registered = 0) :
    (w'.status.handset lastEntry).registered = 0 := by
  have hreg : (w'.status.handset lastEntry).registered =
      ((registry w).observe e lastEntry).registered := by
    rw [← registry_step h]
    rfl
  by_cases hflags : e.WritesFlags
  · rw [hreg]
    cases e with
    | mail m env =>
        cases m with
        | getRegistrationCountCfm c =>
            simp only [Registry.observe, Registry.receive]
            split
            · have hgood : ∀ id ∈ c.ids, badHandsetnr id = false := fun id hid =>
                badHandsetnr_eq_false_iff.mpr
                  ⟨(hids c env rfl id hid).1, (hids c env rfl id hid).2.le⟩
              rw [Registry.mark_registered hgood, if_neg fun hid => ?_]
              · exact hlast
              · exact absurd (hids c env rfl _ hid).2 (by decide)
            · exact hlast
        | deleteRegistrationCfm id =>
            simp only [Registry.observe, Registry.receive]
            split
            · exact hlast
            · rw [Registry.modify_apply]
              split
              · rfl
              · exact hlast
        | _ => exact absurd hflags fun hf => hf
    | _ => exact absurd hflags id
  · rw [registered_step h hflags]
    exact hlast

/-- The IPUI requests that an event asks for name the id after the one confirmed,
whose entry is registered, or the first id of a list. -/
theorem of_mem_asks_ipui {w : World} {id : ℕ} (h : .getHandsetIpuiReq id ∈ asks w e) :
    (∃ handset ipui env, e = .mail (.getHandsetIpuiCfm handset ipui) env ∧ id = handset + 1 ∧
        (w.status.handset.read env.beyond handset).registered = true8) ∨
      ∃ c env, e = .mail (.getRegistrationCountCfm c) env ∧ id = c.terminalId 0 ∧ id > 0 := by
  have hreg : .getHandsetIpuiReq id ∉ registrationAsks w := by
    unfold registrationAsks
    split <;> simp
  have hstop : .getHandsetIpuiReq id ∉ stopAsks w := by
    unfold stopAsks
    split <;> simp
  cases e with
  | client type data env =>
      simp only [asks] at h
      split at h
      · exact absurd h hreg
      · split at h
        · exact absurd h hreg
        · simp at h
      · split at h <;> simp [refreshReq] at h
      · simp [refreshReq] at h
      · simp at h
  | mail m env =>
      cases m with
      | getHandsetIpuiCfm handset ipui =>
          simp only [asks, ipuiAsks] at h
          split at h
          · rename_i hnext
            exact .inl ⟨handset, ipui, env, rfl, by simpa using h, hnext.2⟩
          · simp at h
      | getRegistrationCountCfm c =>
          simp only [asks, countAsks] at h
          split at h
          · rename_i hfirst
            have hid : id = c.terminalId 0 := by simpa using h
            exact .inr ⟨c, env, rfl, hid, by rw [hid]; exact hfirst.2.2⟩
          · simp at h
      | registrationCompleteInd => exact absurd h hstop
      | handsetPresentInd handset length =>
          simp only [asks] at h
          split at h <;> simp [refreshReq] at h
      | setRegistrationModeCfm =>
          simp only [asks] at h
          split at h <;> simp [refreshReq] at h
      | _ => simp [asks, refreshReq] at h
  | timeout t =>
      simp only [asks] at h
      split at h
      · simp [refreshReq] at h
      · unfold delayedStartAsks at h
        split at h
        · exact absurd h hreg
        · simp at h
      · exact absurd h hstop
      · simp at h

/-- The IPUI requests under way stay in range. -/
theorem ids_step (hcov : Covered s) (hcoop : Cooperative s e) (h : converse s e = some s')
    (id : ℕ) (hid : .getHandsetIpuiReq id ∈ s'.unanswered) : 1 ≤ id ∧ id < maxNrHandsets := by
  rw [(converse_eq_some_iff.mp h).2, List.mem_append] at hid
  rcases hid with hid | hid
  · rcases of_mem_asks_ipui hid with
      ⟨handset, ipui, env, rfl, rfl, hnext⟩ | ⟨c, env, rfl, rfl, hpos⟩
    · -- the entry of the next handset is registered, so it is not the last one
      obtain ⟨hlow, hhigh⟩ := hcov.ids handset hcoop
      rw [HandsetTable.read, dif_pos hhigh] at hnext
      have hne : handset ≠ maxNrHandsets - 1 := by
        rintro rfl
        have hlast := hcov.last
        rw [lastEntry, hnext] at hlast
        exact absurd hlast (by decide)
      omega
    · have hcount : c.terminalIdCount ≠ 0 := fun h0 => by
        have hzero := hcoop.2.2 h0
        omega
      exact hcoop.2.1 _ (c.first_mem_ids hcount)
  · exact hcov.ids id (List.mem_of_mem_eraseP hid)

/-- A count confirmation starts the IPUI requests or, with an empty list, ends the
enumeration. -/
theorem settled_count {c : RegistrationCountCfm} {env : Env}
    (hcoop : Cooperative s (.mail (.getRegistrationCountCfm c) env))
    (h : converse s (.mail (.getRegistrationCountCfm c) env) = some s') :
    Settled (AnyRegistered s'.world) (Refreshing s') (AwaitsMode s') (control s'.world) := by
  obtain ⟨hok, hids, hzero⟩ := hcoop
  obtain ⟨hstep, -⟩ := converse_eq_some_iff.mp h
  by_cases hcount : c.terminalIdCount = 0
  · -- nothing to ask for: the enumeration is over at once
    have hmove : moveOf s.world (.mail (.getRegistrationCountCfm c) env) =
        .enumerated (decide (handsetCount s.world.status.handset > 0)) :=
      if_pos ⟨hok, hcount, hzero hcount⟩
    have hsame : registry s'.world = registry s.world := by
      rw [registry_step hstep]
      simp [Registry.observe, Registry.receive, RegistrationCountCfm.ids, hcount, Registry.mark]
    rw [control_step hstep, hmove]
    refine settled_enumerated (control_wf s.world) ?_
    rw [decide_eq_true_iff, handsetCount_pos_iff]
    have hflags (k : Fin maxNrHandsets) : (s'.world.status.handset k).registered =
        (s.world.status.handset k).registered := congrArg Identity.registered (congrFun hsame k)
    simp only [AnyRegistered, hflags]
  · have hpos : c.terminalId 0 > 0 := (hids _ (c.first_mem_ids hcount)).1
    have hfin : (markRegistered c.ids s.world.status.handset).2 = true :=
      markRegistered_finished_iff.mpr fun id hid => badHandsetnr_eq_false_iff.mpr
        ⟨(hids id hid).1, (hids id hid).2.le⟩
    refine settled_of_refresh
      (refreshing_of_asks h (r := .getHandsetIpuiReq (c.terminalId 0)) ?_ rfl)
    simp only [asks, countAsks]
    rw [if_pos ⟨hok, hfin, hpos⟩]
    exact List.mem_cons_self

/-- An IPUI confirmation asks for the next IPUI or ends the enumeration. -/
theorem settled_ipui {handset : ℕ} {ipui : Fin 5 → UInt8} {env : Env} (hcov : Covered s)
    (hcoop : Cooperative s (.mail (.getHandsetIpuiCfm handset ipui) env))
    (h : converse s (.mail (.getHandsetIpuiCfm handset ipui) env) = some s') :
    Settled (AnyRegistered s'.world) (Refreshing s') (AwaitsMode s') (control s'.world) := by
  obtain ⟨hstep, -⟩ := converse_eq_some_iff.mp h
  obtain ⟨hlow, hhigh⟩ := hcov.ids handset hcoop
  have hgood : badHandsetnr handset = false := badHandsetnr_eq_false_iff.mpr ⟨hlow, hhigh.le⟩
  by_cases hnext : (s.world.status.handset.read env.beyond handset).registered = true8
  · refine settled_of_refresh (refreshing_of_asks h (r := .getHandsetIpuiReq (handset + 1)) ?_ rfl)
    simp only [asks, ipuiAsks]
    rw [if_pos ⟨hgood, hnext⟩]
    exact List.mem_cons_self
  · have hmove : moveOf s.world (.mail (.getHandsetIpuiCfm handset ipui) env) =
        .enumerated (decide (handsetCount s.world.status.handset > 0)) :=
      if_pos ⟨hgood, hnext⟩
    rw [control_step hstep, hmove]
    refine settled_enumerated (control_wf s.world) ?_
    rw [decide_eq_true_iff, handsetCount_pos_iff]
    exact (anyRegistered_step hstep id).symm

/-- A client command keeps the core settled. -/
theorem settled_client {type : UInt32} {data : UInt8} {env : Env} (hcov : Covered s)
    (hcoop : Cooperative s (.client type data env))
    (h : converse s (.client type data env) = some s') :
    Settled (AnyRegistered s'.world) (Refreshing s') (AwaitsMode s') (control s'.world) := by
  obtain ⟨hstep, -⟩ := converse_eq_some_iff.mp h
  -- what is left of the commands when nothing reloads the configuration
  have hquiet (hm : clientMove s.world type data env = .registration ∨
      clientMove s.world type data env = .linuxInit ∨ clientMove s.world type data env = .idle) :
      Settled (AnyRegistered s'.world) (Refreshing s') (AwaitsMode s') (control s'.world) := by
    refine settled_quiet hcov h ⟨fun _ => rfl, fun _ he => by cases he⟩
      (anyRegistered_step hstep id) ?_
    rcases hm with hm | hm | hm
    · exact .inl hm
    · exact .inr (.inr (.inl hm))
    · exact .inr (.inr (.inr (.inl hm)))
  rcases clientMove_cases s.world type data env with
    hm | hm | ⟨htype, -⟩ | ⟨config, htype, hload, hm⟩ | ⟨-, -, hm⟩
  · exact hquiet (.inr (.inr hm))
  · exact hquiet (.inl hm)
  · exact absurd htype hcoop
  · by_cases hauto : config.radio = .auto
    · -- a reload to auto mode starts a refresh
      refine settled_of_refresh (refreshing_of_asks h (r := refreshReq) ?_ rfl)
      simp [asks, htype, hload, hauto]
    · intro hcfg
      rw [control_step hstep, show moveOf s.world (.client type data env) = .reload config from hm]
        at hcfg
      have hnew : (Move.apply (control s.world) (.reload config)).config = config.radio := by
        simp only [Move.apply, Control.reload]
        split_ifs <;> simp
      exact absurd (hnew.symm.trans hcfg) hauto
  · exact hquiet (.inr (.inl hm))

/-- A mail keeps the core settled. -/
theorem settled_mail {m : Mail} {env : Env} (hcov : Covered s) (hcoop : Cooperative s (.mail m env))
    (h : converse s (.mail m env) = some s') :
    Settled (AnyRegistered s'.world) (Refreshing s') (AwaitsMode s') (control s'.world) := by
  obtain ⟨hstep, -⟩ := converse_eq_some_iff.mp h
  -- the mails that answer nothing and leave the flags alone
  have hidle (hans : ∀ r, answers (.mail m env) r = false)
      (hflags : ¬ m.WritesFlags)
      (hmove : mailMove s.world m env = .idle ∨
        mailMove s.world m env = .close ∧ asks s.world (.mail m env) = stopAsks s.world) :
      Settled (AnyRegistered s'.world) (Refreshing s') (AwaitsMode s') (control s'.world) := by
    exact settled_quiet hcov h ⟨hans, fun _ he => by cases he⟩ (anyRegistered_step hstep hflags)
      (.inr (.inr (.inr hmove)))
  cases m with
  | getRegistrationCountCfm c => exact settled_count hcoop h
  | getHandsetIpuiCfm handset ipui => exact settled_ipui hcov hcoop h
  | featuresCfm =>
      exact settled_of_refresh
        (refreshing_of_asks h (r := .getRegistrationCountReq 0) List.mem_cons_self rfl)
  | deleteRegistrationCfm handset =>
      -- the flags have changed, but a refresh is scheduled
      exact settled_of_refresh (refreshing_of_arms h
        (t := ⟨.initCfm, 1250000, s.world.clock⟩) List.mem_cons_self rfl)
  | setRegistrationModeCfm =>
      by_cases hmode : s.world.status.regMode = .disabled
      · refine settled_of_refresh (refreshing_of_asks h (r := refreshReq) ?_ rfl)
        simp [asks, hmode]
      · -- the registration in progress makes up for a radio that is on
        have hcore : control s'.world = control s.world := control_step hstep
        rw [hcore]
        intro hauto
        refine ⟨fun hoff hany => ?_, fun _ _ => .inr (.inr hmode)⟩
        have hany' : AnyRegistered s.world :=
          (anyRegistered_step hstep id).mp hany
        refine ((hcov.settled hauto).1 hoff hany').keep h (fun r hr => ?_) fun _ he => by cases he
        cases r with
        | setRegistrationModeReq enabled delete => cases hr
        | _ => rfl
  | registrationCompleteInd =>
      exact hidle (fun _ => rfl) id (.inr ⟨rfl, rfl⟩)
  | _ => exact hidle (fun _ => rfl) id (.inl rfl)

/-- The expiry of a timer keeps the core settled. -/
theorem settled_timeout {t : Timer} (hcov : Covered s) (h : converse s (.timeout t) = some s') :
    Settled (AnyRegistered s'.world) (Refreshing s') (AwaitsMode s') (control s'.world) := by
  obtain ⟨hstep, -⟩ := converse_eq_some_iff.mp h
  by_cases hcb : t.callback = .initCfm
  · refine settled_of_refresh (refreshing_of_asks h (r := refreshReq) ?_ rfl)
    simp [asks, hcb]
  · refine settled_quiet hcov h ⟨fun _ => rfl, fun t' he => ?_⟩ (anyRegistered_step hstep id) ?_
    · rw [← Event.timeout.inj he]
      exact hcb
    · simp only [moveOf, asks]
      cases hcb' : t.callback with
      | initCfm => exact absurd hcb' hcb
      | registrationDelayedStart => exact .inr (.inl rfl)
      | registerHandsetsStop => exact .inr (.inr (.inr (.inr ⟨rfl, rfl⟩)))
      | pingHandsetStop handset => exact .inr (.inr (.inr (.inl rfl)))

/-- **One step** with a cooperative stack keeps the invariant. -/
theorem covered_step (hcov : Covered s) (hcoop : Cooperative s e) (h : converse s e = some s') :
    Covered s' := by
  obtain ⟨hstep, -⟩ := converse_eq_some_iff.mp h
  refine ⟨last_step hstep ?_ hcov.last, ids_step hcov hcoop h, ?_⟩
  · rintro c env rfl
    exact hcoop.2.1
  · cases e with
    | client type data env => exact settled_client hcov hcoop h
    | mail m env => exact settled_mail hcov hcoop h
    | timeout t => exact settled_timeout hcov h

end Step

/-! ## Runs -/

/-- The dialogue before the first event. -/
def Dialogue.initial (config : Config) : Dialogue := ⟨DectManager.initial config, []⟩

theorem covered_initial (config : Config) : Covered (Dialogue.initial config) := by
  refine ⟨rfl, fun id h => absurd h List.not_mem_nil, fun _ => ⟨fun _ h => ?_, fun h => ?_⟩⟩
  · obtain ⟨k, hk⟩ := h
    exact absurd rfl hk
  · exact absurd h (by simp [Dialogue.initial, DectManager.initial])

/-- **Auto mode converges.**  After any run with a cooperative stack and without
`RADIO` commands: if auto mode is configured, no registration is in progress, no
confirmation is outstanding and no refresh is scheduled, then the radio is on
exactly when some handset is registered. -/
theorem auto_mode_converges (config : Config) (es : List Event) (s : Dialogue)
    (hrun : run converse (Dialogue.initial config) es = some s)
    (hcoop : Along converse (fun _ s e _ => Cooperative s e) (Dialogue.initial config) es)
    (hauto : s.world.config.radio = .auto) (hmode : s.world.status.regMode = .disabled)
    (hanswered : s.unanswered = [])
    (htimers : ∀ t ∈ s.world.timers, t.callback ≠ .initCfm) :
    s.world.status.radio = .enabled ↔ AnyRegistered s.world := by
  have hcov : Covered s := run_induction_along (C := fun _ s e _ => Cooperative s e)
    (P := fun _ s => Covered s) (covered_initial config)
    (fun _ _ _ _ _ hcov h hcoop => covered_step hcov hcoop h) es s hcoop hrun
  have hidle : ¬ Refreshing s := by
    rintro (⟨r, hr, -⟩ | ⟨t, ht, hcb⟩)
    · simp [hanswered] at hr
    · exact htimers t ht hcb
  have hconfirmed : ¬ AwaitsMode s := by
    rintro ⟨r, hr, -⟩
    simp [hanswered] at hr
  obtain ⟨hoff, hon⟩ := hcov.settled hauto
  constructor
  · intro hradio
    by_contra hany
    rcases hon hradio hany with h | h | h
    · exact hidle h
    · exact hconfirmed h
    · exact h hmode
  · intro hany
    by_contra hradio
    exact hidle (hoff (s.world.status.radio_ne_enabled_iff.mp hradio) hany)

/-- A refresh that finds handset 3, from the command to its end. -/
def refreshOfThree : List Event :=
  [command .listHandsets 0, .mail .featuresCfm .none,
    .mail (.getRegistrationCountCfm ⟨.success, 20, 1, fun _ => 3⟩) .none,
    .mail (.getHandsetIpuiCfm 3 fun _ => 7) .none]

/-- In auto mode the refresh that finds handset 3 switches the radio on. -/
theorem refresh_switches_radio_on :
    ∃ s, run converse (Dialogue.initial ⟨.auto, by decide⟩) refreshOfThree = some s ∧
      (s.world.status.radio = .enabled ↔ AnyRegistered s.world) := by
  refine ⟨_, rfl, auto_mode_converges ⟨.auto, by decide⟩ refreshOfThree _ rfl ?_ rfl rfl rfl ?_⟩
  · have hlist : PacketType.ofCode PacketType.listHandsets.code ≠ some .radio := by decide
    refine .cons rfl hlist <| .cons rfl trivial <|
      .cons rfl ⟨rfl, fun id hid => ?_, by decide⟩ <|
        .cons rfl List.mem_cons_self <| along_nil _ _
    have hthree : id = 3 := by simpa [RegistrationCountCfm.ids] using hid
    subst hthree
    decide
  · decide

end DectManager
