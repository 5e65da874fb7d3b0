/-
# Mails, ids and the handset table

Every id that a mail carries is an index into `status.handset`, and each handler
looks at it by hand.

* `mails_respect_table_iff`: a mail changes only entries that it names.  One that
  names an id outside the table changes nothing at all, throughout a run, exactly
  when no count confirmation of the run has a bad id after one that it marks
  first: its loop checks and marks in one go.
* `accesses_in_table_iff`: the indices that the handlers of a run use are inside
  the table exactly when no IPUI of the last handset is confirmed.  After its own
  entry `handset_ipui_cfm` looks at the next one, and the check was for the first.

The indices are those of the program that the handler is.  The rest of the handler
ignores the table, and `handset_step` says that a step leaves the table that this
program leaves.
-/
import DectManager.Identities
import DectManager.Pings

namespace DectManager

open PartialRun TablePrograms TableProgram

/-! ## The entries that a mail changes -/

/-- The terminal ids that a mail names. -/
def Mail.named : Mail → List ℕ
  | .connectInd callReferenceFp => [callReferenceFp]
  | .handsetPresentInd terminalId _ => [terminalId]
  | .getHandsetIpuiCfm terminalId _ => [terminalId]
  | .getRegistrationCountCfm m => m.ids
  | .deleteRegistrationCfm terminalId => [terminalId]
  | .uleDataInd terminalId _ => [terminalId]
  | .uleDataCfm terminalId _ => [terminalId]
  | .ulePvcConfigInd terminalId => [terminalId]
  | .ulePvcPendingInd terminalId => [terminalId]
  | .ulePvcIwuDataInd terminalId _ _ => [terminalId]
  | _ => []

/-- The registry part of an entry that the mail does not name. -/
theorem Registry.receive_of_not_named {m : Mail} {k : Fin maxNrHandsets}
    (hk : k.val + 1 ∉ m.named) (r : Registry) : r.receive m k = r k := by
  have hentry {handset : ℕ} (f : Identity → Identity) (hk : k.val + 1 ∉ [handset]) :
      (if badHandsetnr handset then r else r.modify (handset - 1) f) k = r k := by
    split_ifs with hbad
    · rfl
    · rw [modify_entry (Bool.not_eq_true _ ▸ hbad), if_neg]
      rintro rfl
      exact hk List.mem_cons_self
  cases m with
  | handsetPresentInd handset length => exact hentry _ hk
  | getHandsetIpuiCfm handset ipui => exact hentry _ hk
  | deleteRegistrationCfm handset => exact hentry _ hk
  | getRegistrationCountCfm m =>
      rw [Registry.receive]
      split_ifs
      · rw [mark_apply, if_neg]
        exact fun hmem => hk (List.takeWhile_subset _ hmem)
      · rfl
  | _ => rfl

/-- The ping flag of an entry that the mail does not name. -/
theorem flag_of_not_named {m : Mail} {k : Fin maxNrHandsets} (hk : k.val + 1 ∉ m.named)
    (env : Env) (w : World) :
    (pingEffect w (.mail m env)).2 k = (w.status.handset k).pinging := by
  cases m with
  | connectInd handset =>
      refine if_neg ?_
      rintro ⟨rfl, -⟩
      exact hk List.mem_cons_self
  | _ => rfl

/-- **Only entries that are named** change. -/
theorem entry_of_not_named {w w' : World} {m : Mail} {env : Env} {k : Fin maxNrHandsets}
    (hk : k.val + 1 ∉ m.named) (h : step w (.mail m env) = some w') :
    w'.status.handset k = w.status.handset k := by
  have hreg : registry w' = (registry w).receive m := registry_step h
  refine hset_eq_of_parts ?_ ?_
  · exact (congrFun hreg k).trans (Registry.receive_of_not_named hk _)
  · exact (congrFun (congrArg Prod.snd (pinging_step h)) k).trans (flag_of_not_named hk env w)

/-! ## Mails that are not respected as a whole -/

/-- The entries that the mail does not name are as they were; and if it names an id
outside the table, all entries are. -/
def RespectsTable (w : World) (m : Mail) (w' : World) : Prop :=
  (∀ k : Fin maxNrHandsets, k.val + 1 ∉ m.named → w'.status.handset k = w.status.handset k) ∧
    ((∃ id ∈ m.named, badHandsetnr id = true) → w'.status.handset = w.status.handset)

/-- The mail is a successful count confirmation that lists a bad id after one whose
entry is not marked as registered yet. -/
def HalfApplied (w : World) : Mail → Prop
  | .getRegistrationCountCfm m =>
    m.status = .success ∧ (∃ id ∈ m.ids, badHandsetnr id = true) ∧
      ∃ k : Fin maxNrHandsets, k.val + 1 ∈ m.ids.takeWhile (fun id => !badHandsetnr id) ∧
        (w.status.handset k).registered ≠ true8
  | _ => False

/-- A mail that names one id, and that a bad one, names no entry. -/
theorem not_mem_named_of_bad {m : Mail} {id handset : ℕ} (hm : m.named = [handset])
    (hid : id ∈ m.named) (hbad : badHandsetnr id = true) (k : Fin maxNrHandsets) :
    k.val + 1 ∉ m.named := by
  rw [hm, List.mem_singleton] at hid ⊢
  rw [← hid]
  exact (ne_entry_of_bad hbad k).symm

/-- The table after a count confirmation is the one before exactly when the entries
to be marked are marked already. -/
theorem table_of_count_iff {w w' : World} {m : RegistrationCountCfm} {env : Env}
    (h : step w (.mail (.getRegistrationCountCfm m) env) = some w') :
    w'.status.handset = w.status.handset ↔
      (m.status = .success → ∀ k : Fin maxNrHandsets,
        k.val + 1 ∈ m.ids.takeWhile (fun id => !badHandsetnr id) →
          (w.status.handset k).registered = true8) := by
  have hreg (k : Fin maxNrHandsets) : (w'.status.handset k).identity =
      (registry w).receive (.getRegistrationCountCfm m) k := congrFun (registry_step h) k
  have hping (k : Fin maxNrHandsets) :
      (w'.status.handset k).pinging = (w.status.handset k).pinging :=
    congrFun (congrArg Prod.snd (pinging_step h)) k
  constructor
  · intro hsame hok k hk
    have hmarked := hreg k
    rw [Registry.receive, if_pos hok, Registry.mark_apply, if_pos hk, hsame] at hmarked
    exact congrArg Identity.registered hmarked
  · intro hall
    funext k
    refine hset_eq_of_parts ((hreg k).trans ?_) (hping k)
    rw [Registry.receive]
    split_ifs with hok
    · rw [Registry.mark_apply]
      split_ifs with hk
      · -- the mark is there already
        show ({ (w.status.handset k).identity with registered := true8 } : Identity) =
          (w.status.handset k).identity
        rw [← hall hok k hk]
        rfl
      · rfl
    · rfl

/-- **One mail** respects the table exactly when it is not half applied. -/
theorem respectsTable_iff {w w' : World} {m : Mail} {env : Env}
    (h : step w (.mail m env) = some w') : RespectsTable w m w' ↔ ¬ HalfApplied w m := by
  have hfirst : ∀ k : Fin maxNrHandsets, k.val + 1 ∉ m.named →
      w'.status.handset k = w.status.handset k := fun k hk => entry_of_not_named hk h
  have hsingle {handset : ℕ} (hm : m.named = [handset]) :
      (∃ id ∈ m.named, badHandsetnr id = true) → w'.status.handset = w.status.handset := by
    rintro ⟨id, hid, hbad⟩
    funext k
    exact hfirst k (not_mem_named_of_bad hm hid hbad k)
  cases m with
  | getRegistrationCountCfm m =>
      rw [RespectsTable, and_iff_right hfirst, table_of_count_iff h]
      constructor
      · rintro hkept ⟨hok, hbad, k, hk, hnew⟩
        exact hnew (hkept hbad hok k hk)
      · intro hnot hbad hok k hk
        by_contra hnew
        exact hnot ⟨hok, hbad, k, hk, hnew⟩
  | connectInd handset | handsetPresentInd handset length | getHandsetIpuiCfm handset ipui
  | deleteRegistrationCfm handset | uleDataInd handset length | uleDataCfm handset status
  | ulePvcConfigInd handset | ulePvcPendingInd handset
  | ulePvcIwuDataInd handset length infoElement =>
      exact iff_of_true ⟨hfirst, hsingle rfl⟩ not_false
  | _ =>
      refine iff_of_true ⟨hfirst, ?_⟩ not_false
      rintro ⟨id, hid, -⟩
      exact absurd hid List.not_mem_nil

/-- **Mails respect the handset table** along a run exactly when none of them is half
applied: a successful count confirmation with a bad id after one that is new. -/
theorem mails_respect_table_iff (config : Config) (es : List Event) :
    Along step (fun _ w e w' => ∀ m env, e = .mail m env → RespectsTable w m w')
        (initial config) es ↔
      Along step (fun _ w e _ => ∀ m env, e = .mail m env → ¬ HalfApplied w m)
        (initial config) es := by
  refine along_congr fun _ e _ w w' _ _ he => ?_
  refine forall₂_congr fun m env => forall_congr' fun hmail => ?_
  rw [hmail] at he
  exact respectsTable_iff he

/-- The list "1, 21" marks handset 1 and is given up then. -/
theorem bad_list_half_applied :
    ¬ Along step (fun _ w e w' => ∀ m env, e = .mail m env → RespectsTable w m w')
      (initial ⟨.enabled, by decide⟩) [countCfm [1, 21]] := by
  intro h
  have hend : (step (initial ⟨.enabled, by decide⟩) (countCfm [1, 21])).map
      (fun w => (w.status.handset ⟨0, by decide⟩).registered) = some true8 := by
    decide
  obtain ⟨w, hw, hreg⟩ := Option.map_eq_some_iff.mp hend
  have hresp := h [] (countCfm [1, 21]) [] _ w rfl rfl hw _ _ rfl
  have hsame := congrFun (hresp.2 ⟨21, by decide, by decide⟩) ⟨0, by decide⟩
  rw [hsame] at hreg
  exact absurd hreg (by decide)

/-! ## The indices that the handlers use -/

/-- The handler of an event that works on the handset table; the other events have
none. -/
def handlerProgram (w : World) : Event → TableProgram Hset (World → World)
  | .client type data _ =>
    if PacketType.ofCode type = some .pingHset then pingHandsetProgram data.toNat w.config.radio
    else .done id
  | .mail (.connectInd handset) _ => connectIndProgram handset
  | .mail (.handsetPresentInd handset _) _ => presentIndProgram handset
  | .mail (.getHandsetIpuiCfm handset ipui) _ => handsetIpuiCfmProgram handset ipui w.config.radio
  | .mail (.getRegistrationCountCfm m) _ => registrationCountCfmProgram m w.config.radio
  | .mail (.deleteRegistrationCfm handset) _ => deleteRegistrationCfmProgram handset
  | .mail _ _ => .done id
  | .timeout ⟨.pingHandsetStop handset, _, _⟩ => pingHandsetStopProgram handset
  | .timeout _ => .done id

/-- What the handler of an event reads behind the table. -/
def Event.beyond : Event → Hset
  | .mail (.getHandsetIpuiCfm _ _) env => env.beyond
  | _ => .zero

/-- The C indices with which the handler of an event accesses `status.handset`, in
their order.  A status reply copies the table as a whole. -/
def accesses (w : World) (e : Event) : List ℤ :=
  (handlerProgram w e).indices e.beyond w.status.handset

/-- The index is that of an entry. -/
def InTable (i : ℤ) : Prop := Inside maxNrHandsets i

/-- The event confirms the identity of the last handset. -/
def ConfirmsLast : Event → Prop
  | .mail (.getHandsetIpuiCfm handset _) _ => handset = maxNrHandsets
  | _ => False

/-- The rest of a handler neither looks at the table nor changes it. -/
def IgnoresTable (f : World → World) : Prop := ∀ t w, f (w.setHandset t) = (f w).setHandset t

theorem IgnoresTable.handset {f : World → World} (h : IgnoresTable f) (w : World) :
    (f w).status.handset = w.status.handset :=
  congrArg (fun v => v.status.handset) (h w.status.handset w)

/-- One rest after the other. -/
theorem IgnoresTable.after {f g : World → World} (hf : IgnoresTable f) (hg : IgnoresTable g) :
    IgnoresTable fun w => f (g w) :=
  fun t w => (congrArg f (hg t w)).trans (hf t (g w))

theorem ignoresTable_record (a : Action) : IgnoresTable (World.record a) := fun _ _ => rfl

theorem ignoresTable_controlLed : IgnoresTable controlLed := by
  intro t w
  simp only [controlLed, apply_ite (World.setHandset t)]
  rfl

theorem ignoresTable_dectRadio (enable : Bool) : IgnoresTable (dectRadio enable) := by
  intro t w
  have hstart : startProtocol (w.setHandset t) = (startProtocol w).setHandset t :=
    ignoresTable_controlLed t ((writeDect .startProtocolReq w).setRadio .enabled (.inr rfl))
  have hstop : stopProtocol (w.setHandset t) = (stopProtocol w).setHandset t :=
    ignoresTable_controlLed t ((writeDect .stopProtocolReq w).setRadio .disabled (.inl rfl))
  simp only [dectRadio, hstart, hstop, apply_ite (World.setHandset t)]
  rfl

/-- The own entry of a handset that is not bad. -/
theorem inTable_own {handset : ℕ} (hgood : ¬ badHandsetnr handset = true) :
    InTable (handset - 1) := by
  obtain ⟨hlow, hhigh⟩ := badHandsetnr_eq_false_iff.mp (Bool.not_eq_true _ ▸ hgood)
  constructor <;> omega

/-- The count stays inside the table. -/
theorem within_countRegistered {is : List ℕ} (h : ∀ i ∈ is, i < maxNrHandsets) (count : ℕ) :
    (countRegistered count is).Within InTable fun _ => True := by
  induction is generalizing count with
  | nil => exact trivial
  | cons i is ih =>
      obtain ⟨hi, his⟩ := List.forall_mem_cons.mp h
      exact ⟨⟨Int.natCast_nonneg i, Int.ofNat_lt.mpr hi⟩, fun _ => ih his _⟩

theorem within_perhapsDisableProtocol (radio : RegState) :
    (perhapsDisableProtocolProgram radio).Within InTable IgnoresTable := by
  unfold perhapsDisableProtocolProgram
  split
  · refine (within_countRegistered (fun i => List.mem_range.mp) 0).bind fun count _ => ?_
    exact ignoresTable_controlLed.after ((ignoresTable_dectRadio _).after (ignoresTable_record _))
  · exact ignoresTable_controlLed.after (ignoresTable_record _)

/-- So does the loop over a list. -/
theorem within_mark (ids : List ℕ) : (markProgram ids).Within InTable fun _ => True := by
  induction ids with
  | nil => exact trivial
  | cons handset ids ih =>
      rw [markProgram]
      split
      · exact trivial
      · exact ⟨inTable_own ‹_›, ih⟩

/-- So does a count confirmation. -/
theorem within_registrationCountCfm (m : RegistrationCountCfm) (radio : RegState) :
    (registrationCountCfmProgram m radio).Within InTable IgnoresTable := by
  unfold registrationCountCfmProgram
  split
  · refine (within_mark m.ids).bind fun finished _ => ?_
    split
    · split
      · exact fun _ _ => rfl
      · exact within_perhapsDisableProtocol radio
    · exact fun _ _ => rfl
  · exact fun _ _ => rfl

/-- So does the end of a ping. -/
theorem within_hangUp (handset : ℕ) {rest : World → World} (hrest : IgnoresTable rest) :
    (hangUpProgram handset rest).Within InTable IgnoresTable := by
  unfold hangUpProgram
  split
  · exact fun _ _ => rfl
  · refine ⟨inTable_own ‹_›, fun h => ?_⟩
    dsimp only
    split
    · exact ⟨inTable_own ‹_›, hrest⟩
    · exact fun _ _ => rfl

/-- **An IPUI confirmation** uses the own entry, the index behind it, and maybe the
table. -/
theorem within_handsetIpuiCfm {I : ℤ → Prop} {handset : ℕ} (hI : ∀ i, InTable i → I i)
    (hnext : ¬ badHandsetnr handset = true → I handset) (ipui : Fin 5 → UInt8)
    (radio : RegState) : (handsetIpuiCfmProgram handset ipui radio).Within I IgnoresTable := by
  unfold handsetIpuiCfmProgram
  split
  · exact fun _ _ => rfl
  · rename_i hgood
    have hown := hI _ (inTable_own hgood)
    refine ⟨hown, hown, hown, hown, hown, hnext hgood, fun next => ?_⟩
    dsimp only
    split
    · exact fun _ _ => rfl
    · exact (within_perhapsDisableProtocol radio).mono hI

/-- **The handler of an event** leaves the table to its program, and stays inside it
unless the identity of the last handset is confirmed. -/
theorem within_handlerProgram {I : ℤ → Prop} (hI : ∀ i, InTable i → I i) {e : Event}
    (hlast : ConfirmsLast e → I maxNrHandsets) (w : World) :
    (handlerProgram w e).Within I IgnoresTable := by
  cases e with
  | client type data env =>
      rw [handlerProgram, pingHandsetProgram]
      split_ifs with hping hbad hradio
      · exact fun _ _ => rfl
      · exact fun _ _ => rfl
      · exact ⟨hI _ (inTable_own hbad), fun _ _ => rfl⟩
      · exact fun _ _ => rfl
  | mail m env =>
      cases m with
      | connectInd handset =>
          refine Within.mono (within_hangUp handset ?_) hI
          exact fun _ _ => rfl
      | handsetPresentInd handset length =>
          rw [handlerProgram, presentIndProgram]
          split_ifs
          · exact fun _ _ => rfl
          · exact ⟨hI _ (inTable_own ‹_›), fun _ _ => rfl⟩
      | getHandsetIpuiCfm handset ipui =>
          refine within_handsetIpuiCfm hI (fun hgood => ?_) ipui w.config.radio
          by_cases hmax : handset = maxNrHandsets
          · exact hmax ▸ hlast hmax
          · obtain ⟨-, hhigh⟩ := badHandsetnr_eq_false_iff.mp (Bool.not_eq_true _ ▸ hgood)
            refine hI _ ⟨Int.natCast_nonneg _, Int.ofNat_lt.mpr (hhigh.lt_of_ne hmax)⟩
      | getRegistrationCountCfm m =>
          exact (within_registrationCountCfm m w.config.radio).mono hI
      | deleteRegistrationCfm handset =>
          rw [handlerProgram, deleteRegistrationCfmProgram]
          split_ifs
          · exact fun _ _ => rfl
          · exact ⟨hI _ (inTable_own ‹_›), hI _ (inTable_own ‹_›), fun _ _ => rfl⟩
      | _ => exact fun _ _ => rfl
  | timeout t =>
      obtain ⟨callback, usec, armed⟩ := t
      cases callback with
      | pingHandsetStop handset =>
          refine Within.mono (within_hangUp handset ?_) hI
          exact fun _ _ => rfl
      | _ => exact fun _ _ => rfl

/-- **One event** stays inside the table exactly when it does not confirm the
identity of the last handset. -/
theorem inTable_iff (w : World) (e : Event) :
    (∀ i ∈ accesses w e, InTable i) ↔ ¬ ConfirmsLast e := by
  constructor
  · intro hin hlast
    cases e with
    | mail m env =>
        cases m with
        | getHandsetIpuiCfm handset ipui =>
            -- the sixth index that the handler uses
            obtain rfl : handset = maxNrHandsets := hlast
            have hmem : (maxNrHandsets : ℤ) ∈
                accesses w (.mail (.getHandsetIpuiCfm maxNrHandsets ipui) env) :=
              List.mem_of_getElem? (i := 5) rfl
            exact absurd (hin _ hmem).2 (lt_irrefl _)
        | _ => exact hlast
    | _ => exact hlast
  · intro hlast
    exact (within_handlerProgram (fun _ => id) (fun h => absurd h hlast) w).indices _ _

/-! ## The table that a step leaves -/

/-- A handler leaves the table that its program leaves. -/
theorem handset_serve {I : ℤ → Prop} {p : TableProgram Hset (World → World)}
    (h : p.Within I IgnoresTable) (beyond : Hset) (w : World) :
    (w.serve beyond p).status.handset = (p.run beyond w.status.handset).2 :=
  (h.result beyond w.status.handset).handset _

/-- **A step** leaves the table that the program of its event leaves. -/
theorem handset_step {w w' : World} {e : Event} (h : step w e = some w') :
    w'.status.handset = ((handlerProgram w e).run e.beyond w.status.handset).2 := by
  have hwithin : (handlerProgram w e).Within (fun _ => True) IgnoresTable :=
    within_handlerProgram (fun _ _ => trivial) (fun _ => trivial) w
  refine Eq.trans ?_ (handset_serve hwithin e.beyond w)
  -- the events whose handler is no such program leave both parts of the table alone
  have hquiet (hreg : (registry w).observe e = registry w)
      (hflag : (pingEffect w e).2 = (pinging w).2) : w'.status.handset = w.status.handset := by
    funext k
    exact hset_eq_of_parts ((congrFun (registry_step h) k).trans (congrFun hreg k))
      ((congrFun (congrArg Prod.snd (pinging_step h)) k).trans (congrFun hflag k))
  cases e with
  | client type data env =>
      rw [handlerProgram]
      split_ifs with hping
      · rw [step, handleClientPacket, hping] at h
        obtain rfl := Option.some.inj h
        rfl
      · refine hquiet rfl ?_
        simp only [pingEffect, pingOf, confirms, endsPing, ← PacketType.ofCode_eq_some_iff, hping,
          false_and, if_false]
  | mail m env =>
      obtain rfl : tick (handleDectPacket env m w) = w' := by simpa [step] using h
      cases m with
      | connectInd handset => rfl
      | getHandsetIpuiCfm handset ipui => rfl
      | getRegistrationCountCfm m => rfl
      | deleteRegistrationCfm handset => rfl
      | handsetPresentInd handset length =>
          simp only [handleDectPacket]
          split <;> rfl
      | _ => exact hquiet rfl rfl
  | timeout t =>
      obtain ⟨callback, usec, armed⟩ := t
      cases callback with
      | pingHandsetStop handset =>
          simp only [step, Option.ite_none_right_eq_some, Option.some.injEq] at h
          obtain ⟨-, rfl⟩ := h
          -- the timer is gone when the handler runs
          exact (handset_serve hwithin .zero { w with timers := w.timers.erase _ }).trans
            (handset_serve hwithin .zero w).symm
      | _ => exact hquiet rfl rfl

/-- **Entries that are not accessed** stay as they are. -/
theorem entry_of_not_accessed {w w' : World} {e : Event} {k : Fin maxNrHandsets}
    (hk : (k.val : ℤ) ∉ accesses w e) (h : step w e = some w') :
    w'.status.handset k = w.status.handset k := by
  rw [handset_step h]
  exact run_of_not_mem_indices hk

/-- The event with other memory behind the table. -/
def Event.withBeyond (beyond : Hset) : Event → Event
  | .client type data env => .client type data { env with beyond }
  | .mail m env => .mail m { env with beyond }
  | .timeout t => .timeout t

/-- **The memory behind the table** has no part in an event whose accesses are inside. -/
theorem step_withBeyond {w : World} {e : Event} (h : ∀ i ∈ accesses w e, InTable i)
    (beyond : Hset) : step w (e.withBeyond beyond) = step w e := by
  cases e with
  | client type data env => rfl
  | timeout t => rfl
  | mail m env =>
      cases m with
      | getHandsetIpuiCfm handset ipui =>
          have hrun : (handsetIpuiCfmProgram handset ipui w.config.radio).run beyond
              w.status.handset = (handsetIpuiCfmProgram handset ipui w.config.radio).run env.beyond
                w.status.handset := run_beyond h beyond
          simp only [Event.withBeyond, step, handleDectPacket, handsetIpuiCfm, World.serve, hrun]
      | _ => rfl

/-- Nor in a run that does not confirm the identity of the last handset. -/
theorem run_withBeyond {es : List Event} (h : ∀ e ∈ es, ¬ ConfirmsLast e) (beyond : Hset)
    (w : World) : run step w (es.map (Event.withBeyond beyond)) = run step w es := by
  induction es generalizing w with
  | nil => rfl
  | cons e es ih =>
      obtain ⟨he, hes⟩ := List.forall_mem_cons.mp h
      rw [List.map_cons, run_cons, run_cons, step_withBeyond ((inTable_iff w e).mpr he)]
      refine congrArg _ (funext fun w' => ih hes w')

/-- **The indices of a run** are inside the table exactly when the identity of the last
handset is not confirmed. -/
theorem accesses_in_table_iff (config : Config) (es : List Event) :
    Along step (fun _ w e _ => ∀ i ∈ accesses w e, InTable i) (initial config) es ↔
      Along step (fun _ _ e _ => ¬ ConfirmsLast e) (initial config) es := by
  refine along_congr fun _ e _ w _ _ _ _ => ?_
  exact inTable_iff w e

/-- The confirmation for handset 20 makes the manager look at entry 21. -/
theorem last_confirmation_leaves_table :
    ¬ Along step (fun _ w e _ => ∀ i ∈ accesses w e, InTable i) (initial ⟨.enabled, by decide⟩)
      [.mail (.getHandsetIpuiCfm 20 fun _ => 7) .none] := by
  intro h
  have hin := h [] _ [] _ _ rfl rfl rfl 20 (by decide)
  exact absurd hin.2 (by decide)

end DectManager
