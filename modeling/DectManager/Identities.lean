/-
# What the manager reports about handsets

The registered flags and the identities of the table in terms of what has
happened: a flag says that a count confirmation has marked the handset since it
was last deleted, an identity that it was delivered last.

* `refresh_exact_iff`: the refreshes of a run leave exactly the handsets of
  their lists marked, exactly when none of them misses a handset that an earlier
  one has marked and that has not been deleted since.  `registration_count_cfm`
  sets flags and never clears one.
* `identities_fresh_iff`: no status reply of a run shows the identity of a
  deleted handset as that of a registered one, exactly when no id is asked for
  that has been deleted since its identity came and marked again since.
  `delete_registration_cfm` leaves the identity in the table.
-/
import DectManager.Registry
import DectManager.RegistrationMode

namespace DectManager

open PartialRun

/-! ## Events about a handset -/

/-- The event is a count confirmation that marks the handset as registered. -/
def Marks (id : ℕ) : Event → Prop
  | .mail (.getRegistrationCountCfm m) _ =>
    m.status = .success ∧ id ∈ m.ids.takeWhile fun id => !badHandsetnr id
  | _ => False

/-- The event confirms that the handset has been deleted. -/
def Deletes (id : ℕ) : Event → Prop
  | .mail (.deleteRegistrationCfm handset) _ => handset = id
  | _ => False

/-- The event delivers an identity of the handset. -/
def Delivers (id : ℕ) (ipui : Fin 5 → UInt8) : Event → Prop
  | .mail (.getHandsetIpuiCfm handset bytes) _ => handset = id ∧ bytes = ipui
  | _ => False

/-- The event delivers some identity of the handset. -/
def DeliversAny (id : ℕ) (e : Event) : Prop := ∃ ipui, Delivers id ipui e

/-- The registered flag of the entry. -/
def IsRegistered (k : Fin maxNrHandsets) (w : World) : Prop :=
  (w.status.handset k).registered = true8

/-! ## Flags and identities after a run -/

namespace Registry

/-- The flags after a list: those of the ids before the first bad one are set. -/
theorem mark_registered_iff (ids : List ℕ) (r : Registry) (k : Fin maxNrHandsets) :
    (r.mark ids k).registered = true8 ↔
      k.val + 1 ∈ ids.takeWhile (fun id => !badHandsetnr id) ∨ (r k).registered = true8 := by
  rw [mark_apply]
  split_ifs with hmem
  · simp [hmem]
  · simp [hmem]

/-- Marking writes no identity. -/
theorem mark_ipui (ids : List ℕ) (r : Registry) (k : Fin maxNrHandsets) :
    (r.mark ids k).ipui = (r k).ipui := by
  rw [mark_apply]
  split_ifs <;> rfl

end Registry

namespace Registry

/-- What an event does to a registered flag. -/
theorem observe_registered_iff (r : Registry) (e : Event) (k : Fin maxNrHandsets) :
    (r.observe e k).registered = true8 ↔
      Marks (k.val + 1) e ∨ (r k).registered = true8 ∧ ¬ Deletes (k.val + 1) e := by
  cases e with
  | client type data env => simp [observe, Marks, Deletes]
  | timeout t => simp [observe, Marks, Deletes]
  | mail m env =>
      cases m with
      | getRegistrationCountCfm m =>
          simp only [observe, receive, Marks, Deletes]
          split_ifs with hok
          · simp [hok, mark_registered_iff]
          · simp [hok]
      | deleteRegistrationCfm handset =>
          simp only [observe, receive, Marks, Deletes, false_or]
          split_ifs with hbad
          · simp [ne_entry_of_bad hbad k]
          · rw [modify_entry (Bool.not_eq_true _ ▸ hbad)]
            split_ifs with hentry
            · simp [hentry, true8, false8]
            · simp [hentry]
      | handsetPresentInd handset length =>
          show (r.receive (.handsetPresentInd handset length) k).registered = true8 ↔ _
          rw [receive_registered id]
          simp [Marks, Deletes]
      | getHandsetIpuiCfm handset ipui =>
          show (r.receive (.getHandsetIpuiCfm handset ipui) k).registered = true8 ↔ _
          rw [receive_registered id]
          simp [Marks, Deletes]
      | _ => simp [observe, receive, Marks, Deletes]

/-- What an event does to an identity. -/
theorem observe_ipui_iff (r : Registry) (e : Event) (k : Fin maxNrHandsets)
    (ipui : Fin 5 → UInt8) :
    (r.observe e k).ipui = ipui ↔
      Delivers (k.val + 1) ipui e ∨ (r k).ipui = ipui ∧ ¬ DeliversAny (k.val + 1) e := by
  cases e with
  | client type data env => simp [observe, Delivers, DeliversAny]
  | timeout t => simp [observe, Delivers, DeliversAny]
  | mail m env =>
      cases m with
      | getHandsetIpuiCfm handset bytes =>
          simp only [observe, receive, Delivers, DeliversAny]
          split_ifs with hbad
          · simp [ne_entry_of_bad hbad k]
          · rw [modify_entry (Bool.not_eq_true _ ▸ hbad)]
            split_ifs with hentry
            · simp [hentry]
            · simp [hentry]
      | getRegistrationCountCfm m =>
          simp only [observe, receive, Delivers, DeliversAny]
          split_ifs
          · simp [mark_ipui]
          · simp
      | handsetPresentInd handset length | deleteRegistrationCfm handset =>
          simp only [observe, receive, Delivers, DeliversAny]
          split_ifs with hbad
          · simp
          · rw [modify_entry (Bool.not_eq_true _ ▸ hbad)]
            split_ifs <;> simp
      | _ => simp [observe, receive, Delivers, DeliversAny]

end Registry

/-- **A registered flag** says that the handset has been marked since it was last
deleted. -/
theorem isRegistered_iff_since (config : Config) (k : Fin maxNrHandsets) :
    ∀ es w, run step (initial config) es = some w →
      (IsRegistered k w ↔ Since (Marks (k.val + 1)) (Deletes (k.val + 1)) es) := by
  refine iff_since_run (fun h => ?_) fun w e w' he => ?_
  · exact absurd (show false8 = true8 from h) (by decide)
  have hreg : IsRegistered k w' ↔ ((registry w).observe e k).registered = true8 := by
    rw [← registry_step he]
    rfl
  rw [hreg]
  exact Registry.observe_registered_iff (registry w) e k

/-- **An identity** that is not zero is the one that was delivered last. -/
theorem ipui_iff_since (config : Config) (k : Fin maxNrHandsets) {ipui : Fin 5 → UInt8}
    (hne : ipui ≠ 0) :
    ∀ es w, run step (initial config) es = some w →
      ((w.status.handset k).ipui = ipui ↔
        Since (Delivers (k.val + 1) ipui) (DeliversAny (k.val + 1)) es) := by
  refine iff_since_run (fun h => hne h.symm) fun w e w' he => ?_
  have hreg : (w'.status.handset k).ipui = ((registry w).observe e k).ipui := by
    rw [← registry_step he]
    rfl
  rw [hreg]
  exact Registry.observe_ipui_iff (registry w) e k ipui

/-! ## Refreshes -/

/-- Only handsets of the table are marked. -/
theorem Marks.good {id : ℕ} {e : Event} (h : Marks id e) : badHandsetnr id = false := by
  cases e with
  | mail m env =>
      cases m with
      | getRegistrationCountCfm m => simpa using List.mem_takeWhile_imp h.2
      | _ => exact False.elim h
  | _ => exact False.elim h

/-- What has been marked is an entry of the table. -/
theorem exists_entry_of_since {id : ℕ} {C : Event → Prop} {es : List Event}
    (h : Since (Marks id) C es) : ∃ k : Fin maxNrHandsets, k.val + 1 = id := by
  obtain ⟨-, e, -, -, he, -⟩ := h
  exact exists_entry he.good

/-- The event is a successful count confirmation that lists these handsets of the table. -/
def Lists (ids : List ℕ) : Event → Prop
  | .mail (.getRegistrationCountCfm m) _ =>
    m.status = .success ∧ m.ids = ids ∧ ∀ id ∈ ids, 1 ≤ id ∧ id ≤ maxNrHandsets
  | _ => False

/-- After the event, if it lists handsets, just these are registered. -/
def RefreshExact (e : Event) (w' : World) : Prop :=
  ∀ ids, Lists ids e → ∀ k : Fin maxNrHandsets, IsRegistered k w' ↔ k.val + 1 ∈ ids

/-- The event, if it lists handsets, misses none that has been marked and not been deleted since. -/
def MissesNone (es : List Event) (e : Event) : Prop :=
  ∀ ids, Lists ids e → ∀ id, Since (Marks id) (Deletes id) es → id ∈ ids

/-- A list marks its handsets and deletes none. -/
theorem Lists.marks_iff {ids : List ℕ} {e : Event} (h : Lists ids e) (id : ℕ) :
    (Marks id e ↔ id ∈ ids) ∧ ¬ Deletes id e := by
  cases e with
  | mail m env =>
      cases m with
      | getRegistrationCountCfm m =>
          obtain ⟨hok, rfl, hrange⟩ := h
          refine ⟨?_, not_false⟩
          have hall := takeWhile_good fun id hid => badHandsetnr_eq_false_iff.mpr (hrange id hid)
          simp only [Marks, hok, hall, true_and]
      | _ => exact False.elim h
  | _ => exact False.elim h

/-- **Refreshes are exact** along a run exactly when none of them misses a handset that an earlier
one has marked and that has not been deleted since. -/
theorem refresh_exact_iff (config : Config) (es : List Event) :
    Along step (fun _ _ e w' => RefreshExact e w') (initial config) es ↔
      Along step (fun pre _ e _ => MissesNone pre e) (initial config) es := by
  refine along_congr fun pre e _ w w' _ hrun he => ?_
  have hrun' : run step (initial config) (pre ++ [e]) = some w' :=
    (run_concat_eq_some step).mpr ⟨w, hrun, he⟩
  refine forall₂_congr fun ids hlist => ?_
  -- after the event the registered handsets are the listed ones and those registered before
  have hafter (k : Fin maxNrHandsets) : IsRegistered k w' ↔
      k.val + 1 ∈ ids ∨ Since (Marks (k.val + 1)) (Deletes (k.val + 1)) pre := by
    obtain ⟨hmarks, hdel⟩ := hlist.marks_iff (k.val + 1)
    rw [isRegistered_iff_since config k _ w' hrun', since_concat_iff, hmarks, and_iff_left hdel]
  constructor
  · intro hexact id hsince
    obtain ⟨k, rfl⟩ := exists_entry_of_since hsince
    exact (hexact k).mp ((hafter k).mpr (.inr hsince))
  · intro hmiss k
    rw [hafter k]
    exact or_iff_left_of_imp (hmiss _)

/-- A successful count confirmation with these ids. -/
def countCfm (ids : List ℕ) : Event :=
  .mail (.getRegistrationCountCfm ⟨.success, maxNrHandsets, ids.length, fun i => ids.getD i 0⟩)
    .none

/-- The run "handsets 1 and 2 are listed, then handset 1 is listed" leaves handset 2 registered. -/
theorem lost_handset_stays_registered :
    ¬ Along step (fun _ _ e w' => RefreshExact e w') (initial ⟨.enabled, by decide⟩)
      [countCfm [1, 2], countCfm [1]] := by
  intro h
  have hend : (run step (initial ⟨.enabled, by decide⟩) [countCfm [1, 2]]).map
      (fun w => (step w (countCfm [1])).map fun w' =>
        (w'.status.handset ⟨1, by decide⟩).registered) = some (some true8) := by
    decide
  obtain ⟨w, hw, hstate⟩ := Option.map_eq_some_iff.mp hend
  obtain ⟨w', hw', hreg⟩ := Option.map_eq_some_iff.mp hstate
  have hexact := h [countCfm [1, 2]] (countCfm [1]) [] w w' rfl hw hw' [1]
    ⟨rfl, by decide, by decide⟩
  exact absurd ((hexact ⟨1, by decide⟩).mp hreg) (by decide)

/-! ## Status replies -/

/-- The event asks for the status. -/
def AsksStatus : Event → Prop
  | .client type _ _ => type = PacketType.getStatus.code
  | _ => False

/-- The reply is the status as it stands. -/
theorem log_of_asksStatus {w w' : World} {e : Event} (he : AsksStatus e) (h : step w e = some w') :
    w'.log = .sendStatus w.status :: w.log := by
  cases e with
  | client type data env =>
      obtain rfl : type = PacketType.getStatus.code := he
      obtain rfl : tick (getStatus w) = w' := Option.some.inj h
      rfl
  | mail m env => exact False.elim he
  | timeout t => exact False.elim he

/-- The reply to a status request shows, for every registered handset, no identity or one that was
delivered since the handset was last deleted. -/
def ReportsFresh (es : List Event) (e : Event) (w' : World) : Prop :=
  AsksStatus e → ∀ s, w'.log.head? = some (.sendStatus s) → ∀ k : Fin maxNrHandsets,
    (s.handset k).registered = true8 →
      (s.handset k).ipui = 0 ∨
        Since (Delivers (k.val + 1) (s.handset k).ipui) (Deletes (k.val + 1)) es

/-- The id has been used again: marked since it was last deleted, and deleted since its identity
came, which was not zero. -/
def Reused (id : ℕ) (es : List Event) : Prop :=
  Since (Marks id) (Deletes id) es ∧ Since (Deletes id) (DeliversAny id) es ∧
    ∃ ipui, ipui ≠ 0 ∧ Since (Delivers id ipui) (DeliversAny id) es

/-- A delivery deletes nothing. -/
theorem Delivers.not_deletes {id : ℕ} {ipui : Fin 5 → UInt8} {e : Event}
    (h : Delivers id ipui e) : ¬ Deletes id e := by
  cases e with
  | mail m env =>
      cases m with
      | getHandsetIpuiCfm handset bytes => exact not_false
      | _ => exact False.elim h
  | _ => exact False.elim h

/-- **One entry**, after a run: it shows the identity of a deleted handset as that of a registered
one exactly when its id has been used again. -/
theorem stale_entry_iff {config : Config} {es : List Event} {w : World}
    (hrun : run step (initial config) es = some w) (k : Fin maxNrHandsets) :
    (IsRegistered k w → (w.status.handset k).ipui = 0 ∨
        Since (Delivers (k.val + 1) (w.status.handset k).ipui) (Deletes (k.val + 1)) es) ↔
      ¬ Reused (k.val + 1) es := by
  unfold Reused
  rw [← isRegistered_iff_since config k es w hrun]
  by_cases hzero : (w.status.handset k).ipui = 0
  · -- no identity has been delivered last
    refine iff_of_true (fun _ => .inl hzero) ?_
    rintro ⟨-, -, ipui, hne, hsince⟩
    exact hne (((ipui_iff_since config k hne es w hrun).mpr hsince).symm.trans hzero)
  · have hlast := (ipui_iff_since config k hzero es w hrun).mp rfl
    have hstale := since_iff_not_since (D := Deletes (k.val + 1)) (fun e he => ⟨_, he⟩)
      (fun e he => he.not_deletes) hlast
    have hsome : ∃ ipui, ipui ≠ 0 ∧
        Since (Delivers (k.val + 1) ipui) (DeliversAny (k.val + 1)) es := ⟨_, hzero, hlast⟩
    rw [or_iff_right hzero, hstale, and_iff_left hsome, not_and]

/-- **No stale identity is reported** along a run exactly when no status is asked for while some
id has been used again: marked since it was last deleted, and deleted since its identity came. -/
theorem identities_fresh_iff (config : Config) (es : List Event) :
    Along step (fun pre _ e w' => ReportsFresh pre e w') (initial config) es ↔
      Along step (fun pre _ e _ => AsksStatus e → ∀ id, ¬ Reused id pre) (initial config) es := by
  refine along_congr fun pre e _ w w' _ hrun he => ?_
  refine forall_congr' fun hasks => ?_
  rw [log_of_asksStatus hasks he]
  constructor
  · intro hfresh id hreused
    obtain ⟨k, rfl⟩ := exists_entry_of_since hreused.1
    exact (stale_entry_iff hrun k).mp (hfresh w.status rfl k) hreused
  · intro hnone s hs k
    obtain rfl : w.status = s := Action.sendStatus.inj (Option.some.inj hs)
    exact (stale_entry_iff hrun k).mpr (hnone _)

/-- The identity of handset 3 arrives. -/
def ipuiCfmOfThree : Event := .mail (.getHandsetIpuiCfm 3 fun _ => 7) .none

/-- The run "handset 3 is listed, its identity arrives, it is deleted, id 3 is listed again": the
status then shows the old identity. -/
theorem old_identity_reported :
    ¬ Along step (fun pre _ e w' => ReportsFresh pre e w') (initial ⟨.enabled, by decide⟩)
      [countCfm [3], ipuiCfmOfThree, .mail (.deleteRegistrationCfm 3) .none, countCfm [3],
        command .getStatus 0] := by
  intro h
  have hend : (run step (initial ⟨.enabled, by decide⟩) [countCfm [3], ipuiCfmOfThree,
      .mail (.deleteRegistrationCfm 3) .none, countCfm [3]]).map
        (fun w => ((w.status.handset ⟨2, by decide⟩).registered,
          (w.status.handset ⟨2, by decide⟩).ipui)) = some (true8, fun _ => 7) := by
    decide
  obtain ⟨w, hw, hentry⟩ := Option.map_eq_some_iff.mp hend
  obtain ⟨hreg, hipui⟩ := Prod.mk.inj hentry
  have hfresh := h _ (command .getStatus 0) [] w _ rfl hw rfl rfl w.status rfl ⟨2, by decide⟩ hreg
  rw [hipui] at hfresh
  -- the delivery came before the deletion
  rcases hfresh with hzero | hsince
  · exact absurd (congrFun hzero 0) (by decide)
  · change Since _ _ ([] ++ [countCfm [3]] ++ [ipuiCfmOfThree] ++
      [.mail (.deleteRegistrationCfm 3) .none] ++ [countCfm [3]]) at hsince
    simp only [since_concat_iff] at hsince
    simp [Delivers, Deletes, countCfm] at hsince

end DectManager
