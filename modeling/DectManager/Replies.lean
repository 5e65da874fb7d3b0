/-
# What the replies to `GET_STATUS` tell

A client learns about the manager only from the replies that it asks for.  Each
of them is the status as it stood when the request was processed, and the table
in it is a summary of the events processed before.

* `Tells` is what a reply says about these events: a flag is `TRUE` or `FALSE`,
  and `TRUE` exactly when what sets it has happened since what clears it last
  did; an identity is the last one delivered.
* `replies_tell_history`: throughout every run there is one reply for each
  request, in order, and it tells the history up to its request.
-/
import DectManager.Effects
import DectManager.PingTimers

namespace DectManager

open PartialRun

/-! ## Requests and replies -/

/-- The status that an action sends to a client. -/
def Action.status? : Action → Option Status
  | .sendStatus s => some s
  | _ => none

/-- The replies sent so far, oldest first. -/
def replies (w : World) : List Status := (w.log.filterMap Action.status?).reverse

instance (e : Event) : Decidable (AsksStatus e) :=
  match e with
  | .client type _ _ => inferInstanceAs (Decidable (type = PacketType.getStatus.code))
  | .mail _ _ => .isFalse not_false
  | .timeout _ => .isFalse not_false

/-- For each status request among the events `es`, which were processed after `pre`, what had been
processed before it. -/
def questionsFrom (pre : List Event) : List Event → List (List Event)
  | [] => []
  | e :: es =>
    if AsksStatus e then pre :: questionsFrom (pre ++ [e]) es else questionsFrom (pre ++ [e]) es

/-- For each status request of a run, oldest first, what had been processed before it. -/
def questions (es : List Event) : List (List Event) := questionsFrom [] es

/-- The questions of the events that come later. -/
theorem questionsFrom_append (pre es es' : List Event) :
    questionsFrom pre (es ++ es') = questionsFrom pre es ++ questionsFrom (pre ++ es) es' := by
  induction es generalizing pre with
  | nil =>
      rw [List.append_nil]
      rfl
  | cons e es ih =>
      rw [List.cons_append, questionsFrom, questionsFrom, ih, List.append_assoc,
        List.singleton_append]
      split_ifs <;> rfl

/-- There is one question for each status request. -/
theorem length_questionsFrom (pre es : List Event) :
    (questionsFrom pre es).length = es.countP fun e => decide (AsksStatus e) := by
  induction es generalizing pre with
  | nil => rfl
  | cons e es ih =>
      rw [questionsFrom, List.countP_cons, ← ih (pre ++ [e])]
      simp only [decide_eq_true_eq]
      split_ifs <;> rfl

/-- One more event is one more question at most. -/
theorem questions_concat (es : List Event) (e : Event) :
    questions (es ++ [e]) = questions es ++ if AsksStatus e then [es] else [] :=
  questionsFrom_append [] es [e]

/-- No effect sends a reply. -/
theorem replies_effect {w w' : World} (h : Effect w w') : replies w' = replies w := by
  cases h <;> rfl

/-- **One step.**  A status request is answered with the status as it stands, and nothing else is
answered. -/
theorem replies_step {w w' : World} {e : Event} (h : step w e = some w') :
    replies w' = replies w ++ if AsksStatus e then [w.status] else [] := by
  split_ifs with he
  · rw [replies, log_of_asksStatus he h]
    simp [replies, Action.status?]
  · rw [List.append_nil]
    have hkeep : ∀ v v', Effect v v' → replies v = replies w → replies v' = replies w :=
      fun v v' heffect hv => (replies_effect heffect).trans hv
    exact invariant_effects hkeep (effects_step he h) rfl

/-- **A run.**  The replies grow by one for each status request. -/
theorem replies_run {es : List Event} {w w' : World} (h : run step w es = some w') :
    ∃ new, replies w' = replies w ++ new ∧
      new.length = es.countP fun e => decide (AsksStatus e) := by
  induction es generalizing w with
  | nil =>
      obtain rfl : w = w' := Option.some.inj h
      exact ⟨[], (List.append_nil _).symm, rfl⟩
  | cons e es ih =>
      obtain ⟨v, he, hes⟩ := Option.bind_eq_some_iff.mp h
      obtain ⟨new, hnew, hlen⟩ := ih hes
      rw [replies_step he, List.append_assoc] at hnew
      refine ⟨_, hnew, ?_⟩
      rw [List.length_append, hlen, List.countP_cons]
      simp only [decide_eq_true_eq]
      split_ifs
      · exact Nat.add_comm _ _
      · exact Nat.zero_add _

/-! ## Flags -/

/-- The event indicates that the handset is present. -/
def Appears (id : ℕ) : Event → Prop
  | .mail (.handsetPresentInd handset _) _ => handset = id
  | _ => False

/-- What an event does to a present flag. -/
theorem Registry.observe_present_iff (r : Registry) (e : Event) (k : Fin maxNrHandsets) :
    (r.observe e k).present = true8 ↔
      Appears (k.val + 1) e ∨ (r k).present = true8 ∧ ¬ Deletes (k.val + 1) e := by
  cases e with
  | client type data env => simp [observe, Appears, Deletes]
  | timeout t => simp [observe, Appears, Deletes]
  | mail m env =>
      cases m with
      | handsetPresentInd handset length =>
          simp only [observe, receive, Appears, Deletes]
          split_ifs with hbad
          · simp [ne_entry_of_bad hbad k]
          · rw [modify_entry (Bool.not_eq_true _ ▸ hbad)]
            split_ifs with hentry
            · simp [hentry]
            · simp [hentry]
      | deleteRegistrationCfm handset =>
          simp only [observe, receive, Appears, Deletes, false_or]
          split_ifs with hbad
          · simp [ne_entry_of_bad hbad k]
          · rw [modify_entry (Bool.not_eq_true _ ▸ hbad)]
            split_ifs with hentry
            · simp [hentry, true8, false8]
            · simp [hentry]
      | getRegistrationCountCfm m =>
          simp only [observe, receive, Appears, Deletes]
          split_ifs
          · rw [mark_apply]
            split_ifs <;> simp
          · simp
      | getHandsetIpuiCfm handset ipui =>
          simp only [observe, receive, Appears, Deletes]
          split_ifs with hbad
          · simp
          · rw [modify_entry (Bool.not_eq_true _ ▸ hbad)]
            split_ifs <;> simp
      | _ => simp [observe, receive, Appears, Deletes]

/-- **A present flag** says that the handset has been present since it was last deleted. -/
theorem present_iff_since (config : Config) (k : Fin maxNrHandsets) :
    ∀ es w, run step (initial config) es = some w →
      ((w.status.handset k).present = true8 ↔
        Since (Appears (k.val + 1)) (Deletes (k.val + 1)) es) := by
  refine iff_since_run (fun h => ?_) fun w e w' he => ?_
  · exact absurd (show false8 = true8 from h) (by decide)
  have hreg : (w'.status.handset k).present = ((registry w).observe e k).present := by
    rw [← registry_step he]
    rfl
  rw [hreg]
  exact Registry.observe_present_iff (registry w) e k

/-- The last event makes the manager ping the handset. -/
def Rings (config : Config) (id : ℕ) (pre : List Event) (e : Event) : Prop :=
  ∃ w, run step (initial config) pre = some w ∧ pingOf w e = some id

/-- The event ends a ping of the handset. -/
def Silences (id : ℕ) (e : Event) : Prop := endsPing e = some id

/-- **A ping flag** says that the handset has been pinged since it last answered or the timer of a
ping of it last expired. -/
theorem pinging_iff_since (config : Config) (k : Fin maxNrHandsets) :
    ∀ es w, run step (initial config) es = some w →
      ((w.status.handset k).pinging = true8 ↔
        SinceAt (Rings config (k.val + 1)) (Silences (k.val + 1)) es) := by
  refine iff_sinceAt_run (fun h => ?_) fun es w e w' hrun he => ?_
  · exact absurd (show false8 = true8 from h) (by decide)
  have hrings : Rings config (k.val + 1) es e ↔ pingOf w e = some (k.val + 1) := by
    constructor
    · rintro ⟨v, hv, hping⟩
      obtain rfl : w = v := Option.some.inj (hrun.symm.trans hv)
      exact hping
    · intro hping
      exact ⟨w, hrun, hping⟩
  rw [hrings]
  exact flag_step he k

/-- All flags of an entry are `TRUE` or `FALSE`. -/
structure Hset.Binary (h : Hset) : Prop where
  registered : h.registered = true8 ∨ h.registered = false8
  present : h.present = true8 ∨ h.present = false8
  pinging : h.pinging = true8 ∨ h.pinging = false8

/-- What is written to an entry keeps its flags binary. -/
theorem Hset.Binary.apply {h : Hset} (hh : h.Binary) (x : EntryWrite) : (x.apply h).Binary := by
  cases x with
  | registered => exact ⟨.inl rfl, hh.present, hh.pinging⟩
  | present => exact ⟨hh.registered, .inl rfl, hh.pinging⟩
  | identity ipui => exact ⟨hh.registered, hh.present, hh.pinging⟩
  | deleted => exact ⟨.inr rfl, .inr rfl, hh.pinging⟩
  | ringing => exact ⟨hh.registered, hh.present, .inl rfl⟩
  | silent => exact ⟨hh.registered, hh.present, .inr rfl⟩

/-- The flags of the whole table are binary. -/
def TableBinary (w : World) : Prop := ∀ k, (w.status.handset k).Binary

theorem tableBinary_effect (w w' : World) (h : Effect w w') (hw : TableBinary w) :
    TableBinary w' := by
  cases h with
  | entry i x =>
      intro k
      show (w.status.handset.modify i (fun h => x.apply h) k).Binary
      unfold HandsetTable.modify
      split_ifs
      · exact (hw k).apply x
      · exact hw k
  | _ => exact hw

theorem tableBinary_run (config : Config) :
    ∀ es w, run step (initial config) es = some w → TableBinary w := by
  refine run_induction (fun _ => ⟨.inr rfl, .inr rfl, .inr rfl⟩) ?_
  intro _ w e w' _ hw he
  exact invariant_step tableBinary_effect (fun _ hv => hv) hw he

/-! ## What a reply tells -/

/-- A flag that tells whether `P` holds. -/
def Shows (b : UInt8) (P : Prop) : Prop := b = true8 ∧ P ∨ b = false8 ∧ ¬ P

theorem shows_of_iff {b : UInt8} {P : Prop} (hb : b = true8 ∨ b = false8)
    (h : b = true8 ↔ P) : Shows b P := by
  rcases hb with rfl | rfl
  · exact .inl ⟨rfl, h.mp rfl⟩
  · exact .inr ⟨rfl, fun hP => absurd (h.mpr hP) (by decide)⟩

/-- What a status says about the events that were processed before it was sent. -/
structure Tells (config : Config) (es : List Event) (s : Status) : Prop where
  /-- it is the status of that moment -/
  current : ∃ w, run step (initial config) es = some w ∧ w.status = s
  /-- listed by the stack since it was last deleted -/
  registered : ∀ k : Fin maxNrHandsets, Shows (s.handset k).registered
    (Since (Marks (k.val + 1)) (Deletes (k.val + 1)) es)
  /-- present since it was last deleted -/
  present : ∀ k : Fin maxNrHandsets, Shows (s.handset k).present
    (Since (Appears (k.val + 1)) (Deletes (k.val + 1)) es)
  /-- pinged since it last answered or a ping of it timed out -/
  pinging : ∀ k : Fin maxNrHandsets, Shows (s.handset k).pinging
    (SinceAt (Rings config (k.val + 1)) (Silences (k.val + 1)) es)
  /-- the last identity delivered, and zeros as long as there is none -/
  ipui : ∀ (k : Fin maxNrHandsets) (ipui : Fin 5 → UInt8), ipui ≠ 0 →
    ((s.handset k).ipui = ipui ↔
      Since (Delivers (k.val + 1) ipui) (DeliversAny (k.val + 1)) es)

/-- The status tells the history of its run. -/
theorem tells_status {config : Config} {es : List Event} {w : World}
    (hrun : run step (initial config) es = some w) : Tells config es w.status := by
  have hbinary := tableBinary_run config es w hrun
  refine ⟨⟨w, hrun, rfl⟩, fun k => ?_, fun k => ?_, fun k => ?_, fun k ipui hne => ?_⟩
  · exact shows_of_iff (hbinary k).registered (isRegistered_iff_since config k es w hrun)
  · exact shows_of_iff (hbinary k).present (present_iff_since config k es w hrun)
  · exact shows_of_iff (hbinary k).pinging (pinging_iff_since config k es w hrun)
  · exact ipui_iff_since config k hne es w hrun

/-- After a run, each reply is matched with the question that it answers. -/
theorem tells_replies (config : Config) :
    ∀ es w, run step (initial config) es = some w →
      List.Forall₂ (Tells config) (questions es) (replies w) := by
  refine run_induction .nil ?_
  intro es w e w' hrun hes he
  rw [questions_concat, replies_step he]
  refine List.rel_append hes ?_
  split_ifs
  · exact .cons (tells_status hrun) .nil
  · exact .nil

/-- **The replies tell the history.**  Throughout every run the replies sent so far answer the
status requests processed so far, one reply for each and in their order; and each of them tells
what had been processed before its request. -/
theorem replies_tell_history (config : Config) (es : List Event) :
    Throughout step (fun es w => List.Forall₂ (Tells config) (questions es) (replies w))
      (initial config) es :=
  throughout_of_run (tells_replies config) es

end DectManager
