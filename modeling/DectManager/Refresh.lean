/-
# A handset refresh

The stack lists the registered handsets in one confirmation, but the manager asks
for their IPUIs one after the other: each answer decides from the handset table
whether there is a next request.  A refresh should ask for the IPUI of every
handset listed once, for no other, and call `perhaps_disable_protocol` at its
end.

* `ChainFrom` describes the requests that follow a first one: they go up by one,
  as long as the next entry of the table is marked as registered.
* `exists_refresh`: whatever the prior state and the list, the chain ends.
* `refresh_fetches_each_iff`: a refresh is as it should be exactly when the ids
  listed are consecutive, start with the first one listed and end before an entry
  that is not marked, or when the list is empty and its first entry is zero.
-/
import DectManager.Registry
import DectManager.Requests

namespace DectManager

open PartialRun

/-! ## The steps of a refresh -/

/-- What a refresh does: the requests of `get_handset_ipui` and the calls of
`perhaps_disable_protocol`. -/
inductive FetchStep
  | ipui (terminalId : ℕ)
  | finished
  deriving DecidableEq, Repr

/-- The step of a refresh that an action is. -/
def Action.fetchStep? : Action → Option FetchStep
  | .writeDect (.getHandsetIpuiReq terminalId) => some (.ipui terminalId)
  | .perhapsDisableProtocol => some .finished
  | _ => none

/-- The steps so far, newest first. -/
def fetchSteps (w : World) : List FetchStep := w.log.filterMap Action.fetchStep?

/-- The steps between two states, in their order. -/
def newFetchSteps (w w' : World) : List FetchStep :=
  ((fetchSteps w').take ((fetchSteps w').length - (fetchSteps w).length)).reverse

theorem newFetchSteps_eq {w w' : World} {l : List FetchStep}
    (h : fetchSteps w' = l ++ fetchSteps w) : newFetchSteps w w' = l.reverse := by
  rw [newFetchSteps, h, List.length_append, Nat.add_sub_cancel, List.take_left' rfl]

@[simp] theorem fetchSteps_setHandset (t : HandsetTable) (w : World) :
    fetchSteps (w.setHandset t) = fetchSteps w := rfl

theorem fetchSteps_ignoresRadio : IgnoresRadio fetchSteps :=
  ⟨fun _ _ => rfl, fun _ => rfl, fun _ => rfl, fun _ _ _ => rfl⟩

@[simp] theorem fetchSteps_getHandsetIpui (handset : ℕ) (w : World) :
    fetchSteps (getHandsetIpui handset w) = .ipui handset :: fetchSteps w := rfl

@[simp] theorem fetchSteps_perhapsDisableProtocol (w : World) :
    fetchSteps (perhapsDisableProtocol w) = .finished :: fetchSteps w :=
  fetchSteps_ignoresRadio.perhapsDisableProtocol w

/-- The step with which a count confirmation starts, if its list has no bad id. -/
def countStep (m : RegistrationCountCfm) : FetchStep :=
  if m.terminalId 0 > 0 then .ipui (m.terminalId 0) else .finished

theorem countStep_of_pos {m : RegistrationCountCfm} (h : m.terminalId 0 > 0) :
    countStep m = .ipui (m.terminalId 0) := if_pos h

theorem countStep_of_not_pos {m : RegistrationCountCfm} (h : ¬ m.terminalId 0 > 0) :
    countStep m = .finished := if_neg h

/-- The step after an IPUI confirmation: the next request if the next entry of the
table is registered, and no step for a bad id. -/
def ipuiSteps (env : Env) (handset : ℕ) (t : HandsetTable) : List FetchStep :=
  if badHandsetnr handset then []
  else if (t.read env.beyond handset).registered = true8 then [.ipui (handset + 1)]
  else [.finished]

theorem fetchSteps_registrationCountCfm {m : RegistrationCountCfm} (hok : m.status = .success)
    {w : World} (hfin : (markRegistered m.ids w.status.handset).2 = true) :
    fetchSteps (registrationCountCfm m w) = countStep m :: fetchSteps w := by
  rw [registrationCountCfm_eq, if_pos hok, if_pos hfin, countStep]
  split
  · rfl
  · rw [fetchSteps_perhapsDisableProtocol]
    rfl

theorem fetchSteps_handsetIpuiCfm (env : Env) (handset : ℕ) (ipui : Fin 5 → UInt8) (w : World) :
    fetchSteps (handsetIpuiCfm env handset ipui w) =
      ipuiSteps env handset w.status.handset ++ fetchSteps w := by
  have hkeep : ∀ h : Hset, ({ h with ipui } : Hset).registered = h.registered := fun _ => rfl
  simp only [handsetIpuiCfm_eq, ipuiSteps, apply_ite fetchSteps, fetchSteps_setHandset,
    fetchSteps_getHandsetIpui, fetchSteps_perhapsDisableProtocol]
  rw [World.setHandset, read_modify_registered hkeep]
  split
  · rfl
  · split <;> rfl

/-! ## One answer -/

/-- The event answers an IPUI request. -/
def AnswersIpui (s : Dialogue) (e : Event) : Prop :=
  ∃ handset ipui env, e = .mail (.getHandsetIpuiCfm handset ipui) env ∧
    .getHandsetIpuiReq handset ∈ s.unanswered

section Answer

variable {s s' : Dialogue} {handset : ℕ}

/-- Only the one request that is unanswered can be answered. -/
theorem AnswersIpui.eq_of_unanswered {e : Event} (h : AnswersIpui s e)
    (hun : s.unanswered = [.getHandsetIpuiReq handset]) :
    ∃ ipui env, e = .mail (.getHandsetIpuiCfm handset ipui) env := by
  obtain ⟨handset', ipui, env, rfl, hmem⟩ := h
  rw [hun, List.mem_singleton] at hmem
  obtain rfl : handset' = handset := Request.getHandsetIpuiReq.inj hmem
  exact ⟨ipui, env, rfl⟩

theorem AnswersIpui.unanswered_ne_nil {e : Event} (h : AnswersIpui s e) : s.unanswered ≠ [] := by
  obtain ⟨handset, ipui, env, -, hmem⟩ := h
  exact List.ne_nil_of_mem hmem

/-- With nothing unanswered a run of answers is over. -/
theorem eq_nil_of_unanswered {es : List Event} (hun : s.unanswered = [])
    (hans : Along converse (fun _ s e _ => AnswersIpui s e) s es)
    (hrun : run converse s es = some s') : es = [] ∧ s' = s := by
  cases es with
  | nil =>
      obtain rfl : s = s' := by simpa using hrun
      exact ⟨rfl, rfl⟩
  | cons e es =>
      rw [run_cons, Option.bind_eq_some_iff] at hrun
      obtain ⟨t, ht, -⟩ := hrun
      exact absurd hun (along_cons_iff.mp hans t ht).1.unanswered_ne_nil

variable {ipui : Fin 5 → UInt8} {env : Env}

theorem fetchSteps_answer
    (h : converse s (.mail (.getHandsetIpuiCfm handset ipui) env) = some s') :
    fetchSteps s'.world =
      ipuiSteps env handset s.world.status.handset ++ fetchSteps s.world := by
  have hstep : tick (handsetIpuiCfm env handset ipui s.world) = s'.world :=
    Option.some.inj (converse_eq_some_iff.mp h).1
  rw [← hstep]
  exact fetchSteps_handsetIpuiCfm env handset ipui s.world

theorem unanswered_answer (hun : s.unanswered = [.getHandsetIpuiReq handset])
    (h : converse s (.mail (.getHandsetIpuiCfm handset ipui) env) = some s') :
    s'.unanswered = ipuiAsks env handset s.world.status.handset := by
  rw [(converse_eq_some_iff.mp h).2, hun, List.eraseP_cons_of_pos (by simp [answers])]
  exact List.append_nil _

/-- An IPUI confirmation leaves the registered flags alone, also where the table
is read past its end. -/
theorem read_registered_answer
    (h : converse s (.mail (.getHandsetIpuiCfm handset ipui) env) = some s') (beyond : Hset)
    (k : ℕ) :
    (s'.world.status.handset.read beyond k).registered =
      (s.world.status.handset.read beyond k).registered := by
  unfold HandsetTable.read
  split
  · exact registered_step (converse_eq_some_iff.mp h).1 id _
  · rfl

/-- **An answer** either ends the chain of requests, with `perhaps_disable_protocol`
if the id is not bad, or leads to the next request. -/
theorem answer_cases (hlow : 1 ≤ handset) (hun : s.unanswered = [.getHandsetIpuiReq handset])
    (h : converse s (.mail (.getHandsetIpuiCfm handset ipui) env) = some s') :
    (s'.unanswered = [] ∧
        fetchSteps s'.world =
          (if handset ≤ maxNrHandsets then [.finished] else []) ++ fetchSteps s.world ∧
        (handset ≤ maxNrHandsets →
          (s.world.status.handset.read env.beyond handset).registered ≠ true8)) ∨
      (s'.unanswered = [.getHandsetIpuiReq (handset + 1)] ∧
        fetchSteps s'.world = .ipui (handset + 1) :: fetchSteps s.world ∧
        (s.world.status.handset.read env.beyond handset).registered = true8 ∧
        handset ≤ maxNrHandsets) := by
  rw [unanswered_answer hun h, fetchSteps_answer h, ipuiAsks, ipuiSteps]
  by_cases hhigh : handset ≤ maxNrHandsets
  · have hgood : badHandsetnr handset = false := badHandsetnr_eq_false_iff.mpr ⟨hlow, hhigh⟩
    by_cases hnext : (s.world.status.handset.read env.beyond handset).registered = true8
    · exact .inr ⟨by simp [hgood, hnext], by simp [hgood, hnext], hnext, hhigh⟩
    · exact .inl ⟨by simp [hnext], by simp [hgood, hhigh, hnext], fun _ => hnext⟩
  · have hbad : badHandsetnr handset = true := by
      rw [← Bool.not_eq_false, badHandsetnr_eq_false_iff]
      exact fun h => hhigh h.2
    exact .inl ⟨by simp [hbad], by simp [hbad, hhigh], fun h => absurd h hhigh⟩

end Answer

/-! ## The chain of requests -/

/-- The answers `es` lead from `s` to `s'` through the requests for the handsets
`h`, `h + 1`, ..., `h + n`, of which the first one has been written in `s`. -/
structure ChainFrom (s : Dialogue) (es : List Event) (s' : Dialogue) (h n : ℕ) : Prop where
  steps : fetchSteps s'.world =
    (if h + n ≤ maxNrHandsets then [.finished] else []) ++
      (((List.range' (h + 1) n).map .ipui).reverse ++ fetchSteps s.world)
  goesOn : ∀ k, h ≤ k → k < h + n → ∃ ipui env, .mail (.getHandsetIpuiCfm k ipui) env ∈ es ∧
    (s.world.status.handset.read env.beyond k).registered = true8
  answered : ∃ ipui env, .mail (.getHandsetIpuiCfm (h + n) ipui) env ∈ es
  stops : h + n ≤ maxNrHandsets → ∀ ipui env, .mail (.getHandsetIpuiCfm (h + n) ipui) env ∈ es →
    (s.world.status.handset.read env.beyond (h + n)).registered ≠ true8

/-- A chain that is over with its first answer. -/
theorem ChainFrom.last {s s' : Dialogue} {h : ℕ} {ipui : Fin 5 → UInt8} {env : Env}
    (hsteps : fetchSteps s'.world =
      (if h ≤ maxNrHandsets then [.finished] else []) ++ fetchSteps s.world)
    (hstop : h ≤ maxNrHandsets → (s.world.status.handset.read env.beyond h).registered ≠ true8) :
    ChainFrom s [.mail (.getHandsetIpuiCfm h ipui) env] s' h 0 where
  steps := hsteps
  goesOn k hlow hhigh := absurd hlow (by omega)
  answered := ⟨ipui, env, List.mem_singleton_self _⟩
  stops hle ipui' env' hmem := by
    obtain ⟨-, rfl⟩ := Event.mail.inj (List.mem_singleton.mp hmem)
    exact hstop hle

/-- An answer that leads to the next request extends the chain from there. -/
theorem ChainFrom.cons {s t s' : Dialogue} {es : List Event} {h n : ℕ} {ipui : Fin 5 → UInt8}
    {env : Env} (hchain : ChainFrom t es s' (h + 1) n)
    (ht : converse s (.mail (.getHandsetIpuiCfm h ipui) env) = some t)
    (hsteps : fetchSteps t.world = .ipui (h + 1) :: fetchSteps s.world)
    (hnext : (s.world.status.handset.read env.beyond h).registered = true8) :
    ChainFrom s (.mail (.getHandsetIpuiCfm h ipui) env :: es) s' h (n + 1) := by
  have hsum : h + 1 + n = h + (n + 1) := by omega
  refine ⟨?_, fun k hlow hhigh => ?_, ?_, fun hle ipui' env' hmem => ?_⟩
  · rw [hchain.steps, hsteps, hsum, List.range'_succ, List.map_cons, List.reverse_cons,
      List.append_assoc, List.singleton_append]
  · rcases Nat.eq_or_lt_of_le hlow with rfl | hlow'
    · exact ⟨ipui, env, List.mem_cons_self, hnext⟩
    · obtain ⟨ipui', env', hmem, hreg⟩ := hchain.goesOn k hlow' (by omega)
      refine ⟨ipui', env', List.mem_cons_of_mem _ hmem, ?_⟩
      rw [← hreg, read_registered_answer ht]
  · obtain ⟨ipui', env', hmem⟩ := hchain.answered
    rw [hsum] at hmem
    exact ⟨ipui', env', List.mem_cons_of_mem _ hmem⟩
  · rcases List.mem_cons.mp hmem with heq | hmem'
    · obtain ⟨hid, -⟩ := Mail.getHandsetIpuiCfm.inj (Event.mail.inj heq).1
      omega
    · rw [← hsum] at hle hmem' ⊢
      rw [← read_registered_answer ht]
      exact hchain.stops hle ipui' env' hmem'

/-- **The chain of requests.**  If the stack answers every request, those that
follow the request for `h` form a chain. -/
theorem exists_chainFrom {s s' : Dialogue} {es : List Event} {h : ℕ} (hlow : 1 ≤ h)
    (hun : s.unanswered = [.getHandsetIpuiReq h])
    (hans : Along converse (fun _ s e _ => AnswersIpui s e) s es)
    (hrun : run converse s es = some s') (hdone : s'.unanswered = []) :
    ∃ n, ChainFrom s es s' h n := by
  induction es generalizing s h with
  | nil =>
      obtain rfl : s = s' := by simpa using hrun
      rw [hun] at hdone
      exact absurd hdone (List.cons_ne_nil _ _)
  | cons e es ih =>
      rw [run_cons, Option.bind_eq_some_iff] at hrun
      obtain ⟨t, ht, hrest⟩ := hrun
      obtain ⟨hfirst, hothers⟩ := along_cons_iff.mp hans t ht
      obtain ⟨ipui, env, rfl⟩ := hfirst.eq_of_unanswered hun
      -- the induction is on the answers; each leads to the next request or to none
      rcases answer_cases hlow hun ht with ⟨hun', hsteps, hstop⟩ | ⟨hun', hsteps, hnext, -⟩
      · obtain ⟨rfl, rfl⟩ := eq_nil_of_unanswered hun' hothers hrest
        exact ⟨0, .last hsteps hstop⟩
      · obtain ⟨n, hchain⟩ := ih (by omega) hun' hothers hrest
        exact ⟨n + 1, hchain.cons ht hsteps hnext⟩

/-- The chain always ends: the stack can answer every request until none is
left. -/
theorem exists_answers {s : Dialogue} {h : ℕ} (hlow : 1 ≤ h)
    (hun : s.unanswered = [.getHandsetIpuiReq h]) :
    ∃ es s', Along converse (fun _ s e _ => AnswersIpui s e) s es ∧
      run converse s es = some s' ∧ s'.unanswered = [] := by
  -- the ids go up, and those beyond the table are bad
  induction hn : maxNrHandsets + 1 - h using Nat.strong_induction_on generalizing s h with
  | _ n ih =>
      obtain ⟨t, ht⟩ : ∃ t, converse s (.mail (.getHandsetIpuiCfm h fun _ => 0) .none) = some t :=
        ⟨_, rfl⟩
      have hanswer : AnswersIpui s (.mail (.getHandsetIpuiCfm h fun _ => 0) .none) :=
        ⟨h, _, _, rfl, by rw [hun]; exact List.mem_singleton_self _⟩
      rcases answer_cases hlow hun ht with ⟨hun', -, -⟩ | ⟨hun', -, -, hhigh⟩
      · exact ⟨[_], t, .cons ht hanswer (along_nil _ _), by rw [run_cons, ht]; rfl, hun'⟩
      · obtain ⟨es, s', hans, hrun, hdone⟩ :=
          ih (maxNrHandsets + 1 - (h + 1)) (by omega) (by omega) hun' rfl
        exact ⟨_ :: es, s', .cons ht hanswer hans, by rw [run_cons, ht]; exact hrun, hdone⟩

/-! ## Refreshes -/

/-- A successful confirmation that lists distinct handsets of the table. -/
structure RegistrationCountCfm.Proper (m : RegistrationCountCfm) : Prop where
  success : m.status = .success
  nodup : m.ids.Nodup
  range : ∀ id ∈ m.ids, 1 ≤ id ∧ id ≤ maxNrHandsets

/-- A refresh of `w`: the stack confirms the count, which leads to `s`, and then
sends nothing but the answers `es` to the IPUI requests, until none is left. -/
structure Refresh (w : World) (m : RegistrationCountCfm) (s : Dialogue) (es : List Event)
    (s' : Dialogue) : Prop where
  count : ∃ env, converse ⟨w, [.getRegistrationCountReq 0]⟩
    (.mail (.getRegistrationCountCfm m) env) = some s
  answers : Along converse (fun _ s e _ => AnswersIpui s e) s es
  run : run converse s es = some s'
  answered : s'.unanswered = []

/-- What a refresh is for: one request for each handset, no other one, and one call
of `perhaps_disable_protocol`, when every request has been answered. -/
structure FetchesEach (ids : List ℕ) (w : World) (s : Dialogue) (es : List Event)
    (s' : Dialogue) : Prop where
  each : ∃ order : List ℕ, order.Perm ids ∧
    newFetchSteps w s'.world = order.map .ipui ++ [.finished]
  last : Throughout converse
    (fun _ t => .finished ∈ newFetchSteps w t.world → t.unanswered = []) s es

/-- The list is empty and its first entry zero, or the ids listed are those from the
first one to some `b`, and the entry read when `b` is confirmed was not marked as
registered.  For the last handset that entry lies behind the table. -/
def Consecutive (w : World) (m : RegistrationCountCfm) (es : List Event) : Prop :=
  (m.terminalIdCount = 0 ∧ m.terminalId 0 = 0) ∨
    (m.terminalIdCount ≠ 0 ∧ ∃ b, (∀ id, id ∈ m.ids ↔ m.terminalId 0 ≤ id ∧ id ≤ b) ∧
      ∀ ipui env, .mail (.getHandsetIpuiCfm b ipui) env ∈ es →
        (w.status.handset.read env.beyond b).registered ≠ true8)

section Refresh

variable {w : World} {m : RegistrationCountCfm} {s s' : Dialogue} {es : List Event}

/-- The count confirmation of a refresh. -/
theorem Refresh.step (h : Refresh w m s es s') :
    s.world = tick (registrationCountCfm m w) ∧
      s.unanswered = countAsks m w.status.handset := by
  obtain ⟨env, hcount⟩ := h.count
  obtain ⟨hstep, hun⟩ := converse_eq_some_iff.mp hcount
  exact ⟨(Option.some.inj hstep).symm, hun.trans (List.append_nil _)⟩

theorem RegistrationCountCfm.Proper.finished (hm : m.Proper) (t : HandsetTable) :
    (markRegistered m.ids t).2 = true :=
  markRegistered_finished_iff.mpr fun id hid => badHandsetnr_eq_false_iff.mpr (hm.range id hid)

/-- The count confirmation writes one step. -/
theorem Refresh.countStep (h : Refresh w m s es s') (hm : m.Proper) :
    fetchSteps s.world = countStep m :: fetchSteps w := by
  rw [h.step.1]
  exact fetchSteps_registrationCountCfm hm.success (hm.finished _)

/-- With a zero first entry there is no request. -/
theorem Refresh.unanswered_of_zero (h : Refresh w m s es s') (hzero : m.terminalId 0 = 0) :
    s.unanswered = [] := by
  rw [h.step.2, countAsks, if_neg fun hc => absurd hc.2.2 (by omega)]

/-- With a positive first entry there is a request for it. -/
theorem Refresh.unanswered_of_pos (h : Refresh w m s es s') (hm : m.Proper)
    (hpos : m.terminalId 0 > 0) : s.unanswered = [.getHandsetIpuiReq (m.terminalId 0)] := by
  rw [h.step.2, countAsks, if_pos ⟨hm.success, hm.finished _, hpos⟩]

/-- Every prior state and every proper list have their refresh. -/
theorem exists_refresh (w : World) (hm : m.Proper) : ∃ s es s', Refresh w m s es s' := by
  obtain ⟨s, hs⟩ : ∃ s, converse ⟨w, [.getRegistrationCountReq 0]⟩
      (.mail (.getRegistrationCountCfm m) .none) = some s := ⟨_, rfl⟩
  have hun : s.unanswered = countAsks m w.status.handset :=
    (converse_eq_some_iff.mp hs).2.trans (List.append_nil _)
  by_cases hpos : m.terminalId 0 > 0
  · rw [countAsks, if_pos ⟨hm.success, hm.finished _, hpos⟩] at hun
    obtain ⟨es, s', hans, hrun, hdone⟩ := exists_answers hpos hun
    exact ⟨s, es, s', ⟨.none, hs⟩, hans, hrun, hdone⟩
  · rw [countAsks, if_neg fun hc => hpos hc.2.2] at hun
    exact ⟨s, [], s, ⟨.none, hs⟩, along_nil _ _, rfl, hun⟩

/-- The marks that the answers are judged by. -/
theorem Refresh.read_registered (h : Refresh w m s es s') (hm : m.Proper) (beyond : Hset) (k : ℕ) :
    (s.world.status.handset.read beyond k).registered =
      if k + 1 ∈ m.ids then true8 else (w.status.handset.read beyond k).registered := by
  have hreg : registry s.world = (registry w).mark m.ids := by
    obtain ⟨env, hcount⟩ := h.count
    rw [registry_step (converse_eq_some_iff.mp hcount).1]
    simp [Registry.observe, Registry.receive, hm.success]
  unfold HandsetTable.read
  by_cases hk : k < maxNrHandsets
  · simp only [dif_pos hk]
    have hgood : ∀ id ∈ m.ids, badHandsetnr id = false :=
      fun id hid => badHandsetnr_eq_false_iff.mpr (hm.range id hid)
    have hmarked := Registry.mark_registered hgood (registry w) ⟨k, hk⟩
    rw [← hreg] at hmarked
    exact hmarked
  · -- behind the table nothing is marked
    have hout : k + 1 ∉ m.ids := fun hid => hk (hm.range _ hid).2
    simp only [dif_neg hk, if_neg hout]

/-- `perhaps_disable_protocol` is called when every request has been answered. -/
theorem Refresh.finished_last (h : Refresh w m s es s') (hm : m.Proper) :
    Throughout converse (fun _ t => .finished ∈ newFetchSteps w t.world → t.unanswered = [])
      s es := by
  intro pre t hpre hrun
  obtain ⟨post, rfl⟩ := hpre
  -- one request is unanswered and nothing is finished, or all is answered
  have hinv : (∃ id l, 1 ≤ id ∧ t.unanswered = [.getHandsetIpuiReq id] ∧ .finished ∉ l ∧
      fetchSteps t.world = l ++ fetchSteps w) ∨ t.unanswered = [] := by
    refine run_induction_along (C := fun _ s e _ => AnswersIpui s e)
      (P := fun _ t => (∃ id l, 1 ≤ id ∧ t.unanswered = [.getHandsetIpuiReq id] ∧ .finished ∉ l ∧
        fetchSteps t.world = l ++ fetchSteps w) ∨ t.unanswered = [])
      ?_ (fun _ u e u' _ hu he hans => ?_) pre t h.answers.of_append hrun
    · by_cases hpos : m.terminalId 0 > 0
      · refine .inl ⟨_, [.ipui (m.terminalId 0)], hpos, h.unanswered_of_pos hm hpos, by simp, ?_⟩
        rw [h.countStep hm, countStep_of_pos hpos]
        rfl
      · exact .inr (h.unanswered_of_zero (by omega))
    · rcases hu with ⟨id, l, hlow, hun, hl, hsteps⟩ | hun
      · obtain ⟨ipui, env, rfl⟩ := hans.eq_of_unanswered hun
        rcases answer_cases hlow hun he with ⟨hun', -, -⟩ | ⟨hun', hsteps', -, -⟩
        · exact .inr hun'
        · refine .inl ⟨id + 1, .ipui (id + 1) :: l, by omega, hun', by simp [hl], ?_⟩
          rw [hsteps', hsteps]
          rfl
      · exact absurd hun hans.unanswered_ne_nil
  intro hfin
  rcases hinv with ⟨id, l, -, -, hl, hsteps⟩ | hun
  · rw [newFetchSteps_eq hsteps, List.mem_reverse] at hfin
    exact absurd hfin hl
  · exact hun

/-- The steps of a refresh with a positive first entry. -/
theorem Refresh.steps_of_chain (h : Refresh w m s es s') (hm : m.Proper)
    (hpos : m.terminalId 0 > 0) {n : ℕ} (hchain : ChainFrom s es s' (m.terminalId 0) n) :
    newFetchSteps w s'.world =
      (List.range' (m.terminalId 0) (n + 1)).map .ipui ++
        if m.terminalId 0 + n ≤ maxNrHandsets then [.finished] else [] := by
  have hsteps : fetchSteps s'.world =
      ((if m.terminalId 0 + n ≤ maxNrHandsets then [FetchStep.finished] else []) ++
        (((List.range' (m.terminalId 0 + 1) n).map FetchStep.ipui).reverse ++
          [FetchStep.ipui (m.terminalId 0)])) ++ fetchSteps w := by
    rw [hchain.steps, h.countStep hm, countStep_of_pos hpos]
    simp only [List.append_assoc, List.singleton_append]
  rw [newFetchSteps_eq hsteps, List.range'_succ]
  split <;> simp

/-- A chain fetches each handset listed exactly when it ends in the table and its
ids are those listed. -/
theorem Refresh.fetchesEach_iff_of_chain (h : Refresh w m s es s') (hm : m.Proper)
    (hpos : m.terminalId 0 > 0) {n : ℕ} (hchain : ChainFrom s es s' (m.terminalId 0) n) :
    FetchesEach m.ids w s es s' ↔
      m.terminalId 0 + n ≤ maxNrHandsets ∧
        ∀ id, id ∈ m.ids ↔ m.terminalId 0 ≤ id ∧ id ≤ m.terminalId 0 + n := by
  have hsteps := h.steps_of_chain hm hpos hchain
  have hinj : Function.Injective FetchStep.ipui := fun _ _ => FetchStep.ipui.inj
  have hmem (id : ℕ) : id ∈ List.range' (m.terminalId 0) (n + 1) ↔
      m.terminalId 0 ≤ id ∧ id ≤ m.terminalId 0 + n := by
    rw [List.mem_range'_1]
    omega
  constructor
  · rintro ⟨⟨order, hperm, htrace⟩, -⟩
    rw [hsteps] at htrace
    by_cases hend : m.terminalId 0 + n ≤ maxNrHandsets
    · rw [if_pos hend] at htrace
      have horder : List.range' (m.terminalId 0) (n + 1) = order :=
        hinj.list_map (List.append_inj' htrace rfl).1
      refine ⟨hend, fun id => ?_⟩
      rw [← hperm.mem_iff, ← horder, hmem]
    · rw [if_neg hend, List.append_nil] at htrace
      have hfin : FetchStep.finished ∈
          (List.range' (m.terminalId 0) (n + 1)).map FetchStep.ipui := by
        rw [htrace]
        exact List.mem_append_right _ (List.mem_singleton_self _)
      obtain ⟨id, -, hid⟩ := List.mem_map.mp hfin
      cases hid
  · rintro ⟨hend, hall⟩
    refine ⟨⟨List.range' (m.terminalId 0) (n + 1), ?_, ?_⟩, h.finished_last hm⟩
    · rw [List.perm_ext_iff_of_nodup List.nodup_range' hm.nodup]
      intro id
      rw [hmem, hall]
    · rw [hsteps, if_pos hend]

/-- A chain stays within the ids listed exactly when these are consecutive and end
before an entry that was not marked. -/
theorem Refresh.consecutive_iff_of_chain (h : Refresh w m s es s') (hm : m.Proper)
    (hcount : m.terminalIdCount ≠ 0) {n : ℕ} (hchain : ChainFrom s es s' (m.terminalId 0) n) :
    Consecutive w m es ↔
      m.terminalId 0 + n ≤ maxNrHandsets ∧
        ∀ id, id ∈ m.ids ↔ m.terminalId 0 ≤ id ∧ id ≤ m.terminalId 0 + n := by
  have hfirst : m.terminalId 0 ∈ m.ids := m.first_mem_ids hcount
  constructor
  · rintro (⟨hzero, -⟩ | ⟨-, b, hall, hstop⟩)
    · exact absurd hzero hcount
    have hle : m.terminalId 0 ≤ b := ((hall _).mp hfirst).2
    have hb : b ≤ maxNrHandsets := (hm.range b ((hall b).mpr ⟨hle, le_refl b⟩)).2
    -- the chain reaches `b`, because the entries before it are marked
    have hreach : b ≤ m.terminalId 0 + n := by
      by_contra hlt
      obtain ⟨ipui, env, hmem⟩ := hchain.answered
      refine hchain.stops (by omega) ipui env hmem ?_
      rw [h.read_registered hm, if_pos ((hall _).mpr ⟨by omega, by omega⟩)]
    -- and does not go on there, because the entry behind it is not
    have hstay : m.terminalId 0 + n ≤ b := by
      by_contra hlt
      obtain ⟨ipui, env, hmem, hreg⟩ := hchain.goesOn b hle (by omega)
      have hout : b + 1 ∉ m.ids := fun hid => absurd ((hall _).mp hid).2 (by omega)
      rw [h.read_registered hm, if_neg hout] at hreg
      exact hstop ipui env hmem hreg
    obtain rfl : b = m.terminalId 0 + n := by omega
    exact ⟨hb, hall⟩
  · rintro ⟨hend, hall⟩
    refine .inr ⟨hcount, _, hall, fun ipui env hmem => ?_⟩
    have hout : m.terminalId 0 + n + 1 ∉ m.ids := fun hid => absurd ((hall _).mp hid).2 (by omega)
    have hstop := hchain.stops hend ipui env hmem
    rwa [h.read_registered hm, if_neg hout] at hstop

end Refresh

/-- **When a refresh fetches each handset.**  A refresh asks once for the IPUI of
every handset listed, for no other, and then calls `perhaps_disable_protocol` once,
exactly when the ids listed are consecutive from the first one on and end before an
entry that was not marked as registered, or when the list is empty and its first
entry zero. -/
theorem refresh_fetches_each_iff (w : World) (m : RegistrationCountCfm) (s : Dialogue)
    (es : List Event) (s' : Dialogue) (hm : m.Proper) (h : Refresh w m s es s') :
    FetchesEach m.ids w s es s' ↔ Consecutive w m es := by
  by_cases hpos : m.terminalId 0 > 0
  · obtain ⟨n, hchain⟩ :=
      exists_chainFrom hpos (h.unanswered_of_pos hm hpos) h.answers h.run h.answered
    rw [h.fetchesEach_iff_of_chain hm hpos hchain]
    by_cases hcount : m.terminalIdCount = 0
    · -- an empty list, but a request for its stale first entry
      have hids : m.ids = [] := by simp [RegistrationCountCfm.ids, hcount]
      refine iff_of_false (fun hall => ?_) ?_
      · have hfirst := (hall.2 (m.terminalId 0)).mpr ⟨le_refl _, by omega⟩
        rw [hids] at hfirst
        exact absurd hfirst List.not_mem_nil
      · rintro (⟨-, hzero⟩ | ⟨hne, -⟩)
        · omega
        · exact hne hcount
    · rw [h.consecutive_iff_of_chain hm hcount hchain]
  · have hzero : m.terminalId 0 = 0 := by omega
    have hcount : m.terminalIdCount = 0 := by
      by_contra hne
      exact hpos (hm.range _ (m.first_mem_ids hne)).1
    have hids : m.ids = [] := by simp [RegistrationCountCfm.ids, hcount]
    refine iff_of_true ⟨⟨[], by rw [hids], ?_⟩, h.finished_last hm⟩ (.inl ⟨hcount, hzero⟩)
    obtain ⟨-, rfl⟩ := eq_nil_of_unanswered (h.unanswered_of_zero hzero) h.answers h.run
    have hsteps : fetchSteps s'.world = [FetchStep.finished] ++ fetchSteps w := by
      rw [h.countStep hm, countStep_of_not_pos hpos]
      rfl
    exact newFetchSteps_eq hsteps

/-- A confirmation that lists two handsets. -/
def countOf (first second : ℕ) : RegistrationCountCfm where
  status := .success
  maxNoHandsets := maxNrHandsets
  terminalIdCount := 2
  terminalId i := if i = 0 then first else second

/-- The answer to the IPUI request for a handset. -/
def ipuiOf (handset : ℕ) : Event := .mail (.getHandsetIpuiCfm handset fun _ => 7) .none

/-- The refresh of a new manager that finds the handsets 1 and 2. -/
theorem consecutive_handsets_fetched : ∃ s s',
    FetchesEach (countOf 1 2).ids (initial ⟨.auto, by decide⟩) s [ipuiOf 1, ipuiOf 2] s' := by
  have hproper : (countOf 1 2).Proper := ⟨rfl, by decide, by decide⟩
  have hrefresh : ∃ s s',
      Refresh (initial ⟨.auto, by decide⟩) (countOf 1 2) s [ipuiOf 1, ipuiOf 2] s' := by
    refine ⟨_, _, ⟨.none, rfl⟩, ?_, rfl, rfl⟩
    exact .cons rfl ⟨1, _, _, rfl, List.mem_cons_self⟩ <|
      .cons rfl ⟨2, _, _, rfl, List.mem_cons_self⟩ <| along_nil _ _
  obtain ⟨s, s', h⟩ := hrefresh
  refine ⟨s, s', (refresh_fetches_each_iff _ _ _ _ _ hproper h).mpr ?_⟩
  refine .inr ⟨by decide, 2, fun id => ?_, fun ipui env hmem => ?_⟩
  · have hids : (countOf 1 2).ids = [1, 2] := rfl
    have hfirst : (countOf 1 2).terminalId 0 = 1 := rfl
    rw [hids, hfirst, List.mem_cons, List.mem_singleton]
    omega
  · show Hset.zero.registered ≠ true8
    decide

/-- In the refresh of a new manager that finds the handsets 1 and 3, the stack
answers every request and handset 3 is never asked for. -/
theorem gap_skips_handset : ∃ s s',
    (countOf 1 3).Proper ∧
      Refresh (initial ⟨.auto, by decide⟩) (countOf 1 3) s [ipuiOf 1] s' ∧
      newFetchSteps (initial ⟨.auto, by decide⟩) s'.world = [.ipui 1, .finished] ∧
      ¬ FetchesEach (countOf 1 3).ids (initial ⟨.auto, by decide⟩) s [ipuiOf 1] s' := by
  refine ⟨_, _, ⟨rfl, by decide, by decide⟩, ⟨⟨.none, rfl⟩, ?_, rfl, rfl⟩, by decide, fun h => ?_⟩
  · exact .cons rfl ⟨1, _, _, rfl, List.mem_cons_self⟩ (along_nil _ _)
  · obtain ⟨order, hperm, htrace⟩ := h.each
    have hlength := congrArg List.length htrace
    rw [List.length_append, List.length_map, hperm.length_eq] at hlength
    revert hlength
    decide

end DectManager
