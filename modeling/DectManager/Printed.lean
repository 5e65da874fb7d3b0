/-
# What the user is shown

`dect -s` prints the reply to its request.  The text has a line for each entry of
the table, and an entry that is not registered has nothing but its number.

* `statusPacket_eq_iff`: two texts are the same exactly when the mode, the
  radio and the registered entries are.
* `printed_alike_iff`: two users see the same exactly when the histories of their
  managers agree about the mode, the radio, which handsets have been listed since
  they were last deleted, and about the presence, the pings and the identities of
  these.
-/
import DectManager.Replies
import DectManager.StatusWire
import DectManager.TextParts

namespace DectManager

open PartialRun TextParts

/-! ## One entry -/

/-- The text of an identity tells its bytes. -/
theorem ipuiText_inj {ipui ipui' : Fin 5 → UInt8} (h : ipuiText ipui = ipuiText ipui') :
    ipui = ipui' := by
  have hdigit : ∀ m < 16, ∀ n < 16, Nat.digitChar m = Nat.digitChar n → m = n := by decide
  unfold ipuiText at h
  rw [List.ofFn_eq_map, List.ofFn_eq_map, List.flatMap_map, List.flatMap_map] at h
  have hparts := (flatMap_eq_flatMap_iff (by intros; rfl)).mp h
  funext i
  obtain ⟨hhigh, htail⟩ := List.cons.inj (hparts i (List.mem_finRange i))
  exact byte_inj hdigit hhigh (List.cons.inj htail).1

/-- Two entries are shown alike. -/
structure Hset.ShownAlike (h h' : Hset) : Prop where
  registered : h.registered = true8 ↔ h'.registered = true8
  shown : h.registered = true8 → h.ipui = h'.ipui ∧ (h.present = true8 ↔ h'.present = true8) ∧
    (h.pinging = true8 ↔ h'.pinging = true8)

/-- A line about a registered entry is none about an entry that is not registered. -/
theorem hsetLine_registered_of_eq {handset : ℕ} {h h' : Hset}
    (heq : hsetLine handset h = hsetLine handset h') (hreg : h.registered = true8) :
    h'.registered = true8 := by
  by_contra hnot
  unfold hsetLine at heq
  rw [if_pos hreg, if_neg hnot] at heq
  -- the texts differ in their second letter
  have hrest := List.append_cancel_left (List.append_cancel_right heq)
  have hyes : "\tregistered\t".toList = '\t' :: 'r' :: "egistered\t".toList := by decide
  have hno : "\tnot registered".toList = '\t' :: 'n' :: "ot registered".toList := by decide
  rw [hyes, hno] at hrest
  have hletter := (List.cons.inj (List.cons.inj hrest).2).1
  exact absurd hletter (by decide)

/-- **Lines about an entry** are the same exactly when it is shown alike. -/
theorem hsetLine_eq_iff {handset : ℕ} {h h' : Hset} :
    hsetLine handset h = hsetLine handset h' ↔ h.ShownAlike h' := by
  constructor
  · intro heq
    refine ⟨⟨hsetLine_registered_of_eq heq, hsetLine_registered_of_eq heq.symm⟩, fun hreg => ?_⟩
    obtain ⟨hipui, hflags⟩ := hsetLine_inj hreg (hsetLine_registered_of_eq heq hreg) heq
    exact ⟨ipuiText_inj hipui, hflags⟩
  · rintro ⟨hreg, hshown⟩
    by_cases h1 : h.registered = true8
    · obtain ⟨hipui, hpresent, hpinging⟩ := hshown h1
      unfold hsetLine
      simp only [h1, hreg.mp h1, hipui, hpresent, hpinging]
    · have h2 : ¬ h'.registered = true8 := fun h' => h1 (hreg.mpr h')
      unfold hsetLine
      simp only [h1, h2, if_false]

/-- A line ends in its only newline. -/
theorem isLine_hsetLine (k : Fin maxNrHandsets) (h : Hset) :
    IsLine '\n' (hsetLine (k.val + 1) h) := by
  have hnumber : ∀ k : Fin maxNrHandsets, '\n' ∉ (Nat.toDigits 10 (k.val + 1)).leftpad 2 ' ' := by
    decide
  have hdigit : ∀ n < 16, '\n' ≠ Nat.digitChar n := by decide
  have hipui : '\n' ∉ ipuiText h.ipui := by
    intro hmem
    obtain ⟨b, -, hb⟩ := List.mem_flatMap.mp hmem
    have hlt := b.toNat_lt
    simp only [List.mem_cons, List.not_mem_nil, or_false] at hb
    rcases hb with hb | hb | hb
    · exact hdigit _ (by omega) hb
    · exact hdigit _ (by omega) hb
    · exact absurd hb (by decide)
  refine ⟨_, ?_, rfl⟩
  simp only [List.mem_append, not_or]
  refine ⟨⟨by decide, hnumber k⟩, ?_⟩
  split_ifs <;> simp [hipui]

/-! ## The whole text -/

/-- What `status_packet` prints behind the lines about the table. -/
def modeText (regMode radio : UInt8) : List Char :=
  ['\n'] ++
    ((if regMode = RegState.enabled.value then "reg_state: ENABLED\n".toList else []) ++
    ((if regMode = RegState.disabled.value then "reg_state: DISABLED\n".toList else []) ++
    ((if radio = RegState.enabled.value then "radio: ENABLED\n".toList else []) ++
    ((if radio = RegState.auto.value then "radio: AUTO\n".toList else []) ++
    (if radio = RegState.disabled.value then "radio: DISABLED\n".toList else [])))))

theorem statusPacket_append (p : StatusPacket) :
    statusPacket p = (hsetLines p).flatten ++ modeText p.regMode p.radio := by
  unfold statusPacket modeText
  simp only [List.append_assoc]

/-- The manager's modes are told apart. -/
theorem modeText_inj {s s' : Status}
    (h : modeText s.regMode.value s.radio.value = modeText s'.regMode.value s'.radio.value) :
    s.regMode = s'.regMode ∧ s.radio = s'.radio := by
  have hall : ∀ m ∈ [RegState.disabled, .delayedStart, .enabled],
      ∀ m' ∈ [RegState.disabled, .delayedStart, .enabled], ∀ r ∈ [RegState.disabled, .enabled],
      ∀ r' ∈ [RegState.disabled, .enabled],
        modeText m.value r.value = modeText m'.value r'.value → m = m' ∧ r = r' := by
    decide
  have hmode (s : Status) : s.regMode ∈ [RegState.disabled, .delayedStart, .enabled] := by
    have hne := s.regMode_ne_auto
    cases hm : s.regMode <;> simp_all
  have hradio (s : Status) : s.radio ∈ [RegState.disabled, .enabled] := by
    rcases s.radio_binary with hr | hr <;> simp [hr]
  exact hall _ (hmode s) _ (hmode s') _ (hradio s) _ (hradio s') h

/-- **Two texts** are the same exactly when the mode, the radio and what is shown of each entry
are. -/
theorem statusPacket_eq_iff (s s' : Status) :
    statusPacket s.packet = statusPacket s'.packet ↔
      s.regMode = s'.regMode ∧ s.radio = s'.radio ∧
        ∀ k, (s.handset k).ShownAlike (s'.handset k) := by
  have hlines (s : Status) : ∀ l ∈ hsetLines s.packet, IsLine '\n' l := by
    intro l hl
    obtain ⟨i, hi, rfl⟩ := List.mem_map.mp hl
    exact isLine_hsetLine ⟨i, List.mem_range.mp hi⟩ _
  have hlen (s : Status) : (hsetLines s.packet).length = maxNrHandsets := by
    rw [hsetLines, List.length_map, List.length_range]
  rw [statusPacket_append, statusPacket_append]
  constructor
  · intro h
    obtain ⟨htable, hmodes⟩ := flatten_lines_inj (hlines s) (hlines s')
      ((hlen s).trans (hlen s').symm) h
    obtain ⟨hmode, hradio⟩ := modeText_inj hmodes
    refine ⟨hmode, hradio, fun k => (@hsetLine_eq_iff (k.val + 1) _ _).mp ?_⟩
    have hline := congrArg (fun ls : List (List Char) => ls[k.val]?) htable
    simp only [hsetLines_getElem?, Option.some.injEq] at hline
    exact hline
  · rintro ⟨hmode, hradio, htable⟩
    have hsame : hsetLines s.packet = hsetLines s'.packet := by
      refine List.map_congr_left fun i hi => ?_
      obtain ⟨k, rfl⟩ : ∃ k : Fin maxNrHandsets, k.val = i := ⟨⟨i, List.mem_range.mp hi⟩, rfl⟩
      rw [HandsetTable.read_val, HandsetTable.read_val]
      exact hsetLine_eq_iff.mpr (htable k)
    rw [hsame]
    show _ ++ modeText s.regMode.value s.radio.value = _ ++ modeText s'.regMode.value s'.radio.value
    rw [hmode, hradio]

/-! ## Two users -/

/-- Two histories say the same about a handset: either it is listed in neither, or in both, and
then they agree about its presence, its pings and its identity. -/
structure AlikeAbout (config config' : Config) (id : ℕ) (es es' : List Event) : Prop where
  listed : Since (Marks id) (Deletes id) es ↔ Since (Marks id) (Deletes id) es'
  shown : Since (Marks id) (Deletes id) es →
    (∀ ipui, ipui ≠ 0 →
        (Since (Delivers id ipui) (DeliversAny id) es ↔
          Since (Delivers id ipui) (DeliversAny id) es')) ∧
      (Since (Appears id) (Deletes id) es ↔ Since (Appears id) (Deletes id) es') ∧
      (SinceAt (Rings config id) (Silences id) es ↔ SinceAt (Rings config' id) (Silences id) es')

/-- Two values are the same if no other value than zero tells them apart. -/
theorem eq_iff_of_ne_zero {α : Type*} [Zero α] {a b : α} :
    a = b ↔ ∀ c, c ≠ 0 → (a = c ↔ b = c) := by
  constructor
  · rintro rfl c -
    exact Iff.rfl
  · intro h
    by_cases ha : a = 0
    · by_contra hne
      have hb : b ≠ 0 := fun hb => hne (ha.trans hb.symm)
      exact hne ((h b hb).mpr rfl)
    · exact ((h a ha).mp rfl).symm

/-- **Two users see the same** exactly when the histories of their managers say the same: of any
two runs with any configurations, if each client has received the fields of the reply. -/
theorem printed_alike_iff {config config' : Config} {es es' : List Event} {w w' : World}
    (hrun : run step (initial config) es = some w)
    (hrun' : run step (initial config') es' = some w') {r r' : Receipt}
    (hr : endofStatus ≤ r.count.val) (hr' : endofStatus ≤ r'.count.val) (rest rest' : List UInt8) :
    statusPacket (getReply r (w.status.bytes ++ rest)).1 =
        statusPacket (getReply r' (w'.status.bytes ++ rest')).1 ↔
      w.status.regMode = w'.status.regMode ∧ w.status.radio = w'.status.radio ∧
        ∀ k : Fin maxNrHandsets, AlikeAbout config config' (k.val + 1) es es' := by
  have hread : (getReply r (w.status.bytes ++ rest)).1 = w.status.packet :=
    readStatus_received r.heap w.status rest hr
  have hread' : (getReply r' (w'.status.bytes ++ rest')).1 = w'.status.packet :=
    readStatus_received r'.heap w'.status rest' hr'
  rw [hread, hread', statusPacket_eq_iff]
  refine and_congr_right fun _ => and_congr_right fun _ => forall_congr' fun k => ?_
  -- each flag and each identity stands for what has happened
  have hregistered := isRegistered_iff_since config k es w hrun
  have hregistered' := isRegistered_iff_since config' k es' w' hrun'
  have hidentity : (w.status.handset k).ipui = (w'.status.handset k).ipui ↔
      ∀ ipui, ipui ≠ 0 → (Since (Delivers (k.val + 1) ipui) (DeliversAny (k.val + 1)) es ↔
        Since (Delivers (k.val + 1) ipui) (DeliversAny (k.val + 1)) es') := by
    rw [eq_iff_of_ne_zero]
    refine forall_congr' fun ipui => forall_congr' fun hne => ?_
    rw [ipui_iff_since config k hne es w hrun, ipui_iff_since config' k hne es' w' hrun']
  constructor
  · rintro ⟨hreg, hshown⟩
    refine ⟨hregistered.symm.trans (hreg.trans hregistered'), fun hsince => ?_⟩
    obtain ⟨hipui, hpresent, hpinging⟩ := hshown (hregistered.mpr hsince)
    rw [present_iff_since config k es w hrun, present_iff_since config' k es' w' hrun'] at hpresent
    rw [pinging_iff_since config k es w hrun, pinging_iff_since config' k es' w' hrun'] at hpinging
    exact ⟨hidentity.mp hipui, hpresent, hpinging⟩
  · rintro ⟨hlisted, hshown⟩
    refine ⟨hregistered.trans (hlisted.trans hregistered'.symm), fun hreg => ?_⟩
    obtain ⟨hipui, hpresent, hpinging⟩ := hshown (hregistered.mp hreg)
    rw [present_iff_since config k es w hrun, present_iff_since config' k es' w' hrun',
      pinging_iff_since config k es w hrun, pinging_iff_since config' k es' w' hrun']
    exact ⟨hidentity.mpr hipui, hpresent, hpinging⟩

/-- A reply that has come in whole. -/
def wholeReceipt : Receipt := ⟨⟨sizeofStatus, by decide⟩, fun _ => 0⟩

/-- A user sees whether handset 3 has been listed. -/
theorem listed_handset_seen :
    ∃ w w', run step (initial ⟨.auto, by decide⟩) [] = some w ∧
      run step (initial ⟨.auto, by decide⟩) [countCfm [3]] = some w' ∧
      statusPacket (getReply wholeReceipt (w.status.bytes ++ [])).1 ≠
        statusPacket (getReply wholeReceipt (w'.status.bytes ++ [])).1 := by
  obtain ⟨w, hw⟩ : ∃ w, run step (initial ⟨.auto, by decide⟩) [] = some w := ⟨_, rfl⟩
  obtain ⟨w', hw'⟩ : ∃ w', run step (initial ⟨.auto, by decide⟩) [countCfm [3]] = some w' :=
    ⟨_, rfl⟩
  refine ⟨w, w', hw, hw', fun h => ?_⟩
  obtain ⟨-, -, halike⟩ := (printed_alike_iff hw hw' (by decide) (by decide) [] []).mp h
  have hlisted : Since (Marks 3) (Deletes 3) [countCfm [3]] :=
    ⟨[], _, [], rfl, ⟨rfl, by decide⟩, List.forall_mem_nil _⟩
  exact not_since_nil _ _ ((halike ⟨2, by decide⟩).listed.mpr hlisted)

end DectManager
