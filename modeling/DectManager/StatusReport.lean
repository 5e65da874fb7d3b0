/-
# How the client shows the status

`dect` has two renderers for the reply to `GET_STATUS`: `status_packet` prints a
line for each entry of the handset table, `status_packet_json` collects the
registered ones in two arrays, the phones in "handsets" and the others in "ule".
The one has a single loop over the table, the other two, with hand-written
bounds.

* `hsetLine_inj`: a line about a registered entry tells the values that it shows.
* `about_hsetObjects`: what a loop of `status_packet_json` collects about an
  entry, for any bounds.
* `json_agrees_iff`: the arrays agree with the lines exactly when none of the
  last four entries is registered.  The second loop ends `MAX_NR_PHONES` entries
  before the end of the table.
-/
import DectManager.DectHeader

namespace DectManager

/-! ## The packet and the text -/

/-- The value that an enumerator of `enum reg_state` has in a byte. -/
def RegState.value : RegState → UInt8
  | .disabled => 0
  | .delayedStart => 1
  | .enabled => 2
  | .auto => 3

/-- `struct status_packet` as the client receives it, with the fields that it shows. -/
structure StatusPacket where
  regMode : UInt8
  radio : UInt8
  handset : HandsetTable

/-- `%2.2x ` of the five bytes of an identity. -/
def ipuiText (ipui : Fin 5 → UInt8) : List Char :=
  (List.ofFn ipui).flatMap fun b =>
    [Nat.digitChar (b.toNat / 16), Nat.digitChar (b.toNat % 16), ' ']

/-- The line of `status_packet` about an entry. -/
def hsetLine (handset : ℕ) (h : Hset) : List Char :=
  "hset: ".toList ++ (Nat.toDigits 10 handset).leftpad 2 ' ' ++
    (if h.registered = true8 then
      "\tregistered\t".toList ++ ipuiText h.ipui ++
        (if h.present = true8 then "\tpresent".toList else "\tnot present".toList) ++
        (if h.pinging = true8 then "\tpinging".toList else "\tnot pinging".toList)
    else "\tnot registered".toList) ++
    ['\n']

/-- The lines about the table. -/
def hsetLines (p : StatusPacket) : List (List Char) :=
  (List.range maxNrHandsets).map fun i => hsetLine (i + 1) (p.handset.read .zero i)

/-- What `status_packet` prints. -/
def statusPacket (p : StatusPacket) : List Char :=
  (hsetLines p).flatten ++ ['\n'] ++
    (if p.regMode = RegState.enabled.value then "reg_state: ENABLED\n".toList else []) ++
    (if p.regMode = RegState.disabled.value then "reg_state: DISABLED\n".toList else []) ++
    (if p.radio = RegState.enabled.value then "radio: ENABLED\n".toList else []) ++
    (if p.radio = RegState.auto.value then "radio: AUTO\n".toList else []) ++
    (if p.radio = RegState.disabled.value then "radio: DISABLED\n".toList else [])

/-- The lines about the table come first. -/
theorem hsetLines_prefix (p : StatusPacket) : (hsetLines p).flatten <+: statusPacket p := by
  unfold statusPacket
  simp only [List.append_assoc]
  exact List.prefix_append _ _

/-! ## The JSON object -/

/-- The objects of the JSON library that the client builds. -/
inductive Json
  | boolean (b : Bool)
  | int (n : ℤ)
  | string (s : List Char)
  | array (items : List Json)
  | object (fields : List (String × Json))

namespace Json

/-- A field of an object. -/
def get? (key : String) : Json → Option Json
  | .object fields => fields.lookup key
  | _ => none

/-- The items of an array. -/
def items : Json → List Json
  | .array items => items
  | _ => []

/-- The number that an object about an entry carries. -/
def handset? (o : Json) : Option ℤ :=
  match o.get? "handset" with
  | some (.int n) => some n
  | _ => none

end Json

/-- The object about an entry. -/
def hsetObject (handset : ℕ) (h : Hset) : Json :=
  .object
    [("handset", .int handset),
      ("rfpi", .string (ipuiText h.ipui)),
      ("present", .boolean (decide (h.present = true8))),
      ("pinging", .boolean (decide (h.pinging = true8)))]

/-- A loop of `status_packet_json`: the registered entries with an index from `first`
up to, but not including, `last`. -/
def hsetObjects (t : HandsetTable) (first last : ℕ) : List Json :=
  (List.range' first (last - first)).filterMap fun i =>
    if (t.read .zero i).registered = true8 then some (hsetObject (i + 1) (t.read .zero i))
    else none

/-- What `status_packet_json` builds and prints. -/
def statusPacketJson (p : StatusPacket) : Json :=
  .object
    [("reg_active", .boolean (decide (p.regMode = RegState.enabled.value))),
      ("radio_active", .boolean (decide (p.radio = RegState.enabled.value))),
      ("handsets", .array (hsetObjects p.handset 0 maxNrPhones)),
      ("ule", .array (hsetObjects p.handset maxNrPhones (maxNrHandsets - maxNrPhones)))]

/-- An array of the output. -/
def jsonArray (key : String) (p : StatusPacket) : List Json :=
  ((statusPacketJson p).get? key).elim [] Json.items

theorem jsonArray_handsets (p : StatusPacket) :
    jsonArray "handsets" p = hsetObjects p.handset 0 maxNrPhones := rfl

theorem jsonArray_ule (p : StatusPacket) :
    jsonArray "ule" p = hsetObjects p.handset maxNrPhones (maxNrHandsets - maxNrPhones) := rfl

/-! ## What an array says about an entry -/

/-- The objects about the entry `k`. -/
def about (k : Fin maxNrHandsets) (objects : List Json) : List Json :=
  objects.filter fun o => o.handset? = some (k.val + 1 : ℤ)

/-- Of a list without repetitions, the value at one place. -/
theorem filterMap_ite_eq {α β : Type*} [DecidableEq α] {l : List α} (hl : l.Nodup) (a : α)
    (g : α → Option β) :
    l.filterMap (fun x => if x = a then g x else none) = if a ∈ l then (g a).toList else [] := by
  induction l with
  | nil => rfl
  | cons x l ih =>
      obtain ⟨hx, hl⟩ := List.nodup_cons.mp hl
      by_cases hxa : x = a
      · subst hxa
        have htail : l.filterMap (fun y => if y = x then g y else none) = [] := by
          rw [ih hl, if_neg hx]
        cases hg : g x <;> simp [htail, hg]
      · have hax : ¬ a = x := fun h => hxa h.symm
        simp [hxa, hax, ih hl]

/-- **One loop** collects one object about a registered entry between its bounds, and
nothing about any other entry. -/
theorem about_hsetObjects (t : HandsetTable) {first last : ℕ} (k : Fin maxNrHandsets) :
    about k (hsetObjects t first last) =
      if (first ≤ k.val ∧ k.val < last) ∧ (t k).registered = true8 then
        [hsetObject (k.val + 1) (t k)]
      else [] := by
  have hnumber (i : ℕ) (h : Hset) : (hsetObject (i + 1) h).handset? = some (k.val + 1 : ℤ) ↔
      i = k.val := by
    show some (((i + 1 : ℕ)) : ℤ) = some (k.val + 1 : ℤ) ↔ i = k.val
    rw [Option.some.injEq]
    omega
  -- the object about the entry comes from the index of the entry
  have hfilter : about k (hsetObjects t first last) =
      (List.range' first (last - first)).filterMap fun i =>
        if i = k.val then
          if (t.read .zero i).registered = true8 then some (hsetObject (i + 1) (t.read .zero i))
          else none
        else none := by
    unfold about hsetObjects
    rw [List.filter_filterMap]
    refine List.filterMap_congr fun i _ => ?_
    by_cases hreg : (t.read .zero i).registered = true8
    · simp [hreg, Option.filter, hnumber]
    · simp [hreg]
  have hrange : k.val ∈ List.range' first (last - first) ↔ first ≤ k.val ∧ k.val < last := by
    rw [List.mem_range'_1]
    omega
  rw [hfilter, filterMap_ite_eq List.nodup_range', HandsetTable.read_val]
  simp only [hrange]
  by_cases hin : first ≤ k.val ∧ k.val < last
  · by_cases hreg : (t k).registered = true8 <;> simp [hin, hreg]
  · simp [hin]

/-- Every object is about an entry. -/
theorem exists_about {t : HandsetTable} {first last : ℕ} (hlast : last ≤ maxNrHandsets)
    {o : Json} (ho : o ∈ hsetObjects t first last) :
    ∃ k : Fin maxNrHandsets, (t k).registered = true8 ∧ o = hsetObject (k.val + 1) (t k) := by
  obtain ⟨i, hi, hobj⟩ := List.mem_filterMap.mp ho
  rw [List.mem_range'_1] at hi
  obtain ⟨k, rfl⟩ : ∃ k : Fin maxNrHandsets, k.val = i := ⟨⟨i, by omega⟩, rfl⟩
  rw [HandsetTable.read_val, Option.ite_none_right_eq_some] at hobj
  exact ⟨k, hobj.1, (Option.some.inj hobj.2).symm⟩

/-! ## The arrays and the lines -/

/-- The line of `status_packet` that shows these values. -/
def registeredLine (handset : ℕ) (rfpi : List Char) (present pinging : Bool) : List Char :=
  "hset: ".toList ++ (Nat.toDigits 10 handset).leftpad 2 ' ' ++
    ("\tregistered\t".toList ++ rfpi ++
      (if present then "\tpresent".toList else "\tnot present".toList) ++
      (if pinging then "\tpinging".toList else "\tnot pinging".toList)) ++
    ['\n']

/-- The object that shows these values. -/
def registeredObject (handset : ℕ) (rfpi : List Char) (present pinging : Bool) : Json :=
  .object
    [("handset", .int handset), ("rfpi", .string rfpi), ("present", .boolean present),
      ("pinging", .boolean pinging)]

/-- **A line shows one choice of values**: with identities of the same length, lines about
a handset that are the same show the same. -/
theorem registeredLine_inj {handset : ℕ} {rfpi rfpi' : List Char}
    {present present' pinging pinging' : Bool} (hlen : rfpi.length = rfpi'.length)
    (h : registeredLine handset rfpi present pinging =
      registeredLine handset rfpi' present' pinging') :
    rfpi = rfpi' ∧ present = present' ∧ pinging = pinging' := by
  have hflags : ∀ a a' b b' : Bool,
      (if a then "\tpresent".toList else "\tnot present".toList) ++
          (if b then "\tpinging".toList else "\tnot pinging".toList) =
        (if a' then "\tpresent".toList else "\tnot present".toList) ++
          (if b' then "\tpinging".toList else "\tnot pinging".toList) → a = a' ∧ b = b' := by
    decide
  have hline := List.append_cancel_left (List.append_cancel_right h)
  rw [List.append_assoc, List.append_assoc, List.append_assoc, List.append_assoc] at hline
  obtain ⟨hrfpi, hrest⟩ := List.append_inj (List.append_cancel_left hline) hlen
  exact ⟨hrfpi, hflags present present' pinging pinging' hrest⟩

/-- A registered entry is shown with the values that both renderers read from it. -/
theorem hsetLine_of_registered {handset : ℕ} {h : Hset} (hreg : h.registered = true8) :
    hsetLine handset h =
      registeredLine handset (ipuiText h.ipui) (decide (h.present = true8))
        (decide (h.pinging = true8)) := by
  unfold hsetLine registeredLine
  simp only [hreg, if_true, decide_eq_true_eq]

/-- An identity is shown in 15 characters. -/
theorem length_ipuiText (ipui : Fin 5 → UInt8) : (ipuiText ipui).length = 15 := by
  rw [ipuiText, List.length_flatMap]
  simp

/-- **Entries whose lines are the same** show the same values. -/
theorem hsetLine_inj {handset : ℕ} {h h' : Hset} (hreg : h.registered = true8)
    (hreg' : h'.registered = true8) (heq : hsetLine handset h = hsetLine handset h') :
    ipuiText h.ipui = ipuiText h'.ipui ∧ (h.present = true8 ↔ h'.present = true8) ∧
      (h.pinging = true8 ↔ h'.pinging = true8) := by
  have hlen : (ipuiText h.ipui).length = (ipuiText h'.ipui).length := by
    rw [length_ipuiText, length_ipuiText]
  rw [hsetLine_of_registered hreg, hsetLine_of_registered hreg'] at heq
  obtain ⟨hrfpi, hpresent, hpinging⟩ := registeredLine_inj hlen heq
  exact ⟨hrfpi, decide_eq_decide.mp hpresent, decide_eq_decide.mp hpinging⟩

/-- The line about an entry. -/
theorem hsetLines_getElem? (p : StatusPacket) (k : Fin maxNrHandsets) :
    (hsetLines p)[k.val]? = some (hsetLine (k.val + 1) (p.handset k)) := by
  have hindex : (List.range maxNrHandsets)[k.val]? = some k.val := List.getElem?_range k.isLt
  rw [hsetLines, List.getElem?_map, hindex, Option.map_some, HandsetTable.read_val]

/-- The array in which an entry belongs, and the other one. -/
def ownArray (k : Fin maxNrHandsets) : String :=
  if k.val + 1 ≤ maxNrPhones then "handsets" else "ule"

def otherArray (k : Fin maxNrHandsets) : String :=
  if k.val + 1 ≤ maxNrPhones then "ule" else "handsets"

/-- **Its own array** has a registered entry, unless it is one of the last. -/
theorem about_ownArray (p : StatusPacket) (k : Fin maxNrHandsets) :
    about k (jsonArray (ownArray k) p) =
      if k.val < maxNrHandsets - maxNrPhones ∧ (p.handset k).registered = true8 then
        [hsetObject (k.val + 1) (p.handset k)]
      else [] := by
  unfold ownArray
  split_ifs with hphone hentry hentry
  · rw [jsonArray_handsets, about_hsetObjects, if_pos ⟨⟨Nat.zero_le _, hphone⟩, hentry.2⟩]
  · -- the phones come before the end of the second loop
    have hk : k.val < maxNrHandsets - maxNrPhones := by
      unfold maxNrHandsets maxNrPhones at *
      omega
    rw [jsonArray_handsets, about_hsetObjects, if_neg fun h => hentry ⟨hk, h.2⟩]
  · have hk : maxNrPhones ≤ k.val := by omega
    rw [jsonArray_ule, about_hsetObjects, if_pos ⟨⟨hk, hentry.1⟩, hentry.2⟩]
  · rw [jsonArray_ule, about_hsetObjects, if_neg fun h => hentry ⟨h.1.2, h.2⟩]

/-- **The other array** has nothing about the entry. -/
theorem about_otherArray (p : StatusPacket) (k : Fin maxNrHandsets) :
    about k (jsonArray (otherArray k) p) = [] := by
  unfold otherArray
  split_ifs with hphone
  · rw [jsonArray_ule, about_hsetObjects, if_neg fun h => absurd h.1.1 (by omega)]
  · rw [jsonArray_handsets, about_hsetObjects, if_neg fun h => absurd h.1.2 (by omega)]

/-- The JSON output agrees with the printed one. -/
structure JsonAgrees (p : StatusPacket) : Prop where
  /-- a registered entry appears once, in its own array, with the values printed for it -/
  registered : ∀ k : Fin maxNrHandsets, (p.handset k).registered = true8 →
    ∃ rfpi present pinging,
      (hsetLines p)[k.val]? = some (registeredLine (k.val + 1) rfpi present pinging) ∧
      about k (jsonArray (ownArray k) p) =
        [registeredObject (k.val + 1) rfpi present pinging] ∧
      about k (jsonArray (otherArray k) p) = []
  /-- an entry that is not registered does not appear -/
  unregistered : ∀ k : Fin maxNrHandsets, (p.handset k).registered ≠ true8 →
    about k (jsonArray "handsets" p) = [] ∧ about k (jsonArray "ule" p) = []
  /-- nothing but entries appears -/
  entries : ∀ o ∈ jsonArray "handsets" p ++ jsonArray "ule" p,
    ∃ k : Fin maxNrHandsets, o.handset? = some (k.val + 1 : ℤ)

/-- **The JSON output agrees with the printed one** exactly when none of the last
`MAX_NR_PHONES` entries is registered. -/
theorem json_agrees_iff (p : StatusPacket) :
    JsonAgrees p ↔ ∀ k : Fin maxNrHandsets, maxNrHandsets - maxNrPhones ≤ k.val →
      (p.handset k).registered ≠ true8 := by
  constructor
  · intro hagree k hk hreg
    obtain ⟨rfpi, present, pinging, -, hown, -⟩ := hagree.registered k hreg
    -- the second loop has ended before this entry
    rw [about_ownArray, if_neg fun h => absurd h.1 (Nat.not_lt.mpr hk)] at hown
    exact absurd hown (List.cons_ne_nil _ _).symm
  · intro hlast
    refine ⟨fun k hreg => ?_, fun k hreg => ?_, fun o ho => ?_⟩
    · have hk : k.val < maxNrHandsets - maxNrPhones := by
        by_contra hk
        exact hlast k (Nat.le_of_not_lt hk) hreg
      refine ⟨ipuiText (p.handset k).ipui, decide ((p.handset k).present = true8),
        decide ((p.handset k).pinging = true8), ?_, ?_, about_otherArray p k⟩
      · rw [hsetLines_getElem?, hsetLine_of_registered hreg]
      · rw [about_ownArray, if_pos ⟨hk, hreg⟩]
        rfl
    · rw [jsonArray_handsets, jsonArray_ule, about_hsetObjects, about_hsetObjects,
        if_neg fun h => hreg h.2, if_neg fun h => hreg h.2]
      exact ⟨rfl, rfl⟩
    · rw [jsonArray_handsets, jsonArray_ule, List.mem_append] at ho
      rcases ho with ho | ho
      · obtain ⟨k, -, rfl⟩ := exists_about (by decide) ho
        exact ⟨k, rfl⟩
      · obtain ⟨k, -, rfl⟩ := exists_about (by decide) ho
        exact ⟨k, rfl⟩

/-- A status in which handset 17 is the only registered one. -/
def handset17Registered : StatusPacket where
  regMode := RegState.disabled.value
  radio := RegState.enabled.value
  handset := fun k => if k.val = 16 then ⟨true8, true8, false8, fun _ => 7⟩ else .zero

/-- Handset 17 is missing in the JSON output. -/
theorem handset_missing_in_json : ¬ JsonAgrees handset17Registered := by
  intro h
  obtain ⟨rfpi, present, pinging, -, hown, -⟩ := h.registered ⟨16, by decide⟩ rfl
  have hempty : about ⟨16, by decide⟩ (jsonArray (ownArray ⟨16, by decide⟩) handset17Registered) =
      [] := rfl
  rw [hempty] at hown
  exact absurd hown (List.cons_ne_nil _ _).symm

end DectManager
