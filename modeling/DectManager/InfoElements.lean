/-
# Lists of information elements

`ApiBuildInfoElement` appends an information element to a block on the heap: it
allocates a block for the old elements and the new one, copies the old ones and
writes the new one behind them.  The length of the block is a 16-bit variable.

* `parse_eq_some_iff`: the blocks that parse are the encodings of elements.
* `build_fits`, `build_overflows`: one call.
* `run_isSome_iff`: the calls write inside the blocks exactly while the length fits into
  16 bits.
* `builds_iff`: just so long the block decodes to what was appended.
-/
import DectManager.Blocks
import DectManager.PartialRun
import Mathlib.Algebra.BigOperators.Group.List.Basic
import Mathlib.Algebra.Order.Ring.Nat

namespace DectManager

open PartialRun

/-! ## The format -/

/-- `ApiInfoElementType`, where the member `IeLength` is the length of the data. -/
structure InfoElement where
  ie : UInt16
  ieData : List UInt8
  length_lt : ieData.length < 2 ^ 8

/-- `RSOFFSETOF(ApiInfoElementType, IeData)` -/
def offsetOfIeData : ℕ := 3

/-- The bytes of a 16-bit word in memory. -/
def halfwordBytes (x : UInt16) : List UInt8 := [.ofNat x.toNat, .ofNat (x.toNat / 2 ^ 8)]

namespace InfoElement

def ieLength (e : InfoElement) : UInt8 := .ofNat e.ieData.length

/-- The element as it lies in a block. -/
def bytes (e : InfoElement) : List UInt8 := halfwordBytes e.ie ++ e.ieLength :: e.ieData

/-- How much of a block it takes. -/
def size (e : InfoElement) : ℕ := offsetOfIeData + e.ieData.length

theorem toNat_ieLength (e : InfoElement) : e.ieLength.toNat = e.ieData.length :=
  Nat.mod_eq_of_lt e.length_lt

theorem length_bytes (e : InfoElement) : e.bytes.length = e.size := by
  show e.ieData.length + 1 + 2 = 3 + e.ieData.length
  omega

/-- An element with `n` bytes of data, all zero. -/
def zeros (n : ℕ) (h : n < 2 ^ 8) : InfoElement where
  ie := 0
  ieData := List.replicate n 0
  length_lt := List.length_replicate.trans_lt h

theorem size_zeros (n : ℕ) (h : n < 2 ^ 8) : (zeros n h).size = offsetOfIeData + n :=
  congrArg (offsetOfIeData + ·) List.length_replicate

/-- Elements one behind the other. -/
def encode (es : List InfoElement) : List UInt8 := es.flatMap bytes

def total (es : List InfoElement) : ℕ := (es.map size).sum

theorem length_encode (es : List InfoElement) : (encode es).length = total es := by
  rw [encode, List.length_flatMap, total]
  exact congrArg List.sum (List.map_congr_left fun e _ => e.length_bytes)

theorem encode_concat (es : List InfoElement) (e : InfoElement) :
    encode (es ++ [e]) = encode es ++ e.bytes := by
  rw [encode, List.flatMap_append, List.flatMap_singleton]
  rfl

theorem total_concat (es : List InfoElement) (e : InfoElement) :
    total (es ++ [e]) = total es + e.size := by
  rw [total, List.map_append, List.sum_append, List.map_singleton, List.sum_singleton]
  rfl

/-- The elements in a block: a 16-bit word, the length of the data and the data, one
element behind the other to the end of the block. -/
def parse : List UInt8 → Option (List InfoElement)
  | [] => some []
  | lo :: hi :: n :: text =>
    if n.toNat ≤ text.length then
      (parse (text.drop n.toNat)).map
        (⟨.ofNat (lo.toNat + hi.toNat * 2 ^ 8), text.take n.toNat,
          lt_of_le_of_lt (List.length_take_le _ _) n.toNat_lt⟩ :: ·)
    else none
  | _ => none
termination_by text => text.length
decreasing_by
  rw [List.length_drop, List.length_cons, List.length_cons, List.length_cons]
  omega

/-- An element is read back from its bytes. -/
theorem parse_bytes_append (e : InfoElement) (text : List UInt8) :
    parse (e.bytes ++ text) = (parse text).map (e :: ·) := by
  have hie : UInt16.ofNat ((UInt8.ofNat e.ie.toNat).toNat +
      (UInt8.ofNat (e.ie.toNat / 2 ^ 8)).toNat * 2 ^ 8) = e.ie := by
    have hlt := e.ie.toNat_lt
    apply UInt16.toNat_inj.mp
    rw [UInt16.toNat_ofNat', UInt8.toNat_ofNat', UInt8.toNat_ofNat']
    omega
  show parse (.ofNat e.ie.toNat :: .ofNat (e.ie.toNat / 2 ^ 8) :: e.ieLength ::
    (e.ieData ++ text)) = _
  rw [parse, if_pos]
  · simp only [toNat_ieLength, hie, List.take_left, List.drop_left]
  · rw [toNat_ieLength, List.length_append]
    exact Nat.le_add_right _ _

/-- An element is the bytes that it was read from. -/
theorem bytes_append_drop (lo hi n : UInt8) {text : List UInt8} (h : n.toNat ≤ text.length)
    (hlt : (text.take n.toNat).length < 2 ^ 8) :
    bytes ⟨.ofNat (lo.toNat + hi.toNat * 2 ^ 8), text.take n.toNat, hlt⟩ ++ text.drop n.toNat =
      lo :: hi :: n :: text := by
  have hlo := lo.toNat_lt
  have hhi := hi.toNat_lt
  have hie : halfwordBytes (.ofNat (lo.toNat + hi.toNat * 2 ^ 8)) = [lo, hi] := by
    rw [halfwordBytes, UInt16.toNat_ofNat_of_lt' (by rw [UInt16.size]; omega)]
    congr 2
    · apply UInt8.toNat_inj.mp
      rw [UInt8.toNat_ofNat']
      omega
    · apply UInt8.toNat_inj.mp
      rw [UInt8.toNat_ofNat']
      omega
  have hn : UInt8.ofNat (text.take n.toNat).length = n := by
    rw [List.length_take_of_le h, UInt8.ofNat_toNat]
  rw [bytes, ieLength, hie, hn]
  exact congrArg (fun data => lo :: hi :: n :: data) (List.take_append_drop n.toNat text)

/-- **The format**: a block parses as the elements that it is the encoding of, and any
other block does not parse. -/
theorem parse_eq_some_iff {text : List UInt8} {es : List InfoElement} :
    parse text = some es ↔ text = encode es := by
  constructor
  · intro h
    induction text using parse.induct generalizing es with
    | case1 =>
        rw [parse] at h
        obtain rfl := Option.some.inj h
        rfl
    | case2 lo hi n text hle ih =>
        rw [parse, if_pos hle, Option.map_eq_some_iff] at h
        obtain ⟨es, hes, rfl⟩ := h
        rw [encode, List.flatMap_cons, ← encode, ← ih hes]
        exact (bytes_append_drop lo hi n hle _).symm
    | case3 lo hi n text hle =>
        rw [parse, if_neg hle] at h
        exact absurd h (by simp)
    | case4 text hnil hcons =>
        rw [parse.eq_def] at h
        split at h
        · exact absurd rfl hnil
        · exact absurd rfl (hcons _ _ _ _)
        · exact absurd h (by simp)
  · rintro rfl
    induction es with
    | nil => rw [encode, List.flatMap_nil, parse]
    | cons e es ih =>
        rw [encode, List.flatMap_cons, parse_bytes_append, ← encode, ih]
        rfl

end InfoElement

open InfoElement

/-! ## `ApiBuildInfoElement` -/

/-- What `IeBlockPtr` and `IeBlockLengthPtr` point to. -/
structure IeBlock where
  ieBlock : Option Block
  ieBlockLength : UInt16
  deriving DecidableEq, Repr

def apiFreeInfoElement (s : IeBlock) : IeBlock := { s with ieBlock := none }

/-- The arguments of a call, and whether its allocation succeeds. -/
structure BuildCall where
  element : InfoElement
  allocated : Bool

/-- Copy the old block, if there is one, to the start of the new one. -/
def copyExisting (s : IeBlock) (p : Block) : Option Block :=
  match s.ieBlock with
  | some old =>
    let length := s.ieBlockLength.toNat
    if length ≤ old.length then Block.copy 0 (old.take length) p else none
  | none => some p

/-- Write the element behind the first `length` bytes. -/
def appendElement (length : ℕ) (e : InfoElement) (p : Block) : Option Block :=
  (Block.store length (halfwordBytes e.ie) p).bind fun p =>
    (Block.store (length + 2) [e.ieLength] p).bind fun p =>
      Block.store (length + offsetOfIeData) e.ieData p

/-- A call.  `none` is one that copies from behind the old block or to behind the new
one. -/
def apiBuildInfoElement (s : IeBlock) (call : BuildCall) : Option IeBlock :=
  let e := call.element
  -- `newLength` has 16 bits
  let newLength : UInt16 := .ofNat (s.ieBlockLength.toNat + offsetOfIeData + e.ieLength.toNat)
  if call.allocated then
    (copyExisting s (Block.malloc newLength.toNat)).bind fun p =>
      (appendElement s.ieBlockLength.toNat e p).map fun p => ⟨some p, newLength⟩
  else some { apiFreeInfoElement s with ieBlockLength := 0 }

/-- Before the first call. -/
def IeBlock.empty : IeBlock := ⟨none, 0⟩

/-- The bytes of the block. -/
def IeBlock.cells (s : IeBlock) : Block := s.ieBlock.getD []

/-- The length is that of the elements, and the block decodes to them. -/
def Decodes (s : IeBlock) (es : List InfoElement) : Prop :=
  s.ieBlockLength.toNat = total es ∧
    ∃ text : List UInt8, s.cells = text.map some ∧ parse text = some es

theorem decodes_iff {s : IeBlock} {es : List InfoElement} :
    Decodes s es ↔ s.ieBlockLength.toNat = total es ∧ s.cells = (encode es).map some := by
  refine and_congr_right fun _ => ?_
  constructor
  · rintro ⟨text, hcells, htext⟩
    rw [hcells, parse_eq_some_iff.mp htext]
  · exact fun h => ⟨encode es, h, parse_eq_some_iff.mpr rfl⟩

theorem decodes_empty : Decodes .empty [] := decodes_iff.mpr ⟨rfl, rfl⟩

/-- A call without an allocation frees the block. -/
theorem build_failed (s : IeBlock) (e : InfoElement) :
    apiBuildInfoElement s ⟨e, false⟩ = some .empty := rfl

/-- The elements are copied. -/
theorem copyExisting_eq {s : IeBlock} {es : List InfoElement} (h : Decodes s es) (p : Block) :
    copyExisting s p = Block.store 0 (encode es) p := by
  obtain ⟨hlength, hcells⟩ := decodes_iff.mp h
  rw [Block.store_eq_copy, ← hcells, copyExisting, IeBlock.cells]
  cases hold : s.ieBlock with
  | none =>
      have hle : ([] : Block).length ≤ p.length := Nat.zero_le _
      exact (Block.copy_append [] p hle).symm
  | some old =>
      have hle : old.length = s.ieBlockLength.toNat := by
        have hlen := congrArg List.length hcells
        rw [IeBlock.cells, hold, List.length_map, length_encode, ← hlength] at hlen
        exact hlen
      show (if s.ieBlockLength.toNat ≤ old.length then _ else none) = _
      rw [if_pos hle.ge, List.take_of_length_le hle.le]
      rfl

/-- The element is written where there is room. -/
theorem appendElement_eq {length : ℕ} (before : List UInt8) (e : InfoElement)
    (hlength : length = before.length) :
    appendElement length e (before.map some ++ Block.malloc e.size) =
      some ((before ++ e.bytes).map some) := by
  have hie := Block.store_next before (halfwordBytes e.ie) (1 + e.ieData.length) hlength
  have hlen := Block.store_next (n := length + 2) (before ++ halfwordBytes e.ie) [e.ieLength]
    e.ieData.length (by rw [hlength, List.length_append]; rfl)
  have hdata := Block.store_next (n := length + offsetOfIeData)
    (before ++ halfwordBytes e.ie ++ [e.ieLength]) e.ieData 0
    (by rw [hlength, List.length_append, List.length_append]; rfl)
  have hsize : e.size = (halfwordBytes e.ie).length + (1 + e.ieData.length) :=
    show 3 + e.ieData.length = 2 + (1 + e.ieData.length) by omega
  rw [appendElement, hsize, hie, Option.bind_some]
  rw [show 1 + e.ieData.length = [e.ieLength].length + e.ieData.length from rfl, hlen,
    Option.bind_some]
  rw [show e.ieData.length = e.ieData.length + 0 from rfl, hdata]
  rw [bytes, List.append_assoc, List.append_assoc]
  exact congrArg some (List.append_nil _)

section Step

variable {s : IeBlock} {es : List InfoElement} (e : InfoElement)

/-- The length before it is stored in 16 bits. -/
theorem newLength_eq (h : Decodes s es) :
    s.ieBlockLength.toNat + offsetOfIeData + e.ieLength.toNat = total (es ++ [e]) := by
  rw [h.1, toNat_ieLength, total_concat, size, Nat.add_assoc]

/-- **One call** appends the element, if the length fits. -/
theorem build_fits (h : Decodes s es) (hfits : total (es ++ [e]) < 2 ^ 16) :
    ∃ s', apiBuildInfoElement s ⟨e, true⟩ = some s' ∧ Decodes s' (es ++ [e]) := by
  have hlength : (UInt16.ofNat (total (es ++ [e]))).toNat = total (es ++ [e]) :=
    Nat.mod_eq_of_lt hfits
  have hcopied : copyExisting s (Block.malloc (total (es ++ [e]))) =
      some ((encode es).map some ++ Block.malloc e.size) := by
    rw [copyExisting_eq h, total_concat, ← length_encode]
    exact Block.store_next [] (encode es) e.size rfl
  have happended := appendElement_eq (encode es) e (h.1.trans (length_encode es).symm)
  refine ⟨⟨some ((encode es ++ e.bytes).map some), .ofNat (total (es ++ [e]))⟩, ?_, ?_⟩
  · simp only [apiBuildInfoElement, newLength_eq e h, hlength, hcopied, happended,
      Option.bind_some, Option.map_some, if_true]
  · refine decodes_iff.mpr ⟨hlength, ?_⟩
    rw [encode_concat]
    rfl

/-- **If it does not fit**, the new block is too small for the old one, and the copy of
that goes on behind it. -/
theorem build_overflows (h : Decodes s es) (hover : 2 ^ 16 ≤ total (es ++ [e])) :
    apiBuildInfoElement s ⟨e, true⟩ = none := by
  have hbefore : total es < 2 ^ 16 := h.1 ▸ s.ieBlockLength.toNat_lt
  have hsize : e.size < 2 ^ 16 := by
    have hlt := e.length_lt
    rw [size, offsetOfIeData]
    omega
  have hshort : (UInt16.ofNat (total (es ++ [e]))).toNat < total es := by
    rw [UInt16.toNat_ofNat']
    rw [total_concat] at *
    omega
  have hnone : copyExisting s (Block.malloc (UInt16.ofNat (total (es ++ [e]))).toNat) = none := by
    rw [copyExisting_eq h, Block.store_eq_copy, Block.copy_eq_none_iff, Block.malloc,
      List.length_replicate, List.length_map, length_encode, Nat.zero_add]
    exact hshort
  simp only [apiBuildInfoElement, newLength_eq e h, hnone, Option.bind_none, if_true]

end Step

/-! ## Runs -/

/-- The elements that have been appended since the last call without an allocation. -/
def appended (calls : List BuildCall) : List InfoElement :=
  calls.foldl (fun es call => if call.allocated then es ++ [call.element] else []) []

theorem appended_concat (calls : List BuildCall) (call : BuildCall) :
    appended (calls ++ [call]) =
      if call.allocated then appended calls ++ [call.element] else [] := by
  rw [appended, List.foldl_append]
  rfl

/-- Where all calls have an allocation, these are all elements. -/
theorem appended_of_allocated {calls : List BuildCall} (h : ∀ call ∈ calls, call.allocated = true) :
    appended calls = calls.map BuildCall.element := by
  induction calls using List.reverseRecOn with
  | nil => rfl
  | append_singleton calls call ih =>
      rw [List.forall_mem_append, List.forall_mem_singleton] at h
      rw [appended_concat, if_pos h.2, ih h.1, List.map_append, List.map_singleton]

/-- The length for some elements that are all the same. -/
theorem total_appended_replicate (n : ℕ) (e : InfoElement) :
    total (appended (List.replicate n ⟨e, true⟩)) = n * e.size := by
  have hall : ∀ call ∈ List.replicate n (⟨e, true⟩ : BuildCall), call.allocated = true :=
    fun call hcall => congrArg BuildCall.allocated (List.eq_of_mem_replicate hcall)
  rw [appended_of_allocated hall, List.map_replicate, total, List.map_replicate,
    List.sum_replicate_nat]

/-- **The states** that calls reach decode to the elements. -/
theorem decodes_of_run :
    ∀ calls s, run apiBuildInfoElement .empty calls = some s → Decodes s (appended calls) := by
  refine run_induction (P := fun calls s => Decodes s (appended calls)) decodes_empty ?_
  rintro calls s ⟨e, allocated⟩ s' - hs he
  rw [appended_concat]
  cases allocated with
  | false =>
      obtain rfl := Option.some.inj ((build_failed s e).symm.trans he)
      exact decodes_empty
  | true =>
      rcases lt_or_ge (total (appended calls ++ [e])) (2 ^ 16) with hfits | hover
      · obtain ⟨t, ht, hdecodes⟩ := build_fits e hs hfits
        obtain rfl := Option.some.inj (ht.symm.trans he)
        exact hdecodes
      · rw [build_overflows e hs hover] at he
        exact absurd he (by simp)

theorem total_lt {s : IeBlock} {es : List InfoElement} (h : Decodes s es) : total es < 2 ^ 16 :=
  h.1 ▸ s.ieBlockLength.toNat_lt

/-- **Safety**: the calls copy inside the blocks exactly while the length fits. -/
theorem run_isSome_iff (calls : List BuildCall) :
    (run apiBuildInfoElement .empty calls).isSome = true ↔
      ∀ pre, pre <+: calls → total (appended pre) < 2 ^ 16 := by
  constructor
  · rintro hrun pre ⟨post, rfl⟩
    obtain ⟨s', hs'⟩ := Option.isSome_iff_exists.mp hrun
    rw [run_append, Option.bind_eq_some_iff] at hs'
    obtain ⟨s, hs, -⟩ := hs'
    exact total_lt (decodes_of_run pre s hs)
  · intro hfits
    induction calls using List.reverseRecOn with
    | nil => rfl
    | append_singleton calls call ih =>
        have hcalls := ih fun pre hpre => hfits pre (hpre.trans (List.prefix_append _ _))
        obtain ⟨s, hs⟩ := Option.isSome_iff_exists.mp hcalls
        have hlast := hfits _ (List.prefix_refl _)
        rw [appended_concat] at hlast
        rw [run_concat, hs, Option.bind_some]
        obtain ⟨e, allocated⟩ := call
        cases allocated with
        | false => rfl
        | true =>
            obtain ⟨s', hs', -⟩ := build_fits e (decodes_of_run calls s hs) hlast
            rw [hs']
            rfl

/-- After each call the length is that of the elements, the block decodes to them and no
copy has gone over the end of a block, and after a call without an allocation there is
no block. -/
def BuildsBlock (calls : List BuildCall) : Prop :=
  ∀ pre, pre <+: calls →
    ∃ s, run apiBuildInfoElement .empty pre = some s ∧ Decodes s (appended pre) ∧
      ∀ call, pre.getLast? = some call → call.allocated = false → s = .empty

/-- **The block decodes to what was appended** exactly while its length fits into 16
bits. -/
theorem builds_iff (calls : List BuildCall) :
    BuildsBlock calls ↔ ∀ pre, pre <+: calls → total (appended pre) < 2 ^ 16 := by
  constructor
  · intro hbuilds pre hpre
    obtain ⟨s, -, hdecodes, -⟩ := hbuilds pre hpre
    exact total_lt hdecodes
  · intro hfits pre hpre
    have hrun := (run_isSome_iff pre).mpr fun pre' hpre' => hfits pre' (hpre'.trans hpre)
    obtain ⟨s, hs⟩ := Option.isSome_iff_exists.mp hrun
    refine ⟨s, hs, decodes_of_run pre s hs, ?_⟩
    rintro ⟨e, allocated⟩ hcall rfl
    obtain ⟨calls, rfl⟩ := List.getLast?_eq_some_iff.mp hcall
    obtain ⟨s₀, -, hlast⟩ := (run_concat_eq_some _).mp hs
    exact (Option.some.inj ((build_failed s₀ e).symm.trans hlast)).symm

/-- 256 elements with 253 bytes of data are too many. -/
theorem elements_not_built :
    ¬ BuildsBlock (List.replicate 256 ⟨.zeros 253 (by decide), true⟩) := by
  intro hbuilds
  obtain ⟨s, -, hdecodes, -⟩ := hbuilds _ (List.prefix_refl _)
  have hlt := total_lt hdecodes
  rw [total_appended_replicate, size_zeros] at hlt
  exact absurd hlt (by decide)

end DectManager
