/-
# The decoder `atohx` of `atohx.c`

`atohx` takes two characters at a time from a string and writes a byte for them,
until it meets the terminator or a character that is no digit.  It tells digits by
arithmetic on `unsigned char`: it subtracts `'0'` or `'a' - 10`, modulo 256, and
accepts what is at most 15.  The six characters between `'Z'` and `'a'` are
accepted with the letters.

* `check_atohxLoop`: the loop does what `decode` does, and reads inside the string.
* `accepts_hex_iff`: it accepts just hexadecimal text, except for a string of an
  even number of digits and such characters with one of them.
* `atohx_inverts`: it inverts `HexText.encode`, and for every string it terminates
  and stays in bounds.
-/
import DectManager.ByteReads
import DectManager.HexText
import Mathlib.Data.List.GetD

namespace DectManager

open ByteReads HexText

/-! ## Strings -/

/-- A string of C. -/
structure CString where
  chars : List UInt8
  zero_notMem : 0 ∉ chars

namespace CString

/-- The characters and the terminator. -/
def cells (s : CString) : List UInt8 := s.chars ++ [0]

/-- A memory in which the string lies, where `behind` is what lies behind it. -/
def memory (s : CString) (behind : ℕ → UInt8) (i : ℕ) : UInt8 := s.cells.getD i (behind i)

theorem length_cells (s : CString) : s.cells.length = s.chars.length + 1 := List.length_append

theorem memory_eq (s : CString) (behind : ℕ → UInt8) (i : ℕ) (h : i < s.cells.length) :
    s.memory behind i = s.cells[i] := List.getD_eq_getElem _ _ h

end CString

/-! ## `atohx` -/

/-- `tolower` in the C locale. -/
def tolower (c : UInt8) : UInt8 := if 0x41 ≤ c ∧ c ≤ 0x5a then c + 0x20 else c

/-- `isdigit` -/
def isdigit (c : UInt8) : Bool := 0x30 ≤ c ∧ c ≤ 0x39

/-- The difference `c - '0'` for a decimal digit and `c - ('a' - 10)` for any other
character, modulo 256. -/
def difference (c : UInt8) : UInt8 := c - if isdigit c then 0x30 else 0x57

/-- What a call has written from `dst` on, and what it returns. -/
structure Atohx where
  dst : List UInt8
  ret : ℤ
  deriving DecidableEq, Repr

/-- The `for` loop.  `none` is a call that has not returned after `fuel` turns. -/
def atohxLoop : ℕ → ℕ → List UInt8 → Reads UInt8 (Option Atohx)
  | 0, _, _ => .ret none
  | fuel + 1, src, dst =>
    .cell src fun c =>
      if c = 0 then .ret (some ⟨dst, 0⟩)
      else
        .cell src fun c =>
          .cell (src + 1) fun d =>
            let msb := tolower c
            let lsb := tolower d
            let msb := difference msb
            let lsb := difference lsb
            if (msb < 0x0 ∨ msb > 0xf) ∨ (lsb < 0x0 ∨ lsb > 0xf) then .ret (some ⟨dst, -1⟩)
            else atohxLoop fuel (src + 2) (dst ++ [lsb ||| (msb <<< 4)])

/-- `atohx(dst, src)`, where offsets count from `src`. -/
def atohx (fuel : ℕ) : Reads UInt8 (Option Atohx) := atohxLoop fuel 0 []

/-- The call returns `r` on the string, whatever lies behind it. -/
def Returns (s : CString) (behind : ℕ → UInt8) (r : Atohx) : Prop :=
  ∃ n, ∀ fuel, n ≤ fuel → (atohx fuel).run (s.memory behind) = some r

/-! ## Characters -/

/-- The value that the code finds for a character, if it accepts it. -/
def nibble (c : UInt8) : Option UInt8 :=
  if difference (tolower c) > 0xf then none else some (difference (tolower c))

/-- The character is one of the six between `'Z'` and `'a'`. -/
def BetweenCases (c : UInt8) : Prop := 0x5b ≤ c.toNat ∧ c.toNat ≤ 0x60

instance : DecidablePred BetweenCases := fun c =>
  inferInstanceAs (Decidable (0x5b ≤ c.toNat ∧ c.toNat ≤ 0x60))

/-- The difference as a number: from anything else below `'a' - 10` it wraps around. -/
theorem toNat_difference (c : UInt8) :
    (difference (tolower c)).toNat =
      if 0x41 ≤ c.toNat ∧ c.toNat ≤ 0x5a then c.toNat - 0x37
      else if 0x30 ≤ c.toNat ∧ c.toNat ≤ 0x39 then c.toNat - 0x30
      else (c.toNat + 0xa9) % 256 := by
  have hc : c.toNat < 256 := c.toNat_lt
  unfold difference tolower isdigit
  simp only [UInt8.le_iff_toNat_le, UInt8.reduceToNat, decide_eq_true_eq]
  split_ifs <;> simp only [UInt8.toNat_sub, UInt8.toNat_add, UInt8.reduceToNat] at * <;> omega

/-- **The characters that are accepted** are the digits and the six between the
cases. -/
theorem isSome_nibble_iff (c : UInt8) :
    (nibble c).isSome = true ↔ IsHexDigit c ∨ BetweenCases c := by
  have hsmall : (nibble c).isSome = true ↔ (difference (tolower c)).toNat ≤ 15 := by
    unfold nibble
    simp only [gt_iff_lt, UInt8.lt_iff_toNat_lt, UInt8.reduceToNat]
    split_ifs with h
    · exact iff_of_false (by simp) (Nat.not_le.mpr h)
    · exact iff_of_true rfl (Nat.not_lt.mp h)
  have hc : c.toNat < 256 := c.toNat_lt
  rw [hsmall, toNat_difference]
  unfold IsHexDigit BetweenCases
  split_ifs <;> omega

/-- A digit of either form has its value. -/
theorem nibble_hexDigit (upper : Bool) {n : ℕ} (hn : n < 16) :
    nibble (hexDigit upper n) = some (.ofNat n) := by
  have hall : ∀ upper, ∀ n < 16, nibble (hexDigit upper n) = some (.ofNat n) := by decide
  exact hall upper n hn

/-- The terminator is rejected, so no turn of the loop steps over it. -/
theorem nibble_zero : nibble 0 = none := by decide

/-- Two values as the code puts them together. -/
def pairByte (msb lsb : UInt8) : UInt8 := lsb ||| (msb <<< 4)

/-- The halves of a byte make the byte. -/
theorem pairByte_halves (b : UInt8) :
    pairByte (.ofNat (b.toNat / 16)) (.ofNat (b.toNat % 16)) = b := by
  have hb : b.toNat < 256 := b.toNat_lt
  have hhigh : b.toNat / 16 % 2 ^ 8 = b.toNat / 16 := Nat.mod_eq_of_lt (by omega)
  have hlow : b.toNat % 16 % 2 ^ 8 = b.toNat % 16 := Nat.mod_eq_of_lt (by omega)
  have hshift : (b.toNat / 16) <<< 4 % 2 ^ 8 = (b.toNat / 16) <<< 4 := by
    rw [Nat.shiftLeft_eq]
    omega
  apply UInt8.toNat_inj.mp
  rw [pairByte, UInt8.toNat_or, UInt8.toNat_shiftLeft, UInt8.toNat_ofNat', UInt8.toNat_ofNat',
    hhigh, hlow]
  show b.toNat % 16 ||| (b.toNat / 16) <<< 4 % 2 ^ 8 = b.toNat
  -- the halves have no bit in common
  rw [hshift, Nat.or_comm, ← Nat.shiftLeft_add_eq_or_of_lt (by omega), Nat.shiftLeft_eq]
  omega

/-! ## The loop -/

/-- What `atohx` makes of the characters of a string. -/
def decode : List UInt8 → Atohx
  | [] => ⟨[], 0⟩
  | [_] => ⟨[], -1⟩
  | c :: d :: chars =>
    match nibble c, nibble d with
    | some msb, some lsb => ⟨pairByte msb lsb :: (decode chars).dst, (decode chars).ret⟩
    | _, _ => ⟨[], -1⟩

/-- A pair is decoded if both characters are accepted, and otherwise it is the end. -/
theorem decode_cons_cons (c d : UInt8) (chars : List UInt8) :
    (∃ msb lsb, nibble c = some msb ∧ nibble d = some lsb ∧
      decode (c :: d :: chars) = ⟨pairByte msb lsb :: (decode chars).dst, (decode chars).ret⟩) ∨
    (¬ ((nibble c).isSome = true ∧ (nibble d).isSome = true) ∧
      decode (c :: d :: chars) = ⟨[], -1⟩) := by
  rw [decode]
  cases nibble c with
  | none => exact .inr ⟨by simp, rfl⟩
  | some msb =>
      cases nibble d with
      | none => exact .inr ⟨by simp, rfl⟩
      | some lsb => exact .inl ⟨msb, lsb, rfl, rfl, rfl⟩

/-- The last turn of the loop. -/
theorem check_end (fuel src : ℕ) (dst : List UInt8) {cells : List UInt8}
    (h : cells[src]? = some 0) :
    (atohxLoop (fuel + 1) src dst).check cells = some (some ⟨dst, 0⟩) := by
  simp only [atohxLoop, Reads.check, h, Option.bind_some, if_true]

/-- **One turn** of the loop. -/
theorem check_turn (fuel src : ℕ) (dst : List UInt8) {cells : List UInt8} {c d : UInt8}
    (hc : cells[src]? = some c) (hne : c ≠ 0) (hd : cells[src + 1]? = some d) :
    (atohxLoop (fuel + 1) src dst).check cells =
      match nibble c, nibble d with
      | some msb, some lsb =>
        (atohxLoop fuel (src + 2) (dst ++ [pairByte msb lsb])).check cells
      | _, _ => some (some ⟨dst, -1⟩) := by
  simp only [atohxLoop, Reads.check, hc, hd, Option.bind_some, if_neg hne, UInt8.not_lt_zero,
    false_or]
  unfold nibble
  by_cases hmsb : difference (tolower c) > 0xf
  · simp only [hmsb, true_or, if_true, Reads.check]
  · by_cases hlsb : difference (tolower d) > 0xf
    · simp only [hlsb, or_true, if_true, Reads.check]
      split <;> simp_all
    · simp only [hmsb, hlsb, or_self, if_false]
      rfl

/-- **The loop**, from any place in a string, reads inside the string, and with
enough turns it does what `decode` does to the rest. -/
theorem check_atohxLoop (fuel : ℕ) :
    ∀ pre chars dst, (0 : UInt8) ∉ chars →
      ∃ o, (atohxLoop fuel pre.length dst).check (pre ++ (chars ++ [0])) = some o ∧
        (chars.length / 2 < fuel →
          o = some ⟨dst ++ (decode chars).dst, (decode chars).ret⟩) := by
  induction fuel with
  | zero => exact fun pre chars dst _ => ⟨none, rfl, fun h => absurd h (Nat.not_lt_zero _)⟩
  | succ fuel ih =>
      intro pre chars dst hzero
      match chars with
      | [] =>
          refine ⟨some ⟨dst, 0⟩, check_end _ _ _ (by simp), fun _ => ?_⟩
          rw [decode, List.append_nil]
      | [c] =>
          -- the second character is the terminator, which is rejected
          have hne : c ≠ 0 := fun h => hzero (by simp [h])
          refine ⟨some ⟨dst, -1⟩, ?_, fun _ => ?_⟩
          · rw [check_turn _ _ _ (c := c) (d := 0) (by simp) hne (by simp), nibble_zero]
            cases nibble c <;> rfl
          · rw [decode, List.append_nil]
      | c :: d :: chars =>
          have hne : c ≠ 0 := fun h => hzero (by simp [h])
          rw [check_turn _ _ _ (c := c) (d := d) (by simp) hne (by simp), decode]
          cases nibble c with
          | none => exact ⟨_, rfl, fun _ => by rw [List.append_nil]⟩
          | some msb =>
              cases nibble d with
              | none => exact ⟨_, rfl, fun _ => by rw [List.append_nil]⟩
              | some lsb =>
                  have hrest : 0 ∉ chars := fun h => hzero (by simp [h])
                  obtain ⟨o, ho, hfuel⟩ :=
                    ih (pre ++ [c, d]) chars (dst ++ [pairByte msb lsb]) hrest
                  rw [List.length_append, List.append_assoc] at ho
                  refine ⟨o, ho, fun hlt => ?_⟩
                  rw [List.length_cons, List.length_cons] at hlt
                  rw [hfuel (by omega), List.append_assoc]
                  rfl

/-- **The call returns** what `decode` makes of the string, whatever lies behind it. -/
theorem returns_decode (s : CString) (behind : ℕ → UInt8) :
    Returns s behind (decode s.chars) := by
  refine ⟨s.chars.length / 2 + 1, fun fuel hfuel => ?_⟩
  obtain ⟨o, ho, hdone⟩ := check_atohxLoop fuel [] s.chars [] s.zero_notMem
  rw [hdone hfuel] at ho
  exact Reads.run_of_check (s.memory_eq behind) ho

/-- What is computed with enough fuel is one result. -/
theorem eq_of_fuel {α : Type*} {f : ℕ → Option α} {a b : α}
    (ha : ∃ n, ∀ fuel, n ≤ fuel → f fuel = some a) (hb : ∃ n, ∀ fuel, n ≤ fuel → f fuel = some b) :
    a = b := by
  obtain ⟨n, hn⟩ := ha
  obtain ⟨n', hn'⟩ := hb
  have hboth := (hn (max n n') (le_max_left _ _)).symm.trans (hn' (max n n') (le_max_right _ _))
  exact Option.some.inj hboth

/-- A call returns once. -/
theorem Returns.unique {s : CString} {behind : ℕ → UInt8} {r r' : Atohx}
    (h : Returns s behind r) (h' : Returns s behind r') : r = r' := eq_of_fuel h h'

/-- **The reads** of a call are characters and the terminator, at any time. -/
theorem touches_le (s : CString) (behind : ℕ → UInt8) (fuel i : ℕ)
    (h : (atohx fuel).Touches (s.memory behind) i) : i ≤ s.chars.length := by
  obtain ⟨o, ho, -⟩ := check_atohxLoop fuel [] s.chars [] s.zero_notMem
  have hcheck : ((atohx fuel).check s.cells).isSome = true := by
    show ((atohxLoop fuel 0 []).check ([] ++ (s.chars ++ [0]))).isSome = true
    rw [show (0 : ℕ) = ([] : List UInt8).length from rfl, ho]
    rfl
  have hlt := (Reads.touches_lt_iff (s.memory_eq behind) (atohx fuel)).mpr hcheck i h
  rw [s.length_cells] at hlt
  exact Nat.le_of_lt_succ hlt

/-! ## What is accepted -/

/-- **Acceptance.**  `decode` returns 0 for an even number of accepted characters. -/
theorem ret_decode_eq_zero_iff (chars : List UInt8) :
    (decode chars).ret = 0 ↔ Even chars.length ∧ ∀ c ∈ chars, (nibble c).isSome = true := by
  induction chars using List.twoStepInduction with
  | nil => exact iff_of_true rfl ⟨Even.zero, fun c hc => absurd hc List.not_mem_nil⟩
  | singleton c => exact iff_of_false (by simp [decode]) fun h => Nat.not_even_one h.1
  | cons_cons c d chars ih _ =>
      rw [even_length_cons_cons_iff, List.forall_mem_cons, List.forall_mem_cons]
      rcases decode_cons_cons c d chars with ⟨msb, lsb, hc, hd, hdecode⟩ | ⟨hnot, hdecode⟩
      · rw [hdecode, hc, hd]
        simpa using ih
      · rw [hdecode]
        exact iff_of_false (by decide) fun h => hnot ⟨h.2.1, h.2.2.1⟩

/-- Otherwise it returns -1. -/
theorem ret_decode (chars : List UInt8) : (decode chars).ret = 0 ∨ (decode chars).ret = -1 := by
  induction chars using List.twoStepInduction with
  | nil => exact .inl rfl
  | singleton c => exact .inr rfl
  | cons_cons c d chars ih _ =>
      rcases decode_cons_cons c d chars with ⟨msb, lsb, -, -, hdecode⟩ | ⟨-, hdecode⟩
      · rw [hdecode]
        exact ih
      · rw [hdecode]
        exact .inr rfl

/-- `atohx` returns 0 just for an even number of hexadecimal digits, and -1 for any other
string. -/
def AcceptsHexOnly (s : CString) : Prop :=
  ∀ behind, ∃ r, Returns s behind r ∧ (r.ret = 0 ∨ r.ret = -1) ∧
    (r.ret = 0 ↔ Even s.chars.length ∧ ∀ c ∈ s.chars, IsHexDigit c)

/-- The string is an even number of digits and characters between the cases, with one
of these. -/
def Misread (s : CString) : Prop :=
  Even s.chars.length ∧ (∀ c ∈ s.chars, IsHexDigit c ∨ BetweenCases c) ∧
    ∃ c ∈ s.chars, BetweenCases c

/-- No character is both. -/
theorem not_betweenCases {c : UInt8} (h : IsHexDigit c) : ¬ BetweenCases c := by
  unfold IsHexDigit at h
  unfold BetweenCases
  omega

/-- **`atohx` accepts just hexadecimal text**, unless the string is an even number of
digits and characters between the cases, with one of these. -/
theorem accepts_hex_iff (s : CString) : AcceptsHexOnly s ↔ ¬ Misread s := by
  have hdecode : (decode s.chars).ret = 0 ↔
      Even s.chars.length ∧ ∀ c ∈ s.chars, IsHexDigit c ∨ BetweenCases c := by
    rw [ret_decode_eq_zero_iff]
    exact and_congr_right fun _ => forall₂_congr fun c _ => isSome_nibble_iff c
  constructor
  · rintro h ⟨heven, hall, c, hc, hbetween⟩
    obtain ⟨r, hr, -, hret⟩ := h fun _ => 0
    rw [hr.unique (returns_decode s _), hdecode] at hret
    exact not_betweenCases ((hret.mp ⟨heven, hall⟩).2 c hc) hbetween
  · intro hnot behind
    refine ⟨decode s.chars, returns_decode s behind, ret_decode s.chars, ?_⟩
    rw [hdecode]
    constructor
    · rintro ⟨heven, hall⟩
      refine ⟨heven, fun c hc => (hall c hc).resolve_right fun hbetween => ?_⟩
      exact hnot ⟨heven, hall, c, hc, hbetween⟩
    · rintro ⟨heven, hall⟩
      exact ⟨heven, fun c hc => .inl (hall c hc)⟩

/-- The string "[0" is accepted. -/
theorem bracket_accepted : ¬ AcceptsHexOnly ⟨[0x5b, 0x30], by decide⟩ := by
  intro h
  obtain ⟨r, ⟨n, hn⟩, -, hret⟩ := h fun _ => 0
  have hrun := hn (n + 2) (Nat.le_add_right _ _)
  have hzero : (atohx (n + 2)).run (CString.memory ⟨[0x5b, 0x30], by decide⟩ fun _ => 0) =
      some ⟨[0x40], 0⟩ := rfl
  rw [hzero] at hrun
  obtain rfl := Option.some.inj hrun
  have hdigit : IsHexDigit 0x5b := (hret.mp rfl).2 0x5b (List.mem_cons_self ..)
  exact absurd hdigit (by decide)

/-! ## What is decoded -/

/-- **The decoder inverts** the encoder. -/
theorem decode_encode (upper : ℕ → Bool) (bytes : List UInt8) :
    decode (encode upper bytes) = ⟨bytes, 0⟩ := by
  induction bytes generalizing upper with
  | nil => rfl
  | cons b bytes ih =>
      have hb : b.toNat < 256 := b.toNat_lt
      rw [encode, decode, nibble_hexDigit _ (by omega), nibble_hexDigit _ (by omega)]
      simp only [ih, pairByte_halves]

/-- **How far the decoder gets**: `k` bytes, if the characters of `k` pairs are accepted. -/
theorem le_length_dst_iff (chars : List UInt8) (k : ℕ) :
    k ≤ (decode chars).dst.length ↔
      2 * k ≤ chars.length ∧ ∀ c ∈ chars.take (2 * k), (nibble c).isSome = true := by
  induction chars using List.twoStepInduction generalizing k with
  | nil => simp [decode]
  | singleton c =>
      show k ≤ 0 ↔ 2 * k ≤ 1 ∧ _
      constructor
      · intro h
        obtain rfl := Nat.le_zero.mp h
        exact ⟨by omega, fun c hc => absurd hc List.not_mem_nil⟩
      · rintro ⟨h, -⟩
        omega
  | cons_cons c d chars ih _ =>
      cases k with
      | zero =>
          refine iff_of_true (Nat.zero_le _) ⟨Nat.zero_le _, ?_⟩
          exact fun c hc => absurd hc List.not_mem_nil
      | succ k =>
          rw [show 2 * (k + 1) = 2 * k + 1 + 1 from rfl, List.take_succ_cons, List.take_succ_cons,
            List.forall_mem_cons, List.forall_mem_cons, List.length_cons, List.length_cons]
          rcases decode_cons_cons c d chars with ⟨msb, lsb, hc, hd, hdecode⟩ | ⟨hnot, hdecode⟩
          · rw [hdecode, hc, hd, List.length_cons, Nat.add_le_add_iff_right, ih]
            simp only [Nat.add_le_add_iff_right, Option.isSome_some, true_and]
          · rw [hdecode]
            exact iff_of_false (Nat.not_succ_le_zero k) fun h => hnot ⟨h.2.1, h.2.2.1⟩

/-- Half a byte is decoded from each character, at most. -/
theorem length_dst_decode_le (chars : List UInt8) :
    (decode chars).dst.length ≤ chars.length / 2 := by
  have htwice := ((le_length_dst_iff chars _).mp (le_refl (decode chars).dst.length)).1
  omega

/-- The encoding of some bytes as a string. -/
def hexString (upper : ℕ → Bool) (bytes : List UInt8) : CString where
  chars := encode upper bytes
  zero_notMem := fun h => absurd (isHexDigit_of_mem_encode h) (by decide)

/-- **`atohx` inverts the encoding**, in any choice of cases.  And for every string the
call returns, reads no byte past the terminator and writes at most a byte for two
characters. -/
theorem atohx_inverts :
    (∀ upper bytes behind, Returns (hexString upper bytes) behind ⟨bytes, 0⟩) ∧
      ∀ s behind, (∃ r, Returns s behind r ∧ r.dst.length ≤ s.chars.length / 2) ∧
        ∀ fuel i, (atohx fuel).Touches (s.memory behind) i → i ≤ s.chars.length := by
  constructor
  · intro upper bytes behind
    have h := returns_decode (hexString upper bytes) behind
    rw [show (hexString upper bytes).chars = encode upper bytes from rfl, decode_encode] at h
    exact h
  · intro s behind
    refine ⟨⟨decode s.chars, returns_decode s behind, length_dst_decode_le s.chars⟩, ?_⟩
    exact touches_le s behind

end DectManager
