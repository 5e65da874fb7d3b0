/-
# Hexadecimal text

A byte is written as two digits, the high half first, and a digit above 9 has two
forms.  `encode upper` writes some bytes, where `upper` chooses the form of each
digit.

* `exists_encode_iff`: a text is the encoding of some bytes, in some choice of
  forms, exactly when it is an even number of hexadecimal digits.
-/
import Mathlib.Data.List.Induction
import Mathlib.Algebra.Ring.Parity
import Mathlib.Tactic.Common

namespace HexText

/-- The character is one of 0-9, A-F and a-f. -/
def IsHexDigit (c : UInt8) : Prop :=
  (0x30 ≤ c.toNat ∧ c.toNat ≤ 0x39) ∨ (0x41 ≤ c.toNat ∧ c.toNat ≤ 0x46) ∨
    (0x61 ≤ c.toNat ∧ c.toNat ≤ 0x66)

instance : DecidablePred IsHexDigit := fun c =>
  inferInstanceAs (Decidable ((0x30 ≤ c.toNat ∧ c.toNat ≤ 0x39) ∨
    (0x41 ≤ c.toNat ∧ c.toNat ≤ 0x46) ∨ (0x61 ≤ c.toNat ∧ c.toNat ≤ 0x66)))

/-- The digit for a number below 16. -/
def hexDigit (upper : Bool) (n : ℕ) : UInt8 :=
  if n < 10 then .ofNat (0x30 + n)
  else if upper then .ofNat (0x37 + n)
  else .ofNat (0x57 + n)

/-- The text of some bytes, where `upper i` is the form of its `i`-th digit. -/
def encode (upper : ℕ → Bool) : List UInt8 → List UInt8
  | [] => []
  | b :: bytes =>
    hexDigit (upper 0) (b.toNat / 16) :: hexDigit (upper 1) (b.toNat % 16) ::
      encode (fun i => upper (i + 2)) bytes

/-- The digits have the characters that they should have. -/
theorem isHexDigit_hexDigit (upper : Bool) {n : ℕ} (hn : n < 16) :
    IsHexDigit (hexDigit upper n) := by
  have hall : ∀ upper, ∀ n < 16, IsHexDigit (hexDigit upper n) := by decide
  exact hall upper n hn

/-- Every such character is the digit of some number. -/
theorem exists_hexDigit {c : UInt8} (h : IsHexDigit c) :
    ∃ upper, ∃ n < 16, c = hexDigit upper n := by
  have hc : c = .ofNat c.toNat := UInt8.ofNat_toNat.symm
  rcases h with ⟨hlow, hhigh⟩ | ⟨hlow, hhigh⟩ | ⟨hlow, hhigh⟩
  · refine ⟨false, c.toNat - 0x30, by omega, ?_⟩
    rw [hexDigit, if_pos (by omega), Nat.add_sub_cancel' hlow]
    exact hc
  · refine ⟨true, c.toNat - 0x37, by omega, ?_⟩
    rw [hexDigit, if_neg (by omega), if_pos rfl, Nat.add_sub_cancel' (by omega)]
    exact hc
  · refine ⟨false, c.toNat - 0x57, by omega, ?_⟩
    rw [hexDigit, if_neg (by omega), if_neg (by decide), Nat.add_sub_cancel' (by omega)]
    exact hc

/-- Two halves make a byte. -/
theorem exists_byte {m n : ℕ} (hm : m < 16) (hn : n < 16) :
    ∃ b : UInt8, b.toNat / 16 = m ∧ b.toNat % 16 = n := by
  have hlt : m * 16 + n < 2 ^ 8 := by omega
  refine ⟨.ofNat (m * 16 + n), ?_⟩
  rw [UInt8.toNat_ofNat', Nat.mod_eq_of_lt hlt]
  omega

theorem length_encode (upper : ℕ → Bool) (bytes : List UInt8) :
    (encode upper bytes).length = 2 * bytes.length := by
  induction bytes generalizing upper with
  | nil => rfl
  | cons b bytes ih =>
      rw [encode, List.length_cons, List.length_cons, ih, List.length_cons]
      omega

theorem isHexDigit_of_mem_encode {upper : ℕ → Bool} {bytes : List UInt8} {c : UInt8}
    (h : c ∈ encode upper bytes) : IsHexDigit c := by
  induction bytes generalizing upper with
  | nil => exact absurd h List.not_mem_nil
  | cons b bytes ih =>
      have hb : b.toNat < 256 := b.toNat_lt
      rcases List.mem_cons.mp h with rfl | h
      · exact isHexDigit_hexDigit _ (by omega)
      rcases List.mem_cons.mp h with rfl | h
      · exact isHexDigit_hexDigit _ (by omega)
      · exact ih h

theorem even_length_cons_cons_iff {α : Type*} {a b : α} {l : List α} :
    Even (a :: b :: l).length ↔ Even l.length := by
  rw [List.length_cons, List.length_cons, Nat.even_add_one, Nat.even_add_one, not_not]

/-- **The encodings** are the texts of an even number of digits. -/
theorem exists_encode_iff (text : List UInt8) :
    (∃ upper bytes, text = encode upper bytes) ↔
      Even text.length ∧ ∀ c ∈ text, IsHexDigit c := by
  constructor
  · rintro ⟨upper, bytes, rfl⟩
    refine ⟨?_, fun c hc => isHexDigit_of_mem_encode hc⟩
    rw [length_encode]
    exact even_two_mul _
  · induction text using List.twoStepInduction with
    | nil => exact fun _ => ⟨fun _ => false, [], rfl⟩
    | singleton c => exact fun h => absurd h.1 Nat.not_even_one
    | cons_cons c d text ih _ =>
        rintro ⟨heven, hdigits⟩
        obtain ⟨hc, hrest⟩ := List.forall_mem_cons.mp hdigits
        obtain ⟨hd, htext⟩ := List.forall_mem_cons.mp hrest
        obtain ⟨upper, bytes, rfl⟩ := ih ⟨even_length_cons_cons_iff.mp heven, htext⟩
        obtain ⟨upper₀, m, hm, rfl⟩ := exists_hexDigit hc
        obtain ⟨upper₁, n, hn, rfl⟩ := exists_hexDigit hd
        obtain ⟨b, rfl, rfl⟩ := exists_byte hm hn
        -- the forms of the new digits come before those of the others
        refine ⟨fun i => match i with
          | 0 => upper₀
          | 1 => upper₁
          | i + 2 => upper i, b :: bytes, ?_⟩
        rw [encode]

end HexText
