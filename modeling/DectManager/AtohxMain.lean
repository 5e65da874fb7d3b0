/-
# The program `atohx`

`main` reads a line, decodes it and writes the result.  How much it writes it
computes from the length of the line, which it takes for that of a text and a
newline; what `atohx` returns it does not look at.

* `atohxMain_line`: what the program writes for a line.
* `line_decoded_iff`: it writes the decoded line, or for other lines nothing that
  was not decoded, exactly when the characters that stand for the output are
  accepted, and a line of hexadecimal text has its newline.
-/
import DectManager.Atohx
import DectManager.Blocks
import Mathlib.Data.List.TakeWhile

namespace DectManager

open HexText

/-! ## `main` -/

/-- `BUF_SIZE` -/
def bufSize : ℕ := 1000

def newline : UInt8 := 0x0a

/-- The characters that `fgets` stores before the terminator: up to the first newline,
which is stored too, and at most `size - 1`. -/
def fgets (size : ℕ) (stdin : List UInt8) : List UInt8 :=
  (stdin.take ((stdin.takeWhile fun c => c ≠ newline).length + 1)).take (size - 1)

/-- `strlen` of an array that holds the characters and a terminator. -/
def strlen (chars : List UInt8) : ℕ := (chars.takeWhile fun c => c ≠ 0).length

/-- What `main` writes to standard output, where `garbage` is what `s` holds before; a
byte that has not been set is `none`.  The result is `none` if the call of `atohx` has
not returned after `fuel` turns or has written past the end of `o`, or if `fgets` has
left `s` as it was. -/
def atohxMain (fuel : ℕ) (stdin : List UInt8) (garbage : ℕ → UInt8) : Option Block :=
  if stdin = [] then none
  else
    let s := fgets bufSize stdin
    let len := strlen s
    ((atohx fuel).run fun i => (s ++ [0]).getD i (garbage i)).bind fun r =>
      (Block.store 0 r.dst (Block.malloc bufSize)).map fun o => o.take ((len - 1) / 2)

/-! ## Decoded bytes -/

/-- The output `o` at place `i` was decoded from the pair of characters there. -/
def DecodedAt (chars : List UInt8) (i : ℕ) (o : Option UInt8) : Prop :=
  ∃ c d msb lsb, chars[2 * i]? = some c ∧ chars[2 * i + 1]? = some d ∧
    nibble c = some msb ∧ nibble d = some lsb ∧ o = some (pairByte msb lsb)

/-- The bytes come from the pairs. -/
theorem decodedAt_of_dst {chars : List UInt8} {i : ℕ} {b : UInt8}
    (h : (decode chars).dst[i]? = some b) : DecodedAt chars i (some b) := by
  induction chars using List.twoStepInduction generalizing i with
  | nil => exact absurd h (by simp [decode])
  | singleton c => exact absurd h (by simp [decode])
  | cons_cons c d chars ih _ =>
      rcases decode_cons_cons c d chars with ⟨msb, lsb, hc, hd, hdecode⟩ | ⟨-, hdecode⟩
      · rw [hdecode] at h
        cases i with
        | zero => exact ⟨c, d, msb, lsb, rfl, rfl, hc, hd, h.symm⟩
        | succ i => exact ih h
      · rw [hdecode] at h
        exact absurd h (by simp)

/-- The newline is rejected. -/
theorem nibble_newline : nibble newline = none := by decide

/-- So it does not change what is decoded before. -/
theorem dst_decode_newline (chars : List UInt8) :
    (decode (chars ++ [newline])).dst = (decode chars).dst := by
  induction chars using List.twoStepInduction with
  | nil => rfl
  | singleton c =>
      show (decode [c, newline]).dst = []
      rw [decode, nibble_newline]
      cases nibble c <;> rfl
  | cons_cons c d chars ih _ =>
      rw [List.cons_append, List.cons_append, decode, decode]
      cases nibble c with
      | none => rfl
      | some msb =>
          cases nibble d with
          | none => rfl
          | some lsb => exact congrArg (List.cons _) ih

/-! ## Lines -/

/-- The characters of a line that fits into the buffer with its newline. -/
structure Line where
  chars : List UInt8
  zero_notMem : 0 ∉ chars
  newline_notMem : newline ∉ chars
  length_le : chars.length ≤ bufSize - 2

namespace Line

/-- The input that begins with the line: with a newline and what comes after it, or
without. -/
def stdin (l : Line) : Option (List UInt8) → List UInt8
  | some rest => l.chars ++ newline :: rest
  | none => l.chars

/-- What is stored of it. -/
def text (l : Line) : Option (List UInt8) → List UInt8
  | some _ => l.chars ++ [newline]
  | none => l.chars

/-- How many bytes `main` writes. -/
def written (l : Line) (rest : Option (List UInt8)) : ℕ := ((l.text rest).length - 1) / 2

/-- The line is the encoding of some bytes. -/
def IsHex (l : Line) : Prop := Even l.chars.length ∧ ∀ c ∈ l.chars, IsHexDigit c

theorem zero_notMem_text (l : Line) (rest : Option (List UInt8)) : 0 ∉ l.text rest := by
  cases rest with
  | none => exact l.zero_notMem
  | some rest =>
      intro h
      rcases List.mem_append.mp h with h | h
      · exact l.zero_notMem h
      · exact absurd (List.mem_singleton.mp h) (by decide)

/-- The string that `atohx` is called with. -/
def toCString (l : Line) (rest : Option (List UInt8)) : CString :=
  ⟨l.text rest, l.zero_notMem_text rest⟩

/-- `fgets` stores the line. -/
theorem fgets_stdin (l : Line) (rest : Option (List UInt8)) :
    fgets bufSize (l.stdin rest) = l.text rest := by
  have hle := l.length_le
  have hline : ∀ c ∈ l.chars, decide (c ≠ newline) = true := fun c hc =>
    decide_eq_true fun h => l.newline_notMem (h ▸ hc)
  unfold fgets
  cases rest with
  | none =>
      rw [stdin, text, List.takeWhile_eq_self_iff.mpr hline,
        List.take_of_length_le (Nat.le_succ _), List.take_of_length_le (by omega)]
  | some rest =>
      have hend : (l.chars ++ newline :: rest).takeWhile (fun c => c ≠ newline) = l.chars := by
        rw [List.takeWhile_append_of_pos hline, List.takeWhile_cons_of_neg (by simp),
          List.append_nil]
      have hstored : (l.chars ++ newline :: rest).take (l.chars.length + 1) =
          l.chars ++ [newline] := by
        rw [List.take_append, List.take_of_length_le (Nat.le_succ _), Nat.add_sub_cancel_left]
        rfl
      have hfit : (l.chars ++ [newline]).length ≤ bufSize - 1 := by
        rw [List.length_append, List.length_singleton]
        unfold bufSize at *
        omega
      rw [stdin, text, hend, hstored, List.take_of_length_le hfit]

theorem strlen_text (l : Line) (rest : Option (List UInt8)) :
    strlen (l.text rest) = (l.text rest).length := by
  rw [strlen, List.takeWhile_eq_self_iff.mpr]
  exact fun c hc => decide_eq_true fun h => l.zero_notMem_text rest (h ▸ hc)

/-- The line ends in the middle of the buffer. -/
theorem length_text (l : Line) (rest : Option (List UInt8)) :
    (l.text rest).length = l.chars.length + if rest.isSome then 1 else 0 := by
  cases rest with
  | none => rfl
  | some rest => exact List.length_append

end Line

/-! ## What is written -/

namespace Line

theorem dst_decode_text (l : Line) (rest : Option (List UInt8)) :
    (decode (l.text rest)).dst = (decode l.chars).dst := by
  cases rest with
  | none => rfl
  | some rest => exact dst_decode_newline l.chars

/-- The pairs that stand for the output lie in the line. -/
theorem two_mul_written_le (l : Line) (rest : Option (List UInt8)) :
    2 * l.written rest ≤ l.chars.length := by
  rw [written, length_text]
  split_ifs <;> omega

/-- The output fits. -/
theorem written_le (l : Line) (rest : Option (List UInt8)) : l.written rest ≤ bufSize := by
  have hle := l.length_le
  have htwo := l.two_mul_written_le rest
  omega

/-- The bytes that `main` writes: those that were decoded, as many as it takes there to
be, and bytes that have not been set where there are fewer. -/
def output (l : Line) (rest : Option (List UInt8)) : Block :=
  ((decode l.chars).dst.map some ++
    Block.malloc (bufSize - (decode l.chars).dst.length)).take (l.written rest)

theorem length_dst_le (l : Line) : (decode l.chars).dst.length ≤ bufSize := by
  have hdst := length_dst_decode_le l.chars
  have hle := l.length_le
  omega

theorem length_output (l : Line) (rest : Option (List UInt8)) :
    (l.output rest).length = l.written rest := by
  have hle := l.written_le rest
  have hdst := l.length_dst_le
  rw [output, List.length_take, List.length_append, List.length_map, Block.malloc,
    List.length_replicate]
  omega

/-- Enough was decoded, and only decoded bytes are written. -/
theorem output_of_le {l : Line} {rest : Option (List UInt8)}
    (h : l.written rest ≤ (decode l.chars).dst.length) :
    l.output rest = ((decode l.chars).dst.take (l.written rest)).map some := by
  rw [output, List.take_append_of_le_length, List.map_take]
  rw [List.length_map]
  exact h

/-- Too little was decoded, and the byte behind it has not been set. -/
theorem output_of_lt {l : Line} {rest : Option (List UInt8)}
    (h : (decode l.chars).dst.length < l.written rest) :
    (l.output rest)[(decode l.chars).dst.length]? = some none := by
  have hle := l.written_le rest
  rw [output, List.getElem?_take_of_lt h, List.getElem?_append_right, List.length_map,
    Nat.sub_self, Block.malloc, List.getElem?_replicate, if_pos (by omega)]
  rw [List.length_map]

end Line

/-- **The program**, for any line but the empty one, writes `Line.output`. -/
theorem atohxMain_line {l : Line} {rest : Option (List UInt8)} (h : l.text rest ≠ [])
    (garbage : ℕ → UInt8) :
    ∃ n, ∀ fuel, n ≤ fuel →
      atohxMain fuel (l.stdin rest) garbage = some (l.output rest) := by
  have hne : l.stdin rest ≠ [] := by
    cases rest with
    | none => exact h
    | some rest => exact List.append_ne_nil_of_right_ne_nil _ (List.cons_ne_nil _ _)
  obtain ⟨n, hn⟩ := returns_decode (l.toCString rest) garbage
  refine ⟨n, fun fuel hfuel => ?_⟩
  have hcall : (atohx fuel).run (fun i => (l.text rest ++ [0]).getD i (garbage i)) =
      some (decode (l.text rest)) := hn fuel hfuel
  have hstore : Block.store 0 (decode l.chars).dst (Block.malloc bufSize) =
      some ((decode l.chars).dst.map some ++
        Block.malloc (bufSize - (decode l.chars).dst.length)) := by
    have h := Block.store_next [] (decode l.chars).dst
      (bufSize - (decode l.chars).dst.length) rfl
    rw [Nat.add_sub_cancel' l.length_dst_le] at h
    exact h
  rw [atohxMain, if_neg hne, l.fgets_stdin]
  simp only [l.strlen_text, hcall, Option.bind_some, l.dst_decode_text, hstore, Option.map_some]
  rfl

/-- For a line that is the encoding of some bytes, `main` writes these, and for any other
only bytes that were decoded from a pair of the line, whatever the buffer held before. -/
def WritesDecoded (l : Line) (rest : Option (List UInt8)) : Prop :=
  ∀ garbage, ∃ out,
    (∃ n, ∀ fuel, n ≤ fuel → atohxMain fuel (l.stdin rest) garbage = some out) ∧
      (∀ upper bytes, l.chars = encode upper bytes → out = bytes.map some) ∧
      (¬ l.IsHex → ∀ i o, out[i]? = some o → DecodedAt l.chars i o)

/-- It is a property of `Line.output`. -/
theorem writesDecoded_iff_output {l : Line} {rest : Option (List UInt8)} (h : l.text rest ≠ []) :
    WritesDecoded l rest ↔
      (∀ upper bytes, l.chars = encode upper bytes → l.output rest = bytes.map some) ∧
        (¬ l.IsHex → ∀ i o, (l.output rest)[i]? = some o → DecodedAt l.chars i o) := by
  constructor
  · intro hwrites
    obtain ⟨out, hout, hspec⟩ := hwrites fun _ => 0
    obtain rfl := eq_of_fuel hout (atohxMain_line h fun _ => 0)
    exact hspec
  · exact fun hspec garbage => ⟨l.output rest, atohxMain_line h garbage, hspec⟩

/-- Without a newline, the last character of a line does not stand for any output. -/
theorem written_lt {l : Line} (h : l.text none ≠ []) :
    2 * l.written none < l.chars.length := by
  have hpos : 0 < l.chars.length := List.length_pos_of_ne_nil h
  show 2 * ((l.chars.length - 1) / 2) < l.chars.length
  omega

/-- With a newline, all characters do if they are pairs. -/
theorem two_mul_written {l : Line} (rest : List UInt8) (heven : Even l.chars.length) :
    2 * l.written (some rest) = l.chars.length := by
  obtain ⟨m, hm⟩ := heven
  rw [Line.written, l.length_text]
  show 2 * ((l.chars.length + 1 - 1) / 2) = l.chars.length
  omega

/-- **`main` writes the decoded line**, or nothing that was not decoded, exactly when the
characters that stand for the output are accepted, and the line has a newline if it is
hexadecimal text. -/
theorem line_decoded_iff (l : Line) (rest : Option (List UInt8)) (h : l.text rest ≠ []) :
    WritesDecoded l rest ↔
      (∀ c ∈ l.chars.take (2 * l.written rest), IsHexDigit c ∨ BetweenCases c) ∧
        (rest = none → ¬ l.IsHex) := by
  have hfar : l.written rest ≤ (decode l.chars).dst.length ↔
      ∀ c ∈ l.chars.take (2 * l.written rest), IsHexDigit c ∨ BetweenCases c := by
    rw [le_length_dst_iff, and_iff_right (l.two_mul_written_le rest)]
    exact forall₂_congr fun c _ => isSome_nibble_iff c
  rw [writesDecoded_iff_output h, ← hfar]
  constructor
  · rintro ⟨hhex, hother⟩
    by_cases htext : l.IsHex
    · obtain ⟨upper, bytes, hbytes⟩ := (exists_encode_iff l.chars).mpr htext
      have hlength := congrArg List.length (hhex upper bytes hbytes)
      rw [l.length_output, List.length_map] at hlength
      constructor
      · rw [hbytes, decode_encode]
        exact hlength.le
      · rintro rfl -
        have hlt := written_lt h
        rw [hbytes, length_encode, hlength] at hlt
        exact absurd hlt (lt_irrefl _)
    · refine ⟨Nat.le_of_not_lt fun hlt => ?_, fun _ => htext⟩
      -- a byte that has not been set was not decoded
      obtain ⟨c, d, msb, lsb, -, -, -, -, hnone⟩ := hother htext _ _ (l.output_of_lt hlt)
      exact absurd hnone (by simp)
  · rintro ⟨hle, hnewline⟩
    constructor
    · intro upper bytes hbytes
      have htext : l.IsHex := (exists_encode_iff l.chars).mp ⟨upper, bytes, hbytes⟩
      cases rest with
      | none => exact absurd htext (hnewline rfl)
      | some rest =>
          have hall := two_mul_written rest htext.1
          rw [hbytes, length_encode] at hall
          rw [Line.output_of_le hle, hbytes, decode_encode, List.take_of_length_le]
          show bytes.length ≤ _
          omega
    · intro _ i o ho
      rw [Line.output_of_le hle, List.getElem?_map, Option.map_eq_some_iff] at ho
      obtain ⟨b, hb, rfl⟩ := ho
      rw [List.getElem?_take] at hb
      split_ifs at hb with hi
      exact decodedAt_of_dst hb

/-- The line "41" is decoded if a newline ends it. -/
theorem line_with_newline_decoded :
    WritesDecoded ⟨[0x34, 0x31], by decide, by decide, by decide⟩ (some []) := by
  have hdigits : ∀ c ∈ ([0x34, 0x31] : List UInt8), IsHexDigit c ∨ BetweenCases c :=
    List.forall_mem_cons.mpr ⟨by decide, List.forall_mem_singleton.mpr (by decide)⟩
  exact (line_decoded_iff _ _ (by decide)).mpr ⟨hdigits, fun h => absurd h (by simp)⟩

/-- Without a newline nothing is written for it.  And for the line "4x41" two bytes are
written that have not been set. -/
theorem line_not_decoded :
    ¬ WritesDecoded ⟨[0x34, 0x31], by decide, by decide, by decide⟩ none ∧
      ¬ WritesDecoded ⟨[0x34, 0x78, 0x34, 0x31], by decide, by decide, by decide⟩ (some []) := by
  constructor
  · intro h
    have hhex := ((writesDecoded_iff_output (by decide)).mp h).1 (fun _ => false) [0x41] rfl
    exact absurd hhex (by decide)
  · intro h
    have hnot : ¬ Line.IsHex ⟨[0x34, 0x78, 0x34, 0x31], by decide, by decide, by decide⟩ :=
      fun hhex => absurd (hhex.2 0x78 (by decide)) (by decide)
    have hother := ((writesDecoded_iff_output (by decide)).mp h).2 hnot 0 none rfl
    obtain ⟨c, d, msb, lsb, -, -, -, -, hnone⟩ := hother
    exact absurd hnone (by simp)

end DectManager
