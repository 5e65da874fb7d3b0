/-
# The packet reader `packet_read`

Every connection of the manager has an input buffer and a packet under
construction, `info->pkt`.  The callback `packet_read` removes a header as soon
as its eight bytes are there, removes the body if it is there too, dispatches
the packet and starts again; a packet whose `size` is set stands for "header
seen".  `none` is a call of `exit_failure`.

Machine words are read in the order of the host (little endian here; both ends
of every connection run on the same host), and `size_t` has 32 bits, so that
`size - sizeof(packet_header_t)` wraps around modulo `2 ^ 32`.
-/
import DectManager.DectHeader

namespace DectManager

/-! ## Words -/

/-- The bytes of a 32-bit word in memory. -/
def wordBytes (x : UInt32) : List UInt8 :=
  [.ofNat x.toNat, .ofNat (x.toNat / 2 ^ 8), .ofNat (x.toNat / 2 ^ 16), .ofNat (x.toNat / 2 ^ 24)]

/-- The 32-bit word in the first four bytes. -/
def word : List UInt8 → UInt32
  | a :: b :: c :: d :: _ =>
    .ofNat (a.toNat + b.toNat * 2 ^ 8 + c.toNat * 2 ^ 16 + d.toNat * 2 ^ 24)
  | _ => 0

@[simp] theorem length_wordBytes (x : UInt32) : (wordBytes x).length = 4 := rfl

/-- A word is read back from its bytes. -/
theorem word_wordBytes (x : UInt32) (rest : List UInt8) : word (wordBytes x ++ rest) = x := by
  have hx := x.toNat_lt
  apply UInt32.toNat_inj.mp
  simp only [wordBytes, List.cons_append, word, UInt8.toNat_ofNat', UInt32.toNat_ofNat']
  omega

/-! ## The reader's state -/

/-- `packet_t` as it lies in an allocation: the header and all the bytes from
`data` on. -/
structure Packet where
  size : UInt32
  type : UInt32
  data : List UInt8
  deriving DecidableEq, Repr

/-- `size - sizeof(packet_header_t)` -/
def bodyLength (size : UInt32) : ℕ := (size - 8).toNat

/-- The size word of a header that allows for the header. -/
theorem bodyLength_of_le {size : UInt32} (h : sizeofHeader ≤ size.toNat) :
    sizeofHeader + bodyLength size = size.toNat := by
  have hle : (8 : UInt32) ≤ size := UInt32.le_iff_toNat_le.mpr h
  rw [bodyLength, UInt32.toNat_sub_of_le _ _ hle]
  exact Nat.add_sub_cancel' h

/-- For a smaller size word the subtraction wraps around, and the body would be
longer than any buffer. -/
theorem bodyLength_of_lt {size : UInt32} (h : size.toNat < sizeofHeader) :
    2 ^ 32 - sizeofHeader ≤ bodyLength size := by
  have hsub : bodyLength size = (2 ^ 32 - 8 + size.toNat) % 2 ^ 32 := UInt32.toNat_sub size 8
  unfold sizeofHeader at h ⊢
  rw [hsub, Nat.mod_eq_of_lt (by omega)]
  exact Nat.le_add_right _ _

namespace Packet

/-- `calloc(sizeof(packet_t), 1)` -/
def calloc : Packet := ⟨0, 0, List.replicate pktDataSize 0⟩

/-- Copy a body to `data`. -/
def fill (body : List UInt8) (p : Packet) : Packet :=
  { p with data := body ++ p.data.drop body.length }

/-- The bytes of the frame behind its header. -/
def payload (p : Packet) : List UInt8 := p.data.take (bodyLength p.size)

end Packet

/-- The allocator as the reader sees it: what the `n`-th call of `realloc` does
with a request for some bytes.  `none` is a failure; otherwise the bytes that it
adds hold anything. -/
structure Heap where
  realloc : ℕ → ℕ → Option (ℕ → UInt8)

/-- What `packet_read` knows of a connection, and how often it has called
`realloc`. -/
structure Reader where
  input : List UInt8
  pkt : Packet
  reallocs : ℕ

/-- The reader of a new connection. -/
def Reader.fresh : Reader := ⟨[], .calloc, 0⟩

/-! ## `packet_read` -/

/-- `evbuffer_remove` of a header, and `realloc` if the packet is larger than a
`packet_t`. -/
def removeHeader (heap : Heap) (r : Reader) : Option Reader :=
  let size := word r.input
  let type := word (r.input.drop 4)
  let input := r.input.drop sizeofHeader
  if size.toNat > sizeofPacket then
    -- the old bytes are kept, the added ones are not set
    (heap.realloc r.reallocs size.toNat).map fun added =>
      { input := input
        pkt := ⟨size, type, r.pkt.data ++ (List.range (size.toNat - sizeofPacket)).map added⟩
        reallocs := r.reallocs + 1 }
  else some { r with input := input, pkt := ⟨size, type, r.pkt.data⟩ }

/-- `evbuffer_remove` of a body. -/
def removeBody (r : Reader) : Reader × Packet :=
  let n := bodyLength r.pkt.size
  ({ r with input := r.input.drop n, pkt := .calloc }, r.pkt.fill (r.input.take n))

/-- The loop of `packet_read`: the reader it leaves and the packets it
dispatches. -/
def packetReadLoop (heap : Heap) : ℕ → Reader → Option (Reader × List Packet)
  | 0, r => some (r, [])
  | fuel + 1, r =>
    if r.pkt.size = 0 ∧ sizeofHeader ≤ r.input.length then
      (removeHeader heap r).bind fun r =>
        if bodyLength r.pkt.size ≤ r.input.length then
          (packetReadLoop heap fuel (removeBody r).1).map fun s => (s.1, (removeBody r).2 :: s.2)
        -- the header stays behind in `pkt`, so the loop is not entered again
        else some (r, [])
    else some (r, [])

/-- Every turn removes a header, so there are at most as many as bytes. -/
def packetRead (heap : Heap) (r : Reader) : Option (Reader × List Packet) :=
  packetReadLoop heap r.input.length r

/-! ## The fuel suffices -/

theorem input_removeHeader {heap : Heap} {r r' : Reader} (h : removeHeader heap r = some r') :
    r'.input = r.input.drop sizeofHeader := by
  unfold removeHeader at h
  simp only at h
  split at h
  · obtain ⟨added, -, rfl⟩ := Option.map_eq_some_iff.mp h
    rfl
  · obtain rfl := Option.some.inj h
    rfl

/-- A turn leaves the input shorter. -/
theorem length_input_turn {heap : Heap} {r r' : Reader} (h : removeHeader heap r = some r')
    (hlen : sizeofHeader ≤ r.input.length) :
    (removeBody r').1.input.length < r.input.length := by
  have hpos : 0 < sizeofHeader := by decide
  simp only [removeBody, input_removeHeader h, List.length_drop]
  omega

/-- With one unit for each byte, more fuel makes no difference. -/
theorem packetReadLoop_congr (heap : Heap) {fuel fuel' : ℕ} {r : Reader}
    (h : r.input.length ≤ fuel) (h' : r.input.length ≤ fuel') :
    packetReadLoop heap fuel r = packetReadLoop heap fuel' r := by
  have hpos : 0 < sizeofHeader := by decide
  induction fuel generalizing fuel' r with
  | zero =>
      have hstop : ¬ (r.pkt.size = 0 ∧ sizeofHeader ≤ r.input.length) := by omega
      cases fuel' with
      | zero => rfl
      | succ fuel' => rw [packetReadLoop, packetReadLoop, if_neg hstop]
  | succ fuel ih =>
      by_cases hturn : r.pkt.size = 0 ∧ sizeofHeader ≤ r.input.length
      · obtain ⟨n, rfl⟩ : ∃ n, fuel' = n + 1 := Nat.exists_eq_add_one.mpr (by omega)
        rw [packetReadLoop, packetReadLoop, if_pos hturn, if_pos hturn]
        cases hhdr : removeHeader heap r with
        | none => rfl
        | some r' =>
            have hlt := length_input_turn hhdr hturn.2
            have hrest : packetReadLoop heap fuel (removeBody r').1 =
                packetReadLoop heap n (removeBody r').1 := ih (by omega) (by omega)
            simp only [Option.bind_some, hrest]
      · cases fuel' with
        | zero => rw [packetReadLoop, packetReadLoop, if_neg hturn]
        | succ fuel' => rw [packetReadLoop, packetReadLoop, if_neg hturn, if_neg hturn]

/-- **`packet_read`, one turn.** -/
theorem packetRead_eq (heap : Heap) (r : Reader) :
    packetRead heap r =
      if r.pkt.size = 0 ∧ sizeofHeader ≤ r.input.length then
        (removeHeader heap r).bind fun r =>
          if bodyLength r.pkt.size ≤ r.input.length then
            (packetRead heap (removeBody r).1).map fun s => (s.1, (removeBody r).2 :: s.2)
          else some (r, [])
      else some (r, []) := by
  rw [packetRead, packetReadLoop_congr heap le_rfl (Nat.le_succ _), packetReadLoop]
  by_cases hturn : r.pkt.size = 0 ∧ sizeofHeader ≤ r.input.length
  · rw [if_pos hturn, if_pos hturn]
    cases hhdr : removeHeader heap r with
    | none => rfl
    | some r' =>
        have hlt := length_input_turn hhdr hturn.2
        have hrest : packetReadLoop heap r.input.length (removeBody r').1 =
            packetRead heap (removeBody r').1 := packetReadLoop_congr heap (le_of_lt hlt) le_rfl
        simp only [Option.bind_some, hrest]
  · rw [if_neg hturn, if_neg hturn]

end DectManager
