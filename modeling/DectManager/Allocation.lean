/-
# The allocation behind the packet

The size of the allocation at `info->pkt` is nowhere in the program: it is that
of a `packet_t` after `calloc`, the packet's own after `realloc`, and which of
the two happened last depends on the headers read.  `Tracked` keeps it beside
the reader, and `readCopies` lists the copies into the packet that one call of
`packet_read` makes, each with the allocation it goes to; the copies are made
even if the process ends later in the call.

* `reader_of_tracked_run`: the bookkeeping does not disturb the reader.
* `copies_in_bounds`: on any connection, however the stream is cut and whatever
  its headers say, every copy stays inside the allocation, and the size that is
  kept for the allocation is that of the reader's packet.
-/
import DectManager.Framing

namespace DectManager

open PartialRun

/-! ## Copies -/

/-- A copy of `evbuffer_remove` into the packet, and the size of the allocation
that it goes to. -/
inductive Copy
  /-- `sizeof(packet_header_t)` bytes to the start of the packet -/
  | header (allocated : ℕ)
  /-- `size - sizeof(packet_header_t)` bytes to `data` -/
  | body (size : UInt32) (allocated : ℕ)
  deriving DecidableEq, Repr

/-- The copy stays inside the allocation; and a body is copied only if the size
allows for a header. -/
def Copy.Safe : Copy → Prop
  | header allocated => sizeofHeader ≤ allocated
  | body size allocated => sizeofHeader ≤ size.toNat ∧ sizeofHeader + bodyLength size ≤ allocated

/-- A reader and the size of the allocation at `info->pkt`. -/
structure Tracked where
  reader : Reader
  allocated : ℕ

/-- The allocation after a header: `realloc` if the packet is larger than a
`packet_t`. -/
def grown (size : UInt32) (allocated : ℕ) : ℕ :=
  if size.toNat > sizeofPacket then size.toNat else allocated

/-- The loop of `packet_read` with the copies it makes; `none` if the process
ends. -/
def readCopiesLoop (heap : Heap) : ℕ → Tracked → List Copy × Option Tracked
  | 0, t => ([], some t)
  | fuel + 1, t =>
    if t.reader.pkt.size = 0 ∧ sizeofHeader ≤ t.reader.input.length then
      match removeHeader heap t.reader with
      | none => ([.header t.allocated], none)
      | some r =>
        let allocated := grown r.pkt.size t.allocated
        if bodyLength r.pkt.size ≤ r.input.length then
          -- the packet is freed and a new one allocated
          let rest := readCopiesLoop heap fuel ⟨(removeBody r).1, sizeofPacket⟩
          (.header t.allocated :: .body r.pkt.size allocated :: rest.1, rest.2)
        else ([.header t.allocated], some ⟨r, allocated⟩)
    else ([], some t)

/-- A piece of the stream arrives and `packet_read` is called. -/
def readCopies (heap : Heap) (t : Tracked) (piece : List UInt8) : List Copy × Option Tracked :=
  readCopiesLoop heap (t.reader.receive piece).input.length
    ⟨t.reader.receive piece, t.allocated⟩

/-- The connection after a callback. -/
def deliverTracked (heap : Heap) (t : Tracked) (piece : List UInt8) : Option Tracked :=
  (readCopies heap t piece).2

/-- After `do_accept`. -/
def Tracked.fresh : Tracked := ⟨.fresh, sizeofPacket⟩

/-! ## The bookkeeping does not disturb the reader -/

/-- The loop reads what `packet_read` reads. -/
theorem reader_readCopiesLoop (heap : Heap) (fuel : ℕ) (t : Tracked) :
    (readCopiesLoop heap fuel t).2.map Tracked.reader =
      (packetReadLoop heap fuel t.reader).map Prod.fst := by
  induction fuel generalizing t with
  | zero => rfl
  | succ fuel ih =>
      rw [readCopiesLoop, packetReadLoop]
      split_ifs with hturn
      · cases removeHeader heap t.reader with
        | none => rfl
        | some r =>
            simp only [Option.bind_some]
            split_ifs with hbody
            · rw [ih, Option.map_map]
              rfl
            · rfl
      · rfl

/-- One callback. -/
theorem reader_deliverTracked (heap : Heap) (t : Tracked) (piece : List UInt8) (ps : List Packet) :
    (deliverTracked heap t piece).map Tracked.reader =
      (deliver heap (t.reader, ps) piece).map Prod.fst := by
  rw [deliverTracked, readCopies, reader_readCopiesLoop, deliver, Option.map_map]
  rfl

/-- **The bookkeeping does not disturb the reader**, and restricts no stream. -/
theorem reader_of_tracked_run (heap : Heap) (pieces : List (List UInt8)) :
    (run (deliverTracked heap) .fresh pieces).map Tracked.reader =
      (deliverAll heap pieces).map Prod.fst := by
  induction pieces using List.reverseRecOn with
  | nil => rfl
  | append_singleton pieces piece ih =>
      rw [deliverAll] at ih
      rw [deliverAll, run_concat, run_concat]
      cases ht : run (deliverTracked heap) .fresh pieces with
      | none =>
          rw [ht, Option.map_none, eq_comm, Option.map_eq_none_iff] at ih
          rw [ih]
          rfl
      | some t =>
          rw [ht, Option.map_some, eq_comm, Option.map_eq_some_iff] at ih
          obtain ⟨⟨r, ps⟩, hs, rfl⟩ := ih
          rw [hs]
          exact reader_deliverTracked heap t piece ps

/-! ## The allocation is what the headers have made it -/

/-- The allocation ends with the packet's data, and is that of a `packet_t` as
long as no header has been seen. -/
structure Tracked.Sized (t : Tracked) : Prop where
  allocated : t.allocated = sizeofHeader + t.reader.pkt.data.length
  unseen : t.reader.pkt.size = 0 → t.allocated = sizeofPacket

theorem sized_fresh : Tracked.fresh.Sized := ⟨rfl, fun _ => rfl⟩

/-- After a dispatch the packet is a new one. -/
theorem sized_removeBody (r : Reader) : Tracked.Sized ⟨(removeBody r).1, sizeofPacket⟩ :=
  ⟨rfl, fun _ => rfl⟩

/-- **A header** fits into the packet, and the allocation that it leaves holds a
packet of its size. -/
theorem sized_removeHeader {heap : Heap} {t : Tracked} {r : Reader} (h : t.Sized)
    (hsize : t.reader.pkt.size = 0) (hr : removeHeader heap t.reader = some r) :
    Tracked.Sized ⟨r, grown r.pkt.size t.allocated⟩ ∧
      r.pkt.size.toNat ≤ grown r.pkt.size t.allocated := by
  have hallocated := h.unseen hsize
  have hdata := h.allocated
  unfold removeHeader at hr
  simp only at hr
  split_ifs at hr with hbig
  · -- the packet grows to its size
    obtain ⟨added, -, rfl⟩ := Option.map_eq_some_iff.mp hr
    have hgrown : grown (word t.reader.input) t.allocated = (word t.reader.input).toNat :=
      if_pos hbig
    refine ⟨⟨?_, fun h0 => ?_⟩, hgrown.ge⟩
    · show grown (word t.reader.input) t.allocated = _
      simp only [hgrown, List.length_append, List.length_map, List.length_range]
      omega
    · have hzero : (word t.reader.input).toNat = 0 := congrArg UInt32.toNat h0
      omega
  · obtain rfl := Option.some.inj hr
    have hgrown : grown (word t.reader.input) t.allocated = t.allocated := if_neg hbig
    refine ⟨⟨hgrown.trans hdata, fun _ => hgrown.trans hallocated⟩, ?_⟩
    show (word t.reader.input).toNat ≤ grown (word t.reader.input) t.allocated
    rw [hgrown, hallocated]
    exact not_lt.mp hbig

/-- A header goes to an allocation that holds at least a header. -/
theorem header_safe {t : Tracked} (h : t.Sized) : (Copy.header t.allocated).Safe := by
  show sizeofHeader ≤ t.allocated
  rw [h.allocated]
  exact Nat.le_add_right _ _

/-- A body that is in the buffer goes to an allocation of its packet's size.  The
buffer is too short for a length that has wrapped around. -/
theorem body_safe {size : UInt32} {allocated n : ℕ} (hle : size.toNat ≤ allocated)
    (hbody : bodyLength size ≤ n) (hn : n < 2 ^ 32 - sizeofHeader) :
    (Copy.body size allocated).Safe := by
  have hroom : sizeofHeader ≤ size.toNat := by
    by_contra hsmall
    have hlong := bodyLength_of_lt (not_le.mp hsmall)
    omega
  exact ⟨hroom, (bodyLength_of_le hroom).trans_le hle⟩

/-- **The loop** keeps the allocation, and if the buffer is shorter than
`2 ^ 32 - 8` bytes its copies stay inside it. -/
theorem sized_readCopiesLoop {heap : Heap} (fuel : ℕ) {t : Tracked} (h : t.Sized) :
    (∀ t', (readCopiesLoop heap fuel t).2 = some t' → t'.Sized) ∧
      (t.reader.input.length < 2 ^ 32 - sizeofHeader →
        ∀ c ∈ (readCopiesLoop heap fuel t).1, c.Safe) := by
  induction fuel generalizing t with
  | zero =>
      refine ⟨fun t' ht' => ?_, fun _ c hc => absurd hc List.not_mem_nil⟩
      obtain rfl := Option.some.inj ht'
      exact h
  | succ fuel ih =>
      rw [readCopiesLoop]
      split_ifs with hturn
      · have hheader := header_safe h
        cases hr : removeHeader heap t.reader with
        | none =>
            -- the process has ended
            refine ⟨fun t' ht' => ?_, fun _ => List.forall_mem_singleton.mpr hheader⟩
            cases ht'
        | some r =>
            obtain ⟨hsized, hle⟩ := sized_removeHeader h hturn.1 hr
            have hlt : r.input.length ≤ t.reader.input.length := by
              rw [input_removeHeader hr, List.length_drop]
              exact Nat.sub_le _ _
            simp only
            split_ifs with hbody
            · obtain ⟨hrun, hcopies⟩ := ih (sized_removeBody r)
              refine ⟨hrun, fun hlen => ?_⟩
              have hfits := body_safe hle hbody (hlt.trans_lt hlen)
              have hrest : (removeBody r).1.input.length < 2 ^ 32 - sizeofHeader := by
                simp only [removeBody, List.length_drop]
                omega
              rw [List.forall_mem_cons, List.forall_mem_cons]
              exact ⟨hheader, hfits, hcopies hrest⟩
            · refine ⟨fun t' ht' => ?_, fun _ => List.forall_mem_singleton.mpr hheader⟩
              obtain rfl := Option.some.inj ht'
              exact hsized
      · refine ⟨fun t' ht' => ?_, fun _ c hc => absurd hc List.not_mem_nil⟩
        obtain rfl := Option.some.inj ht'
        exact h

/-- A piece that arrives does not move the packet. -/
theorem sized_receive {t : Tracked} (h : t.Sized) (piece : List UInt8) :
    Tracked.Sized ⟨t.reader.receive piece, t.allocated⟩ :=
  ⟨h.allocated, h.unseen⟩

/-- The allocation after any deliveries. -/
theorem sized_run (heap : Heap) :
    ∀ pieces t, run (deliverTracked heap) .fresh pieces = some t → t.Sized := by
  refine run_induction (P := fun _ (t : Tracked) => t.Sized) sized_fresh ?_
  intro _ t piece t' _ ht hstep
  exact (sized_readCopiesLoop _ (sized_receive ht piece)).1 t' hstep

/-- **The copies stay inside the packet.**  On any connection, after any
deliveries that have not ended the process, one more callback copies every
header and every body into the allocation that the packet has at that time, and
no body of a size below that of a header; and the size that is kept beside the
reader is that of its packet, before the callback and after it.  The stream,
where it is cut and what `realloc` does are arbitrary; only the buffer is shorter
than `2 ^ 32 - 8` bytes. -/
theorem copies_in_bounds (heap : Heap) (pieces : List (List UInt8)) (t : Tracked)
    (piece : List UInt8) (hrun : run (deliverTracked heap) .fresh pieces = some t)
    (hlen : (t.reader.input ++ piece).length < 2 ^ 32 - sizeofHeader) :
    (∀ c ∈ (readCopies heap t piece).1, c.Safe) ∧
      t.allocated = sizeofHeader + t.reader.pkt.data.length ∧
      ∀ t', (readCopies heap t piece).2 = some t' →
        t'.allocated = sizeofHeader + t'.reader.pkt.data.length := by
  have hsized := sized_run heap pieces t hrun
  obtain ⟨hnext, hcopies⟩ := @sized_readCopiesLoop heap
    (t.reader.receive piece).input.length _ (sized_receive hsized piece)
  exact ⟨hcopies hlen, hsized.allocated, fun t' ht' => (hnext t' ht').allocated⟩

/-- A packet of 109 bytes and an empty header; then a packet of 9 bytes, and a
header whose size is below its own. -/
theorem short_header_copies_in_bounds :
    ∃ t, run (deliverTracked .ample) .fresh
        [headerBytes 109 5 ++ List.replicate 101 255, headerBytes 0 5] = some t ∧
      (readCopies .ample t (headerBytes 9 5 ++ 1 :: headerBytes 3 5)).1 =
        [.header 108, .body 9 108, .header 108] ∧
      ∀ c ∈ (readCopies .ample t (headerBytes 9 5 ++ 1 :: headerBytes 3 5)).1, c.Safe := by
  refine ⟨_, rfl, by decide, ?_⟩
  exact (copies_in_bounds .ample
    [headerBytes 109 5 ++ List.replicate 101 255, headerBytes 0 5] _
    (headerBytes 9 5 ++ 1 :: headerBytes 3 5) rfl (by decide)).1

end DectManager
