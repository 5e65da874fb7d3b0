/-
# Frames and deliveries

A frame is a 32-bit size, a 32-bit type and `size - 8` payload bytes.  A
connection delivers the bytes of its frames in pieces; each delivery appends a
piece to the input buffer and runs `packet_read` once.

* `dispatch_independent_of_cuts_iff`: the packets dispatched do not depend on
  how the stream was cut exactly when no delivery ends in the body of a frame.
  There the header has been removed already, its size stays in `info->pkt`, and
  `packet_read` takes this for "no header" ever after (`deliver_stuck`).
* `header_exits_iff`: a header of any size makes `packet_read` exit exactly when
  the packet outgrows a `packet_t` and `realloc` fails for it; after a header of
  size 0 the next frame is dispatched.
-/
import DectManager.PartialRun
import DectManager.Streams
import DectManager.PacketRead

namespace DectManager

open PartialRun Streams

/-! ## Frames -/

/-- The bytes of a packet header. -/
def headerBytes (size type : UInt32) : List UInt8 := wordBytes size ++ wordBytes type

@[simp] theorem length_headerBytes (size type : UInt32) :
    (headerBytes size type).length = sizeofHeader := rfl

/-- A frame: a type and a payload whose length the size word can express. -/
structure Frame where
  type : UInt32
  payload : List UInt8
  length_lt : payload.length + sizeofHeader < 2 ^ 32

namespace Frame

/-- The size word of a frame. -/
def size (f : Frame) : UInt32 := .ofNat (f.payload.length + sizeofHeader)

/-- A frame on the wire. -/
def bytes (f : Frame) : List UInt8 := headerBytes f.size f.type ++ f.payload

/-- What a frame says. -/
def contents (f : Frame) : UInt32 × List UInt8 := (f.type, f.payload)

theorem toNat_size (f : Frame) : f.size.toNat = f.payload.length + sizeofHeader := by
  rw [size, UInt32.toNat_ofNat', Nat.mod_eq_of_lt f.length_lt]

theorem size_ne_zero (f : Frame) : f.size ≠ 0 := by
  intro h
  have hsize := f.toNat_size
  rw [h] at hsize
  simp [sizeofHeader] at hsize

theorem bodyLength_size (f : Frame) : bodyLength f.size = f.payload.length := by
  have hle : sizeofHeader ≤ f.size.toNat := by
    rw [f.toNat_size]
    exact Nat.le_add_left _ _
  have hlen := bodyLength_of_le hle
  rw [f.toNat_size] at hlen
  omega

@[simp] theorem length_bytes (f : Frame) : f.bytes.length = sizeofHeader + f.payload.length := by
  rw [bytes, List.length_append, length_headerBytes]

end Frame

/-- Frames on the wire. -/
def encode (fs : List Frame) : List UInt8 := fs.flatMap Frame.bytes

@[simp] theorem encode_nil : encode [] = [] := rfl

@[simp] theorem encode_cons (f : Frame) (fs : List Frame) :
    encode (f :: fs) = f.bytes ++ encode fs := rfl

@[simp] theorem encode_append (fs gs : List Frame) : encode (fs ++ gs) = encode fs ++ encode gs :=
  List.flatMap_append

/-- What a dispatched packet says. -/
def Packet.contents (p : Packet) : UInt32 × List UInt8 := (p.type, p.payload)

/-! ## Allocation -/

/-- How often a packet of this size makes the reader call `realloc`. -/
def grows (size : UInt32) : ℕ := if size.toNat > sizeofPacket then 1 else 0

/-- How often some frames make the reader call `realloc`. -/
def reallocCount (fs : List Frame) : ℕ := (fs.map fun f => grows f.size).sum

namespace Heap

/-- The `n`-th `realloc` fails for a packet of this size. -/
def Refuses (heap : Heap) (n : ℕ) (size : UInt32) : Prop :=
  size.toNat > sizeofPacket ∧ heap.realloc n size.toNat = none

/-- There is always memory for this frame. -/
def Serves (heap : Heap) (f : Frame) : Prop := ∀ n, (heap.realloc n f.size.toNat).isSome

/-- The frame fits into the packet that there is, or there is always memory for it. -/
def Admits (heap : Heap) (f : Frame) : Prop := ∀ n, ¬ heap.Refuses n f.size

theorem Serves.admits {heap : Heap} {f : Frame} (h : heap.Serves f) : heap.Admits f := by
  rintro n ⟨-, hnone⟩
  have hsome := h n
  simp [hnone] at hsome

end Heap

/-! ## One frame -/

/-- **Removing a header** fails exactly when the heap refuses the packet. -/
theorem removeHeader_eq_none_iff {heap : Heap} {r : Reader} {size type : UInt32}
    {rest : List UInt8} (hin : r.input = headerBytes size type ++ rest) :
    removeHeader heap r = none ↔ heap.Refuses r.reallocs size := by
  have hsize : word r.input = size := by
    rw [hin, headerBytes, List.append_assoc, word_wordBytes]
  unfold removeHeader Heap.Refuses
  simp only [hsize]
  split
  · rename_i hbig
    simp [hbig]
  · rename_i hsmall
    simp [hsmall]

/-- **Removing a header** leaves the rest of the input and a packet of that size
and type. -/
theorem removeHeader_spec {heap : Heap} {r r' : Reader} {size type : UInt32} {rest : List UInt8}
    (hin : r.input = headerBytes size type ++ rest) (h : removeHeader heap r = some r') :
    r'.input = rest ∧ r'.pkt.size = size ∧ r'.pkt.type = type ∧
      r'.reallocs = r.reallocs + grows size := by
  have hsize : word r.input = size := by
    rw [hin, headerBytes, List.append_assoc, word_wordBytes]
  have htype : word (r.input.drop 4) = type := by
    rw [hin, headerBytes, List.append_assoc]
    exact word_wordBytes type rest
  have hrest : r.input.drop sizeofHeader = rest := by
    rw [hin]
    exact List.drop_left' rfl
  unfold removeHeader at h
  simp only [hsize, htype, hrest] at h
  split at h
  · rename_i hbig
    obtain ⟨added, -, rfl⟩ := Option.map_eq_some_iff.mp h
    exact ⟨rfl, rfl, rfl, by rw [grows, if_pos hbig]⟩
  · rename_i hsmall
    obtain rfl := Option.some.inj h
    exact ⟨rfl, rfl, rfl, by rw [grows, if_neg hsmall]; rfl⟩

/-- With less than a header in the buffer nothing happens. -/
theorem packetRead_short {heap : Heap} {r : Reader} (h : r.input.length < sizeofHeader) :
    packetRead heap r = some (r, []) := by
  rw [packetRead_eq, if_neg (fun hturn => absurd hturn.2 (not_le.mpr h))]

/-- With a header removed before nothing happens, whatever is in the buffer. -/
theorem packetRead_seen {heap : Heap} {r : Reader} (h : r.pkt.size ≠ 0) :
    packetRead heap r = some (r, []) := by
  rw [packetRead_eq, if_neg (fun hturn => h hturn.1)]

/-- A frame whose header is there but whose body is not: the header is removed. -/
theorem packetRead_body_missing {heap : Heap} {r : Reader} {f : Frame} {part : List UInt8}
    (hadmits : heap.Admits f) (hfresh : r.pkt.size = 0)
    (hin : r.input = headerBytes f.size f.type ++ part) (hpart : part.length < f.payload.length) :
    ∃ r', packetRead heap r = some (r', []) ∧ r'.pkt.size ≠ 0 := by
  have hlen : sizeofHeader ≤ r.input.length := by
    rw [hin, List.length_append, length_headerBytes]
    omega
  obtain ⟨r', hr'⟩ := Option.ne_none_iff_exists'.mp
    (mt (removeHeader_eq_none_iff hin).mp (hadmits r.reallocs))
  obtain ⟨hinput, hsize, -, -⟩ := removeHeader_spec hin hr'
  refine ⟨r', ?_, ?_⟩
  · rw [packetRead_eq, if_pos ⟨hfresh, hlen⟩, hr', Option.bind_some, if_neg]
    rw [hsize, f.bodyLength_size, hinput]
    omega
  · rw [hsize]
    exact f.size_ne_zero

/-- A whole frame whose header can be removed: the loop goes on with the rest and
a zeroed packet. -/
theorem packetRead_of_removeHeader {heap : Heap} {r r' : Reader} {f : Frame} {rest : List UInt8}
    (hfresh : r.pkt.size = 0) (hin : r.input = f.bytes ++ rest)
    (hr : removeHeader heap r = some r') :
    packetRead heap r = (packetRead heap ⟨rest, .calloc, r.reallocs + grows f.size⟩).map
      fun s => (s.1, (removeBody r').2 :: s.2) := by
  have hlen : sizeofHeader ≤ r.input.length := by
    rw [hin, List.length_append, f.length_bytes]
    omega
  rw [Frame.bytes, List.append_assoc] at hin
  obtain ⟨hinput, hsize, -, hcount⟩ := removeHeader_spec hin hr
  have hbody : bodyLength r'.pkt.size = f.payload.length := by rw [hsize, f.bodyLength_size]
  have hrest : (removeBody r').1 = ⟨rest, .calloc, r.reallocs + grows f.size⟩ := by
    simp only [removeBody, hbody, hinput, List.drop_left, hcount]
  rw [packetRead_eq, if_pos ⟨hfresh, hlen⟩, hr, Option.bind_some, hrest, if_pos]
  rw [hbody, hinput, List.length_append]
  exact Nat.le_add_right _ _

/-- **One whole frame** is dispatched, and the loop goes on with the rest. -/
theorem packetRead_frame {heap : Heap} {r : Reader} {f : Frame} {rest : List UInt8}
    (hadmits : heap.Admits f) (hfresh : r.pkt.size = 0) (hin : r.input = f.bytes ++ rest) :
    ∃ r' p, packetRead heap r = (packetRead heap r').map (fun s => (s.1, p :: s.2)) ∧
      p.contents = f.contents ∧ r'.pkt.size = 0 ∧ r'.input = rest ∧
      r'.reallocs = r.reallocs + grows f.size := by
  have hin' := hin
  rw [Frame.bytes, List.append_assoc] at hin'
  obtain ⟨r₁, hr₁⟩ := Option.ne_none_iff_exists'.mp
    (mt (removeHeader_eq_none_iff hin').mp (hadmits r.reallocs))
  obtain ⟨hinput, hsize, htype, -⟩ := removeHeader_spec hin' hr₁
  refine ⟨⟨rest, .calloc, r.reallocs + grows f.size⟩, (removeBody r₁).2,
    packetRead_of_removeHeader hfresh hin hr₁, ?_, rfl, rfl, rfl⟩
  simp only [Packet.contents, Frame.contents, removeBody, Packet.fill, Packet.payload, hsize,
    f.bodyLength_size, hinput, List.take_left, htype]

/-- **Whole frames** are dispatched in order, and the loop goes on with the
rest. -/
theorem packetRead_frames {heap : Heap} {fs : List Frame} (hadmits : ∀ f ∈ fs, heap.Admits f) :
    ∀ {r : Reader} {rest : List UInt8}, r.pkt.size = 0 → r.input = encode fs ++ rest →
      ∃ r' ps, packetRead heap r = (packetRead heap r').map (fun s => (s.1, ps ++ s.2)) ∧
        ps.map Packet.contents = fs.map Frame.contents ∧ r'.pkt.size = 0 ∧ r'.input = rest ∧
        r'.reallocs = r.reallocs + reallocCount fs := by
  induction fs with
  | nil =>
      intro r rest hfresh hin
      exact ⟨r, [], by simp, rfl, hfresh, hin, rfl⟩
  | cons f fs ih =>
      intro r rest hfresh hin
      rw [encode_cons, List.append_assoc] at hin
      obtain ⟨r₁, p, hread, hp, hfresh₁, hin₁, hcount₁⟩ :=
        packetRead_frame (hadmits f List.mem_cons_self) hfresh hin
      obtain ⟨r', ps, hread', hps, hfresh', hin', hcount'⟩ :=
        ih (fun g hg => hadmits g (List.mem_cons_of_mem _ hg)) hfresh₁ hin₁
      refine ⟨r', p :: ps, ?_, by simp [hp, hps], hfresh', hin', ?_⟩
      · rw [hread, hread', Option.map_map]
        rfl
      · rw [hcount', hcount₁, reallocCount, reallocCount, List.map_cons, List.sum_cons]
        omega

/-! ## Deliveries -/

/-- A piece of the stream arrives at the end of the input buffer. -/
def Reader.receive (piece : List UInt8) (r : Reader) : Reader :=
  { r with input := r.input ++ piece }

@[simp] theorem Reader.receive_input (piece : List UInt8) (r : Reader) :
    (r.receive piece).input = r.input ++ piece := rfl

@[simp] theorem Reader.receive_pkt (piece : List UInt8) (r : Reader) :
    (r.receive piece).pkt = r.pkt := rfl

@[simp] theorem Reader.receive_reallocs (piece : List UInt8) (r : Reader) :
    (r.receive piece).reallocs = r.reallocs := rfl

/-- The first piece on a new connection. -/
theorem Reader.receive_fresh (piece : List UInt8) :
    Reader.fresh.receive piece = ⟨piece, .calloc, 0⟩ := rfl

/-- A piece of the stream arrives and `packet_read` is called.  The second
component collects what is dispatched. -/
def deliver (heap : Heap) (s : Reader × List Packet) (piece : List UInt8) :
    Option (Reader × List Packet) :=
  (packetRead heap (s.1.receive piece)).map fun t => (t.1, s.2 ++ t.2)

/-- The deliveries of a new connection. -/
def deliverAll (heap : Heap) (pieces : List (List UInt8)) : Option (Reader × List Packet) :=
  run (deliver heap) (Reader.fresh, []) pieces

/-- The `(type, payload)` pairs that are dispatched over some deliveries. -/
def dispatched (heap : Heap) (pieces : List (List UInt8)) :
    Option (List (UInt32 × List UInt8)) :=
  (deliverAll heap pieces).map fun s => s.2.map Packet.contents

/-- The reader is in step with the stream: it has dispatched the frames `done`
and holds what else has arrived, which is not even a header. -/
structure InStep (done : List Frame) (arrived : List UInt8) (s : Reader × List Packet) : Prop where
  dispatched : s.2.map Packet.contents = done.map Frame.contents
  fresh : s.1.pkt.size = 0
  arrived_eq : arrived = encode done ++ s.1.input
  short : s.1.input.length < sizeofHeader
  reallocs : s.1.reallocs = reallocCount done

/-- The reader waits for ever: a header has been removed without its body. -/
structure Stuck (fs : List Frame) (s : Reader × List Packet) : Prop where
  seen : s.1.pkt.size ≠ 0
  behind : s.2.length < fs.length

/-- A new connection is in step. -/
theorem inStep_fresh : InStep [] [] (Reader.fresh, []) :=
  ⟨rfl, rfl, rfl, by decide, rfl⟩

/-- Of a stream that has arrived, a reader in step has dispatched everything: a frame that is left
would have its header in the buffer. -/
theorem InStep.post_eq_nil {done post : List Frame} {arrived : List UInt8}
    {s : Reader × List Packet} (h : InStep done arrived s)
    (harrived : arrived = encode (done ++ post)) : post = [] := by
  rw [h.arrived_eq, encode_append, List.append_cancel_left_eq] at harrived
  cases post with
  | nil => rfl
  | cons f post =>
      have hshort := h.short
      rw [harrived, encode_cons, List.length_append, f.length_bytes] at hshort
      omega

/-- The start of a stream of frames lies in no body. -/
theorem not_inBody_start (fs : List Frame) : ¬ InBody Frame.bytes sizeofHeader fs 0 := by
  refine not_inBody_zero (by decide) fun f _ hnil => ?_
  have hlen := congrArg List.length hnil
  simp [sizeofHeader] at hlen

/-- Nothing gets a stuck reader going again. -/
theorem deliver_stuck {heap : Heap} {fs : List Frame} {s : Reader × List Packet}
    (h : Stuck fs s) (piece : List UInt8) :
    ∃ s', deliver heap s piece = some s' ∧ Stuck fs s' := by
  have hread : packetRead heap (s.1.receive piece) = some (s.1.receive piece, []) :=
    packetRead_seen h.seen
  refine ⟨(s.1.receive piece, s.2 ++ []), by rw [deliver, hread, Option.map_some], h.seen, ?_⟩
  simpa using h.behind

/-- What a reader in step makes of a delivery: it dispatches the frames `more`
that are complete now, and then whatever it makes of `part`. -/
theorem InStep.deliver_frames {heap : Heap} {done more : List Frame}
    {arrived piece part : List UInt8} {s : Reader × List Packet} (h : InStep done arrived s)
    (hadmits : ∀ f ∈ more, heap.Admits f) (hin : s.1.input ++ piece = encode more ++ part) :
    ∃ r ps, deliver heap s piece = (packetRead heap r).map (fun t => (t.1, ps ++ t.2)) ∧
      ps.map Packet.contents = (done ++ more).map Frame.contents ∧ r.pkt.size = 0 ∧
      r.input = part ∧ r.reallocs = reallocCount (done ++ more) := by
  obtain ⟨r, ps, hread, hps, hfresh, hinput, hcount⟩ :=
    packetRead_frames hadmits (r := s.1.receive piece) h.fresh hin
  refine ⟨r, s.2 ++ ps, ?_, ?_, hfresh, hinput, ?_⟩
  · rw [deliver, hread, Option.map_map]
    simp [Function.comp_def]
  · rw [List.map_append, h.dispatched, hps, List.map_append]
  · rw [hcount]
    simp [h.reallocs, reallocCount]

/-- **One delivery** of a stream of frames and a short tail.  A reader in step
stays in step, unless the delivery ends in the body of a frame; then it is
stuck. -/
theorem InStep.deliver_cases {heap : Heap} {fs done post : List Frame}
    {arrived piece rest tail : List UInt8} {s : Reader × List Packet} (h : InStep done arrived s)
    (hadmits : ∀ f ∈ fs, heap.Admits f) (hfs : fs = done ++ post)
    (hbytes : arrived ++ piece ++ rest = encode fs ++ tail)
    (htail : tail.length < sizeofHeader + rest.length) :
    ∃ s', deliver heap s piece = some s' ∧
      ((¬ InBody Frame.bytes sizeofHeader fs (arrived ++ piece).length ∧
          ∃ done' post', fs = done' ++ post' ∧ InStep done' (arrived ++ piece) s') ∨
        (InBody Frame.bytes sizeofHeader fs (arrived ++ piece).length ∧ Stuck fs s')) := by
  have hrest : (s.1.input ++ piece) ++ rest = encode post ++ tail := by
    rw [hfs, h.arrived_eq] at hbytes
    simpa using hbytes
  obtain ⟨more, post', part, rfl, hin, hpart, hhead⟩ := exists_place hrest
  have hmore : ∀ f ∈ more, heap.Admits f := fun f hf => hadmits f (by rw [hfs]; simp [hf])
  obtain ⟨r, ps, hread, hps, hfresh, hinput, hcount⟩ := h.deliver_frames hmore hin
  rw [← List.append_assoc] at hfs
  have harrived : arrived ++ piece = encode (done ++ more) ++ part := by
    rw [h.arrived_eq, List.append_assoc, hin, encode_append, List.append_assoc]
    rfl
  have hplace : InBody Frame.bytes sizeofHeader fs (arrived ++ piece).length ↔
      InBody Frame.bytes sizeofHeader post' part.length := by
    rw [harrived, hfs, List.length_append]
    exact inBody_append Frame.bytes sizeofHeader (done ++ more) post' part.length
  rw [hplace]
  rcases Nat.lt_or_ge part.length sizeofHeader with hshort | hlong
  · -- not even a header is left over
    have hread' : deliver heap s piece = some (r, ps) := by
      rw [hread, packetRead_short (by rw [hinput]; exact hshort)]
      simp
    refine ⟨(r, ps), hread', .inl ⟨?_, done ++ more, post', hfs, hps, hfresh, ?_, ?_, hcount⟩⟩
    · intro hbody
      cases post' with
      | nil => exact hbody
      | cons f post' =>
          rw [inBody_cons_of_lt _ _ (hhead f rfl)] at hbody
          omega
    · rw [harrived, hinput]
    · rw [hinput]
      exact hshort
  · cases post' with
    | nil =>
        -- more than the tail cannot have arrived
        have hlen := congrArg List.length hpart
        simp only [List.flatMap_nil, List.nil_append, List.length_append] at hlen
        omega
    | cons f post' =>
        have hlt : part.length < f.bytes.length := hhead f rfl
        obtain ⟨body, hbody⟩ : ∃ body, part = headerBytes f.size f.type ++ body := by
          rw [List.flatMap_cons, Frame.bytes, List.append_assoc, List.append_assoc] at hpart
          obtain ⟨body, hbody⟩ : headerBytes f.size f.type <+: part :=
            List.prefix_of_prefix_length_le ⟨_, rfl⟩ ⟨_, hpart⟩ hlong
          exact ⟨body, hbody.symm⟩
        have hmissing : body.length < f.payload.length := by
          rw [hbody, List.length_append, length_headerBytes, f.length_bytes] at hlt
          omega
        obtain ⟨r', hr', hseen⟩ := packetRead_body_missing (hadmits f (by rw [hfs]; simp)) hfresh
          (hinput.trans hbody) hmissing
        refine ⟨(r', ps), by rw [hread, hr']; simp, .inr ⟨?_, hseen, ?_⟩⟩
        · rw [inBody_cons_of_lt _ _ hlt]
          exact hlong
        · have hlen := congrArg List.length hps
          rw [List.length_map, List.length_map] at hlen
          rw [hlen, hfs]
          simp

/-- **A run of deliveries** of a stream of frames and a short tail: the reader is
in step, unless some delivery ended in the body of a frame; then it is stuck. -/
theorem deliverAll_cases {heap : Heap} {fs : List Frame} {tail : List UInt8}
    (hserves : ∀ f ∈ fs, heap.Serves f) (pieces : List (List UInt8)) :
    ∀ rest, pieces.flatten ++ rest = encode fs ++ tail → tail.length < sizeofHeader + rest.length →
      ∃ s, deliverAll heap pieces = some s ∧
        ((¬ CutInBody Frame.bytes sizeofHeader fs pieces ∧
            ∃ done post, fs = done ++ post ∧ InStep done pieces.flatten s) ∨
          (CutInBody Frame.bytes sizeofHeader fs pieces ∧ Stuck fs s)) := by
  induction pieces using List.reverseRecOn with
  | nil =>
      intro rest _ _
      refine ⟨(Reader.fresh, []), rfl, .inl ⟨?_, [], fs, rfl, inStep_fresh⟩⟩
      rw [cutInBody_nil_iff]
      exact not_inBody_start fs
  | append_singleton pieces piece ih =>
      intro rest hbytes htail
      rw [List.flatten_append, List.flatten_singleton] at hbytes ⊢
      obtain ⟨s, hs, hcases⟩ := ih (piece ++ rest) (by rw [← hbytes]; simp)
        (by rw [List.length_append]; omega)
      have hrun : deliverAll heap (pieces ++ [piece]) = deliver heap s piece := by
        rw [deliverAll, run_concat]
        exact congrArg (·.bind fun s => deliver heap s piece) hs
      rw [hrun]
      simp only [cutInBody_concat_iff, List.flatten_append, List.flatten_singleton]
      -- `InStep` carries the induction, and `Stuck` once it is lost
      rcases hcases with ⟨hnocut, done, post, hfs, hstep⟩ | ⟨hcut, hstuck⟩
      · obtain ⟨s', hs', hcases'⟩ :=
          hstep.deliver_cases (fun f hf => (hserves f hf).admits) hfs hbytes htail
        refine ⟨s', hs', ?_⟩
        rcases hcases' with ⟨hout, hstep'⟩ | ⟨hin, hstuck⟩
        · exact .inl ⟨fun hcut => hcut.elim hnocut hout, hstep'⟩
        · exact .inr ⟨.inr hin, hstuck⟩
      · obtain ⟨s', hs', hstuck'⟩ := deliver_stuck hstuck piece
        exact ⟨s', hs', .inr ⟨.inl hcut, hstuck'⟩⟩

/-! ## Cutting a stream of frames -/

/-- The frames are dispatched, each of them once and in order, exactly when no
delivery ends in the body of a frame. -/
theorem dispatched_iff {heap : Heap} {fs : List Frame} (hserves : ∀ f ∈ fs, heap.Serves f)
    {pieces : List (List UInt8)} (hbytes : pieces.flatten = encode fs) :
    dispatched heap pieces = some (fs.map Frame.contents) ↔
      ¬ CutInBody Frame.bytes sizeofHeader fs pieces := by
  have hall : pieces.flatten ++ [] = encode fs ++ [] := by rw [hbytes]
  obtain ⟨s, hs, hcases⟩ := deliverAll_cases hserves pieces [] hall (by decide)
  rw [dispatched, hs, Option.map_some, Option.some.injEq]
  rcases hcases with ⟨hnocut, done, post, rfl, hstep⟩ | ⟨hcut, hstuck⟩
  · -- in step at the end of the stream
    refine iff_of_true ?_ hnocut
    obtain rfl := hstep.post_eq_nil hbytes
    rw [List.append_nil, hstep.dispatched]
  · refine iff_of_false (fun hsome => ?_) (not_not_intro hcut)
    have hlen := congrArg List.length hsome
    rw [List.length_map, List.length_map] at hlen
    exact absurd hstuck.behind (by omega)

/-- No cut lies in a stream that arrives in one piece. -/
theorem not_cutInBody_single (fs : List Frame) :
    ¬ CutInBody Frame.bytes sizeofHeader fs [encode fs] := by
  intro hcut
  have hconcat : CutInBody Frame.bytes sizeofHeader fs ([] ++ [encode fs]) := hcut
  rcases cutInBody_concat_iff.mp hconcat with hnil | hend
  · rw [cutInBody_nil_iff] at hnil
    exact not_inBody_start fs hnil
  · exact not_inBody_end Frame.bytes sizeofHeader fs (by simpa [encode] using hend)

/-- **The packets dispatched do not depend on how the stream was cut exactly when
no delivery ends in the body of a frame.** -/
theorem dispatch_independent_of_cuts_iff (heap : Heap)
    (halloc : ∀ n size, (heap.realloc n size).isSome) (fs : List Frame)
    (pieces : List (List UInt8)) (hbytes : pieces.flatten = encode fs) :
    dispatched heap pieces = dispatched heap [encode fs] ↔
      ¬ CutInBody Frame.bytes sizeofHeader fs pieces := by
  have hserves : ∀ f ∈ fs, heap.Serves f := fun f _ n => halloc n _
  have hsingle : dispatched heap [encode fs] = some (fs.map Frame.contents) :=
    (dispatched_iff hserves (by simp)).mpr (not_cutInBody_single fs)
  rw [hsingle]
  exact dispatched_iff hserves hbytes

/-- A heap with zeroed memory for everyone. -/
def Heap.ample : Heap := ⟨fun _ _ => some fun _ => 0⟩

/-- A command with one argument byte, as a frame. -/
def commandFrame (t : PacketType) (data : UInt8) : Frame :=
  ⟨t.code, [data], by simp [sizeofHeader]⟩

/-- Two commands, cut inside the headers and between the frames. -/
theorem dispatch_independent_of_header_cuts :
    dispatched .ample
        [(commandFrame .pingHset 3).bytes.take 5,
          (commandFrame .pingHset 3).bytes.drop 5 ++ (commandFrame .radio 1).bytes.take 7,
          (commandFrame .radio 1).bytes.drop 7] =
      dispatched .ample [encode [commandFrame .pingHset 3, commandFrame .radio 1]] :=
  (dispatch_independent_of_cuts_iff .ample (fun _ _ => rfl)
    [commandFrame .pingHset 3, commandFrame .radio 1] _ (by decide)).mpr (by decide)

/-- A command whose body arrives after its header is not dispatched. -/
theorem command_lost_by_cut :
    dispatched .ample [(commandFrame .pingHset 3).bytes.take 8,
        (commandFrame .pingHset 3).bytes.drop 8] ≠
      dispatched .ample [encode [commandFrame .pingHset 3]] := by
  decide

/-! ## Headers of any size -/

/-- A lone header makes `packet_read` exit exactly when the heap refuses the
packet. -/
theorem packetRead_header_eq_none_iff {heap : Heap} {r : Reader} {size type : UInt32}
    (hfresh : r.pkt.size = 0) (hin : r.input = headerBytes size type) :
    packetRead heap r = none ↔ heap.Refuses r.reallocs size := by
  have hlen : sizeofHeader ≤ r.input.length := by rw [hin, length_headerBytes]
  have hin' : r.input = headerBytes size type ++ [] := by rw [hin, List.append_nil]
  rw [packetRead_eq, if_pos ⟨hfresh, hlen⟩, ← removeHeader_eq_none_iff hin']
  cases hr' : removeHeader heap r with
  | none => simp
  | some r' =>
      rw [Option.bind_some]
      split
      · -- an empty body: the packet is dispatched, and nothing is left
        have hempty : (removeBody r').1.input.length < sizeofHeader := by
          simp [removeBody, (removeHeader_spec hin' hr').1, sizeofHeader]
        rw [packetRead_short hempty]
        simp
      · simp

/-- A lone header of size 0 is removed and forgotten. -/
theorem packetRead_header_zero (heap : Heap) {r : Reader} {type : UInt32}
    (hfresh : r.pkt.size = 0) (hin : r.input = headerBytes 0 type) :
    ∃ r', packetRead heap r = some (r', []) ∧ r'.pkt.size = 0 ∧ r'.input = [] := by
  have hlen : sizeofHeader ≤ r.input.length := by rw [hin, length_headerBytes]
  have hin' : r.input = headerBytes 0 type ++ [] := by rw [hin, List.append_nil]
  have hmem : ¬ heap.Refuses r.reallocs 0 := fun h => absurd h.1 (by decide)
  obtain ⟨r', hr'⟩ := Option.ne_none_iff_exists'.mp (mt (removeHeader_eq_none_iff hin').mp hmem)
  obtain ⟨hinput, hsize, -, -⟩ := removeHeader_spec hin' hr'
  refine ⟨r', ?_, hsize, hinput⟩
  -- the body length wraps around, so no input is long enough
  rw [packetRead_eq, if_pos ⟨hfresh, hlen⟩, hr', Option.bind_some, hinput, hsize,
    if_neg (by decide)]

/-- **A header of any size**, after any frames that were not cut in their bodies.
`packet_read` exits exactly when the packet outgrows a `packet_t` and `realloc`
fails for it, so never for a size up to `MAX_LINE` if the allocator serves these;
and after a header of size 0 the next frame is dispatched. -/
theorem header_exits_iff (heap : Heap)
    (hsmall : ∀ n size, size ≤ maxLine → (heap.realloc n size).isSome) (fs : List Frame)
    (hserves : ∀ f ∈ fs, heap.Serves f) (size type : UInt32) (pieces : List (List UInt8))
    (last : List UInt8) (hlast : last ≠ [])
    (hbytes : pieces.flatten ++ last = encode fs ++ headerBytes size type)
    (hcut : ¬ CutInBody Frame.bytes sizeofHeader fs pieces) :
    (deliverAll heap (pieces ++ [last]) = none ↔ heap.Refuses (reallocCount fs) size) ∧
      (size.toNat ≤ maxLine → deliverAll heap (pieces ++ [last]) ≠ none) ∧
      (size = 0 → ∀ f, heap.Serves f → dispatched heap (pieces ++ [last, f.bytes]) =
        some ((fs ++ [f]).map Frame.contents)) := by
  have hlen : 0 < last.length := List.length_pos_iff.mpr hlast
  obtain ⟨s, hs, hcases⟩ := deliverAll_cases hserves pieces last hbytes
    (by rw [length_headerBytes]; omega)
  obtain ⟨-, done, post, rfl, hstep⟩ := hcases.resolve_right fun h => hcut h.1
  have hin : s.1.input ++ last = encode post ++ headerBytes size type := by
    rw [hstep.arrived_eq] at hbytes
    simpa using hbytes
  obtain ⟨r, ps, hread, hps, hfresh, hinput, hcount⟩ :=
    hstep.deliver_frames (fun f hf => (hserves f (by simp [hf])).admits) hin
  have hrun (more : List (List UInt8)) : deliverAll heap (pieces ++ last :: more) =
      (deliver heap s last).bind fun s' => run (deliver heap) s' more := by
    rw [deliverAll, run_append]
    exact congrArg (·.bind fun s => run (deliver heap) s (last :: more)) hs
  have hexit : deliverAll heap (pieces ++ [last]) = none ↔
      heap.Refuses (reallocCount (done ++ post)) size := by
    rw [hrun, hread, ← hcount, ← packetRead_header_eq_none_iff hfresh hinput]
    cases packetRead heap r <;> simp
  refine ⟨hexit, fun hle => ?_, ?_⟩
  · rw [Ne, hexit]
    rintro ⟨-, hnone⟩
    have hsome := hsmall (reallocCount (done ++ post)) size.toNat hle
    simp [hnone] at hsome
  · rintro rfl f hf
    obtain ⟨r', hr', hfresh', hinput'⟩ := packetRead_header_zero heap hfresh hinput
    have hadmits : ∀ g ∈ [f], heap.Admits g := List.forall_mem_singleton.mpr hf.admits
    have hin' : (r'.receive f.bytes).input = encode [f] ++ [] := by simp [hinput']
    have hfresh'' : (r'.receive f.bytes).pkt.size = 0 := hfresh'
    obtain ⟨r'', qs, hread', hqs, -, hinput'', -⟩ := packetRead_frames hadmits hfresh'' hin'
    have hnext : deliver heap (r', ps) f.bytes = some (r'', ps ++ (qs ++ [])) := by
      rw [deliver, hread', packetRead_short (by rw [hinput'']; decide)]
      rfl
    rw [dispatched, hrun, hread, hr']
    simp [hnext, hps, hqs]

/-- After a command and a header of size 0, the next command is dispatched. -/
theorem command_after_zero_header :
    dispatched .ample ([[], (commandFrame .pingHset 3).bytes] ++ [headerBytes 0 5,
        (commandFrame .radio 1).bytes]) =
      some ([commandFrame .pingHset 3, commandFrame .radio 1].map Frame.contents) :=
  (header_exits_iff .ample (fun _ _ _ => rfl) [commandFrame .pingHset 3] (fun _ _ _ => rfl) 0 5
    [[], (commandFrame .pingHset 3).bytes] (headerBytes 0 5) (by decide) (by decide)
    (by decide)).2.2 rfl _ fun _ => rfl

/-- A heap that serves requests up to `MAX_LINE` only. -/
def Heap.limited : Heap := ⟨fun _ size => if size ≤ maxLine then some fun _ => 0 else none⟩

/-- Eight bytes make the manager exit: a header with the largest size. -/
theorem largest_header_exits :
    (∀ n size, size ≤ maxLine → (Heap.limited.realloc n size).isSome) ∧
      deliverAll .limited [headerBytes 0xFFFFFFFF 0] = none := by
  constructor
  · intro n size hle
    simp [Heap.limited, hle]
  · rfl

end DectManager
