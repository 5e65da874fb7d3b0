/-
# From the senders to the handlers

Two programs send frames to the manager: the proxy one for each mail of the
device, the command line client one for each command.  They share only
`dect.h` with the reader that takes the stream apart again.

* `packetRead_encode`: what `packet_read` makes of a stream of frames.  Every
  packet it dispatches holds the payload of its frame and zeros, whatever came
  before.
* `frames_round_trip`: so the handlers are called with the mails and the
  commands that were sent, each once and in order, unless `realloc` fails for
  one of them and the process ends.
-/
import DectManager.Framing

namespace DectManager

/-! ## One frame -/

/-- The packet that a frame becomes in a zeroed `packet_t`, grown if need be. -/
def Frame.packet (f : Frame) : Packet :=
  ⟨f.size, f.type, f.payload ++ List.replicate (pktDataSize - f.payload.length) 0⟩

/-- What the header leaves in the packet behind the bytes that the body will
fill: zeros, or nothing if the packet has grown. -/
theorem drop_data_of_removeHeader {heap : Heap} {f : Frame} {rest : List UInt8} {n : ℕ}
    {r : Reader} (h : removeHeader heap ⟨f.bytes ++ rest, .calloc, n⟩ = some r) :
    r.pkt.data.drop f.payload.length = List.replicate (pktDataSize - f.payload.length) 0 := by
  have hsize : word (f.bytes ++ rest) = f.size := by
    rw [Frame.bytes, headerBytes, List.append_assoc, List.append_assoc, word_wordBytes]
  have hlen := f.toNat_size
  unfold removeHeader at h
  simp only [hsize] at h
  split_ifs at h with hbig
  · obtain ⟨added, -, rfl⟩ := Option.map_eq_some_iff.mp h
    -- the body is as long as the packet
    rw [hlen] at hbig
    have hshort : pktDataSize - f.payload.length = 0 := by
      unfold sizeofPacket at hbig
      omega
    rw [hshort, List.replicate_zero, List.drop_eq_nil_iff, List.length_append, List.length_map,
      List.length_range, Packet.calloc, List.length_replicate, hlen, sizeofPacket]
    omega
  · obtain rfl := Option.some.inj h
    rw [Packet.calloc, List.drop_replicate]

/-- The input starts with the frame's header. -/
theorem frame_append_eq (f : Frame) (rest : List UInt8) :
    f.bytes ++ rest = headerBytes f.size f.type ++ (f.payload ++ rest) := by
  rw [Frame.bytes, List.append_assoc]

/-- **A refused frame** ends the process. -/
theorem packetRead_of_refuses {heap : Heap} {f : Frame} {n : ℕ} (h : heap.Refuses n f.size)
    (rest : List UInt8) : packetRead heap ⟨f.bytes ++ rest, .calloc, n⟩ = none := by
  have hlen : sizeofHeader ≤ (f.bytes ++ rest).length := by
    rw [List.length_append, f.length_bytes]
    omega
  rw [packetRead_eq, if_pos ⟨rfl, hlen⟩, (removeHeader_eq_none_iff (frame_append_eq f rest)).mpr h,
    Option.bind_none]

/-- **A frame** in a zeroed packet is dispatched, and the loop goes on with the
rest and a zeroed packet. -/
theorem packetRead_of_not_refuses {heap : Heap} {f : Frame} {n : ℕ} (h : ¬ heap.Refuses n f.size)
    (rest : List UInt8) :
    packetRead heap ⟨f.bytes ++ rest, .calloc, n⟩ =
      (packetRead heap ⟨rest, .calloc, n + grows f.size⟩).map fun s => (s.1, f.packet :: s.2) := by
  have hin : (⟨f.bytes ++ rest, .calloc, n⟩ : Reader).input = _ := frame_append_eq f rest
  obtain ⟨r, hr⟩ := Option.ne_none_iff_exists'.mp (mt (removeHeader_eq_none_iff hin).mp h)
  obtain ⟨hinput, hsize, htype, -⟩ := removeHeader_spec hin hr
  have hpacket : (removeBody r).2 = f.packet := by
    simp only [removeBody, Packet.fill, hsize, f.bodyLength_size, hinput, List.take_left, htype,
      drop_data_of_removeHeader hr, Frame.packet]
  rw [packetRead_of_removeHeader rfl rfl hr, hpacket]

/-! ## A stream of frames -/

/-- `realloc` fails for one of the frames, the first of which is the `n`-th to be
read. -/
def Heap.RefusesOne (heap : Heap) (n : ℕ) (fs : List Frame) : Prop :=
  ∃ pre f post, fs = pre ++ f :: post ∧ heap.Refuses (n + reallocCount pre) f.size

theorem Heap.not_refusesOne_nil (heap : Heap) (n : ℕ) : ¬ heap.RefusesOne n [] := by
  rintro ⟨pre, f, post, h, -⟩
  simp at h

/-- The first frame is refused, or one of the others. -/
theorem Heap.refusesOne_cons_iff {heap : Heap} {n : ℕ} {f : Frame} {fs : List Frame} :
    heap.RefusesOne n (f :: fs) ↔
      heap.Refuses n f.size ∨ heap.RefusesOne (n + grows f.size) fs := by
  have hcount (pre : List Frame) :
      n + grows f.size + reallocCount pre = n + reallocCount (f :: pre) := by
    rw [reallocCount, reallocCount, List.map_cons, List.sum_cons]
    omega
  constructor
  · rintro ⟨pre, g, post, hfs, href⟩
    cases pre with
    | nil =>
        obtain ⟨rfl, -⟩ := List.cons.inj hfs
        exact .inl href
    | cons f' pre =>
        obtain ⟨rfl, hfs'⟩ := List.cons.inj hfs
        exact .inr ⟨pre, g, post, hfs', by rw [hcount]; exact href⟩
  · rintro (href | ⟨pre, g, post, rfl, href⟩)
    · exact ⟨[], f, fs, rfl, href⟩
    · exact ⟨f :: pre, g, post, rfl, by rw [← hcount]; exact href⟩

/-- **A stream of frames** on a new connection: the process ends if one of them is
refused; otherwise each becomes a packet of its own, and nothing is left. -/
theorem packetRead_encode (heap : Heap) (fs : List Frame) (n : ℕ) :
    (heap.RefusesOne n fs → packetRead heap ⟨encode fs, .calloc, n⟩ = none) ∧
      (¬ heap.RefusesOne n fs → packetRead heap ⟨encode fs, .calloc, n⟩ =
        some (⟨[], .calloc, n + reallocCount fs⟩, fs.map Frame.packet)) := by
  induction fs generalizing n with
  | nil =>
      refine ⟨fun h => absurd h (heap.not_refusesOne_nil n), fun _ => ?_⟩
      exact packetRead_short (show 0 < sizeofHeader by decide)
  | cons f fs ih =>
      rw [encode_cons, Heap.refusesOne_cons_iff]
      by_cases href : heap.Refuses n f.size
      · exact ⟨fun _ => packetRead_of_refuses href _, fun h => absurd (.inl href) h⟩
      · rw [packetRead_of_not_refuses href, or_iff_right href]
        obtain ⟨hnone, hsome⟩ := ih (n + grows f.size)
        refine ⟨fun h => by rw [hnone h, Option.map_none], fun h => ?_⟩
        rw [hsome h, Option.map_some, reallocCount, reallocCount, List.map_cons, List.sum_cons,
          List.map_cons, Nat.add_assoc]

/-! ## The senders -/

/-- `sizeof(client_packet)`: the header, the argument and three bytes of padding. -/
def sizeofClientPacket : ℕ := 12

/-- What the two programs send to the manager. -/
inductive Sent
  /-- the proxy: a mail that one `read` of the device has returned -/
  | mail (data : List UInt8) (length_le : data.length ≤ maxMailSize)
  /-- the command line client's `send_packet`: a command, its argument, and whatever the
  allocation holds behind it -/
  | command (type : UInt32) (arg : UInt8) (padding : List UInt8)
      (type_ne : type ≠ PacketType.dectPacket.code)
      (length_padding : padding.length + 1 + sizeofHeader = sizeofClientPacket)

/-- The frame that the proxy makes of a mail. -/
def mailBytes (data : List UInt8) : List UInt8 :=
  headerBytes (.ofNat (data.length + sizeofHeader)) PacketType.dectPacket.code ++ data

/-- The bytes of a command: `size`, `type` and `data` of a `client_packet`. -/
def commandBytes (type : UInt32) (arg : UInt8) (padding : List UInt8) : List UInt8 :=
  headerBytes (.ofNat sizeofClientPacket) type ++ arg :: padding

/-- A call of one of the two handlers. -/
inductive Call
  | handleDectPacket (mail : List UInt8)
  | handleClientPacket (type : UInt32) (arg : UInt8)
  deriving DecidableEq, Repr

/-- The `switch` of `packet_read`: a mail is the payload, a command the type and
the first byte. -/
def Packet.call (p : Packet) : Call :=
  if p.type = PacketType.dectPacket.code then .handleDectPacket p.payload
  else .handleClientPacket p.type (p.data.headD 0)

namespace Sent

/-- The bytes on the wire. -/
def bytes : Sent → List UInt8
  | mail data _ => mailBytes data
  | command type arg padding _ _ => commandBytes type arg padding

/-- The call that is meant. -/
def call : Sent → Call
  | mail data _ => .handleDectPacket data
  | command type arg _ _ _ => .handleClientPacket type arg

/-- The payload behind the header. -/
def payload : Sent → List UInt8
  | mail data _ => data
  | command _ arg padding _ _ => arg :: padding

theorem length_payload_lt (s : Sent) : s.payload.length + sizeofHeader < 2 ^ 32 := by
  cases s with
  | mail data h =>
      unfold maxMailSize at h
      unfold sizeofHeader
      exact lt_of_le_of_lt (Nat.add_le_add_right h 8) (by decide)
  | command type arg padding _ h =>
      rw [payload, List.length_cons, h]
      decide

/-- The type word. -/
def type : Sent → UInt32
  | mail _ _ => PacketType.dectPacket.code
  | command type _ _ _ _ => type

/-- What is sent, as a frame. -/
def frame (s : Sent) : Frame := ⟨s.type, s.payload, s.length_payload_lt⟩

/-- The senders write the size that a frame of this payload has. -/
theorem bytes_frame (s : Sent) : s.frame.bytes = s.bytes := by
  cases s with
  | mail data h => rfl
  | command type arg padding _ h =>
      show headerBytes (.ofNat (padding.length + 1 + sizeofHeader)) type ++ _ = _
      rw [h]
      rfl

/-- The packet that a frame becomes is dispatched to the handler that is meant. -/
theorem call_packet (s : Sent) : s.frame.packet.call = s.call := by
  cases s with
  | mail data h =>
      have hpayload : (mail data h).frame.packet.payload = data := by
        show List.take (bodyLength (mail data h).frame.size) (data ++ _) = data
        rw [Frame.bodyLength_size]
        exact List.take_left' rfl
      have htype : (mail data h).frame.packet.type = PacketType.dectPacket.code := rfl
      rw [Packet.call, if_pos htype, hpayload]
      rfl
  | command type arg padding hne h => exact if_neg hne

end Sent

/-- **The frames of the two programs**, in any order and number, in the buffer of a new connection.
`packet_read` ends the process exactly when `realloc` fails for one of them.  Otherwise it leaves
the buffer empty and has called the handlers with the mails and with the commands and their
arguments, each once and in order; and the packet behind each call held the payload of its own
frame, and zeros. -/
theorem frames_round_trip (heap : Heap) (ss : List Sent) :
    (packetRead heap (Reader.fresh.receive (ss.flatMap Sent.bytes)) = none ↔
        heap.RefusesOne 0 (ss.map Sent.frame)) ∧
      ∀ r ps, packetRead heap (Reader.fresh.receive (ss.flatMap Sent.bytes)) = some (r, ps) →
        r.input = [] ∧ ps.map Packet.call = ss.map Sent.call ∧
          ps.map Packet.data = ss.map fun s =>
            s.payload ++ List.replicate (pktDataSize - s.payload.length) 0 := by
  have hstream : Reader.fresh.receive (ss.flatMap Sent.bytes) =
      ⟨encode (ss.map Sent.frame), .calloc, 0⟩ := by
    rw [Reader.receive_fresh, encode, List.flatMap_map]
    simp only [Sent.bytes_frame]
  obtain ⟨hnone, hsome⟩ := packetRead_encode heap (ss.map Sent.frame) 0
  rw [hstream]
  by_cases href : heap.RefusesOne 0 (ss.map Sent.frame)
  · rw [hnone href]
    exact ⟨iff_of_true rfl href, fun r ps h => by cases h⟩
  · rw [hsome href]
    refine ⟨iff_of_false (by simp) href, fun r ps h => ?_⟩
    obtain ⟨rfl, rfl⟩ := Prod.mk.inj (Option.some.inj h)
    refine ⟨rfl, ?_, ?_⟩
    · rw [List.map_map, List.map_map]
      exact List.map_congr_left fun s _ => s.call_packet
    · rw [List.map_map, List.map_map]
      rfl

/-- A mail that outgrows a `packet_t`, a command and an empty mail. -/
def sentThree : List Sent :=
  [.mail (List.replicate 101 255) (by decide),
    .command PacketType.pingHset.code 3 [9, 9, 9] (by decide) (by decide), .mail [] (by decide)]

/-- They arrive one by one. -/
theorem three_frames_arrive :
    ∃ r ps, packetRead .ample (Reader.fresh.receive (sentThree.flatMap Sent.bytes)) =
        some (r, ps) ∧ r.input = [] ∧
      ps.map Packet.call = [.handleDectPacket (List.replicate 101 255),
        .handleClientPacket PacketType.pingHset.code 3, .handleDectPacket []] := by
  obtain ⟨hnone, hsome⟩ := frames_round_trip .ample sentThree
  have hserved : ¬ Heap.ample.RefusesOne 0 (sentThree.map Sent.frame) := by
    rintro ⟨pre, f, post, -, -, href⟩
    cases href
  obtain ⟨⟨r, ps⟩, hread⟩ := Option.ne_none_iff_exists'.mp (mt hnone.mp hserved)
  obtain ⟨hempty, hcalls, -⟩ := hsome r ps hread
  exact ⟨r, ps, hread, hempty, hcalls⟩

end DectManager
