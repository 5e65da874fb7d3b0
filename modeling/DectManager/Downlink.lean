/-
# From the device to the manager

A mail that the proxy reads from `/dev/dect` is sent to the manager as a frame,
is on its way for a while, arrives in pieces of any length, and is passed to
`handle_dect_packet` once it is complete.  `Downlink` is the whole way to the
client on connection `c`: the proxy with its history, the bytes in flight, and
the reader at the other end.  The proxy may take any turns, for any clients,
between any two arrivals.

* `Exact` says that nothing is lost, repeated or reordered: what has been handed
  over is a beginning of the mails that were read while the client was connected,
  and the bytes of all the others are in the input buffer and in flight.
* `downlink_exact_iff`: this holds throughout a run exactly when no arrival ends
  in the body of a frame.  Then, once nothing is in flight, every mail has been
  handed over.
-/
import DectManager.Broadcast
import DectManager.RoundTrip

namespace DectManager

open PartialRun Streams

/-! ## Streams of mails -/

/-- A mail is sent as the frame of its bytes. -/
theorem mailBytes_payload {f : Frame} (hf : f.type = PacketType.dectPacket.code) :
    mailBytes f.payload = f.bytes := by
  rw [Frame.bytes, hf]
  rfl

/-- Mails that fit the size word are frames. -/
theorem exists_mailFrames {ms : List (List UInt8)}
    (h : ∀ m ∈ ms, m.length + sizeofHeader < 2 ^ 32) :
    ∃ fs : List Frame, fs.map Frame.payload = ms ∧
      ∀ f ∈ fs, f.type = PacketType.dectPacket.code := by
  induction ms with
  | nil => exact ⟨[], rfl, List.forall_mem_nil _⟩
  | cons m ms ih =>
      obtain ⟨hm, hms⟩ := List.forall_mem_cons.mp h
      obtain ⟨fs, rfl, hfs⟩ := ih hms
      exact ⟨⟨PacketType.dectPacket.code, m, hm⟩ :: fs, rfl, List.forall_mem_cons.mpr ⟨rfl, hfs⟩⟩

section Frames

variable {fs : List Frame} (hfs : ∀ f ∈ fs, f.type = PacketType.dectPacket.code)
include hfs

/-- The stream of some mails is that of their frames. -/
theorem flatMap_mailBytes : (fs.map Frame.payload).flatMap mailBytes = encode fs := by
  rw [List.flatMap_map]
  exact List.flatMap_congr fun f hf => mailBytes_payload (hfs f hf)

/-- The bodies of some mails are those of their frames. -/
theorem inBody_mailBytes (p : ℕ) :
    InBody mailBytes sizeofHeader (fs.map Frame.payload) p ↔
      InBody Frame.bytes sizeofHeader fs p := by
  induction fs generalizing p with
  | nil => exact Iff.rfl
  | cons f fs ih =>
      obtain ⟨hf, hrest⟩ := List.forall_mem_cons.mp hfs
      rw [List.map_cons, InBody, InBody, mailBytes_payload hf]
      split
      · exact Iff.rfl
      · exact ih hrest _

/-- What is dispatched for frames with mails are calls of `handle_dect_packet`. -/
theorem calls_of_contents {ps : List Packet}
    (h : ps.map Packet.contents = fs.map Frame.contents) :
    ps.map Packet.call = (fs.map Frame.payload).map Call.handleDectPacket := by
  induction fs generalizing ps with
  | nil =>
      rw [List.map_nil, List.map_eq_nil_iff] at h
      rw [h]
      rfl
  | cons f fs ih =>
      obtain ⟨p, ps, rfl, hp, hps⟩ := List.map_eq_cons_iff.mp h
      obtain ⟨hf, hrest⟩ := List.forall_mem_cons.mp hfs
      obtain ⟨htype, hpayload⟩ := Prod.mk.inj hp
      have hcall : p.call = .handleDectPacket f.payload := by
        rw [Packet.call, if_pos (htype.trans hf), hpayload]
      rw [List.map_cons, hcall, ih hrest hps]
      rfl

end Frames

namespace Proxy

/-! ## What a client is sent -/

open Classical in
/-- The mails that were read while client `c` was connected. -/
noncomputable def mailsFor (c : ℕ) (reads : List Relayed) : List (List UInt8) :=
  (reads.filter fun x => decide (Connected x.connection c)).map Relayed.data

/-- The bytes that client `c` is sent. -/
def bytesTo (c : ℕ) (reads : List Relayed) : List UInt8 :=
  (reads.flatMap fun x => x.deliveriesTo c).flatten

theorem mailsFor_append (c : ℕ) (reads reads' : List Relayed) :
    mailsFor c (reads ++ reads') = mailsFor c reads ++ mailsFor c reads' := by
  rw [mailsFor, List.filter_append, List.map_append]
  rfl

/-- **A client is sent its mails**, each as one frame. -/
theorem bytesTo_eq {reads : List Relayed} (h : ∀ x ∈ reads, x.ExactlyOnce) (c : ℕ) :
    bytesTo c reads = (mailsFor c reads).flatMap mailBytes ∧
      ∀ m ∈ mailsFor c reads, m.length + sizeofHeader < 2 ^ 32 := by
  induction reads with
  | nil => exact ⟨rfl, fun m hm => absurd hm List.not_mem_nil⟩
  | cons x reads ih =>
      obtain ⟨⟨f, hf, hsent⟩, hrest⟩ := List.forall_mem_cons.mp h
      obtain ⟨htype, hdata⟩ := Prod.mk.inj hf
      obtain ⟨hbytes, hlen⟩ := ih hrest
      have hcons : bytesTo c (x :: reads) = (x.deliveriesTo c).flatten ++ bytesTo c reads := by
        rw [bytesTo, List.flatMap_cons, List.flatten_append]
        rfl
      rw [hcons, hbytes]
      by_cases hc : Connected x.connection c
      · have hmails : mailsFor c (x :: reads) = x.data :: mailsFor c reads := by
          simp [mailsFor, hc]
        rw [hmails, (hsent c).1 hc, List.flatMap_cons, ← hdata, mailBytes_payload htype]
        refine ⟨by rw [List.flatten_singleton], List.forall_mem_cons.mpr ⟨f.length_lt, hlen⟩⟩
      · have hmails : mailsFor c (x :: reads) = mailsFor c reads := by
          simp [mailsFor, hc]
        rw [hmails, (hsent c).2 hc]
        exact ⟨rfl, hlen⟩

/-! ## The way to a client -/

/-- The proxy, the bytes on their way to client `c`, and the client's reader with what it has
dispatched. -/
structure Downlink where
  relay : Relay
  inFlight : List UInt8
  manager : Reader × List Packet

namespace Downlink

/-- The proxy processes an event, or `n` bytes arrive and `packet_read` is called. -/
inductive Event
  | proxy (e : Proxy.Event)
  | arrive (n : ℕ)

/-- Process one event of the way to client `c`. -/
def step (heap : Heap) (c : ℕ) (s : Downlink) : Event → Option Downlink
  | .proxy e =>
    (relayStep s.relay e).map fun r =>
      { s with
        relay := r
        inFlight := s.inFlight ++ bytesTo c (r.reads.drop s.relay.reads.length) }
  | .arrive n =>
    if 0 < n ∧ n ≤ s.inFlight.length then
      (deliver heap s.manager (s.inFlight.take n)).map fun m =>
        { s with inFlight := s.inFlight.drop n, manager := m }
    else none

/-- After the start-up of the proxy. -/
def initial (d l : ℕ) : Downlink := ⟨.initial d l, [], (.fresh, [])⟩

/-- Nothing has been lost, repeated or reordered: the frames `done` have been dispatched, the
bytes of the others are in the input buffer, where none is complete, and in flight, and together
they carry the client's mails. -/
def Exact (c : ℕ) (s : Downlink) : Prop :=
  ∃ done post : List Frame, (∀ f ∈ done ++ post, f.type = PacketType.dectPacket.code) ∧
    mailsFor c s.relay.reads = (done ++ post).map Frame.payload ∧
    InStep done (encode done ++ s.manager.1.input) s.manager ∧
    encode post = s.manager.1.input ++ s.inFlight

/-- The bytes that have been sent. -/
noncomputable def sentLength (c : ℕ) (s : Downlink) : ℕ :=
  ((mailsFor c s.relay.reads).flatMap mailBytes).length

/-- The event is an arrival whose last byte lies in the body of a frame. -/
def EndsInBody (c : ℕ) (s : Downlink) : Event → Prop
  | .proxy _ => False
  | .arrive n =>
    InBody mailBytes sizeofHeader (mailsFor c s.relay.reads)
      (s.sentLength c - s.inFlight.length + n)

/-! ## One step -/

/-- The proxy adds to its history. -/
theorem reads_prefix {r r' : Relay} {e : Proxy.Event} (h : relayStep r e = some r') :
    ∃ new, r'.reads = r.reads ++ new := by
  cases e with
  | writeDect c m =>
      obtain rfl := Option.some.inj h
      exact ⟨[], (List.append_nil _).symm⟩
  | turn t =>
      obtain ⟨s₁, -, h⟩ := Option.bind_eq_some_iff.mp h
      obtain ⟨s₂, -, h⟩ := Option.bind_eq_some_iff.mp h
      obtain ⟨s₃, -, rfl⟩ := Option.map_eq_some_iff.mp h
      exact ⟨_, rfl⟩

/-- Every run of the way is one of the proxy. -/
theorem sound_run {heap : Heap} {c d l : ℕ} {es : List Event} {s : Downlink}
    (h : run (step heap c) (initial d l) es = some s) : s.relay.Sound := by
  have hproxy : ∃ es', run relayStep (.initial d l) es' = some s.relay := by
    refine run_induction (P := fun _ s => ∃ es', run relayStep (.initial d l) es' = some s.relay)
      ⟨[], rfl⟩ ?_ es s h
    rintro _ s e s' - ⟨es', hes'⟩ he
    cases e with
    | proxy e =>
        obtain ⟨r, hr, rfl⟩ := Option.map_eq_some_iff.mp he
        exact ⟨es' ++ [e], (run_concat_eq_some relayStep).mpr ⟨s.relay, hes', hr⟩⟩
    | arrive n =>
        obtain ⟨-, he⟩ := Option.ite_none_right_eq_some.mp he
        obtain ⟨m, -, rfl⟩ := Option.map_eq_some_iff.mp he
        exact ⟨es', hes'⟩
  obtain ⟨es', hes'⟩ := hproxy
  exact Proxy.sound_run d l es' s.relay hes'

theorem exact_initial (c d l : ℕ) : Exact c (initial d l) :=
  ⟨[], [], List.forall_mem_nil _, rfl, inStep_fresh, rfl⟩

/-- **The proxy's events** put more bytes in flight. -/
theorem exact_proxy {heap : Heap} {c : ℕ} {s s' : Downlink} {e : Proxy.Event} (hs : Exact c s)
    (hsound : s'.relay.Sound) (h : step heap c s (.proxy e) = some s') : Exact c s' := by
  obtain ⟨r, hr, rfl⟩ := Option.map_eq_some_iff.mp h
  obtain ⟨new, hnew⟩ := reads_prefix hr
  obtain ⟨done, post, htype, hmails, hstep, hbytes⟩ := hs
  have honce : ∀ x ∈ new, x.ExactlyOnce := fun x hx =>
    hsound.exactlyOnce x (by rw [hnew]; exact List.mem_append_right _ hx)
  obtain ⟨hsent, hlen⟩ := bytesTo_eq honce c
  obtain ⟨fs, hfs, hfstype⟩ := exists_mailFrames hlen
  refine ⟨done, post ++ fs, ?_, ?_, hstep, ?_⟩
  · rw [← List.append_assoc]
    exact List.forall_mem_append.mpr ⟨htype, hfstype⟩
  · show mailsFor c r.reads = _
    rw [hnew, mailsFor_append, hmails, ← hfs, ← List.map_append, List.append_assoc]
  · show _ = s.manager.1.input ++ (s.inFlight ++ bytesTo c (r.reads.drop s.relay.reads.length))
    rw [hnew, List.drop_left, hsent, ← hfs, flatMap_mailBytes hfstype, encode_append, hbytes,
      List.append_assoc]

/-- **An arrival** keeps everything exact unless it ends in the body of a frame. -/
theorem exact_arrive_iff {heap : Heap} (halloc : ∀ n size, (heap.realloc n size).isSome)
    {c n : ℕ} {s s' : Downlink} (hs : Exact c s) (h : step heap c s (.arrive n) = some s') :
    Exact c s' ↔ ¬ EndsInBody c s (.arrive n) := by
  obtain ⟨⟨-, hle⟩, h⟩ := Option.ite_none_right_eq_some.mp h
  obtain ⟨m, hm, rfl⟩ := Option.map_eq_some_iff.mp h
  obtain ⟨done, post, htype, hmails, hstep, hbytes⟩ := hs
  have hadmits : ∀ f ∈ done ++ post, heap.Admits f := fun f _ =>
    Heap.Serves.admits fun k => halloc k _
  have hstream : encode done ++ s.manager.1.input ++ s.inFlight.take n ++ s.inFlight.drop n =
      encode (done ++ post) ++ [] := by
    rw [encode_append, hbytes]
    simp
  obtain ⟨m', hm', hcases⟩ := hstep.deliver_cases hadmits rfl hstream (by simp [sizeofHeader])
  obtain rfl : m = m' := Option.some.inj (hm.symm.trans hm')
  -- the position that the arrival reaches
  have hplace : EndsInBody c s (.arrive n) ↔ InBody Frame.bytes sizeofHeader (done ++ post)
      (encode done ++ s.manager.1.input ++ s.inFlight.take n).length := by
    have hlen := congrArg List.length hbytes
    rw [List.length_append] at hlen
    have hpos : s.sentLength c - s.inFlight.length + n =
        (encode done ++ s.manager.1.input ++ s.inFlight.take n).length := by
      rw [sentLength, hmails, flatMap_mailBytes htype, encode_append]
      simp only [List.length_append, List.length_take, min_eq_left hle]
      omega
    rw [EndsInBody, hpos, hmails]
    exact inBody_mailBytes htype _
  rw [hplace]
  rcases hcases with ⟨hout, done', post', hsplit, hstep'⟩ | ⟨hin, hstuck⟩
  · refine iff_of_true ⟨done', post', hsplit ▸ htype, by rw [← hsplit]; exact hmails, ?_, ?_⟩ hout
    · rw [← hstep'.arrived_eq]
      exact hstep'
    · have harrived := hstep'.arrived_eq
      rw [hsplit, harrived, List.append_nil, encode_append, List.append_assoc,
        List.append_cancel_left_eq] at hstream
      exact hstream.symm
  · refine iff_of_false ?_ (not_not_intro hin)
    rintro ⟨done', post', -, -, hstep', -⟩
    exact hstuck.seen hstep'.fresh

/-- While everything is exact, what has been handed over is a beginning of the mails, and all of
them once nothing is in flight. -/
theorem Exact.handed {c : ℕ} {s : Downlink} (h : Exact c s) :
    s.manager.2.map Packet.call <+: (mailsFor c s.relay.reads).map Call.handleDectPacket ∧
      (s.inFlight = [] →
        s.manager.2.map Packet.call = (mailsFor c s.relay.reads).map Call.handleDectPacket) := by
  obtain ⟨done, post, htype, hmails, hstep, hbytes⟩ := h
  have hcalls := calls_of_contents (fun f hf => htype f (List.mem_append_left _ hf))
    hstep.dispatched
  rw [hmails, hcalls, List.map_append, List.map_append]
  refine ⟨List.prefix_append _ _, fun hempty => ?_⟩
  rw [hempty, List.append_nil] at hbytes
  have harrived : encode done ++ s.manager.1.input = encode (done ++ post) := by
    rw [encode_append, hbytes]
  obtain rfl := hstep.post_eq_nil harrived
  rw [List.map_nil, List.map_nil, List.append_nil]

/-! ## Runs -/

/-- **From the device to the manager.**  Whatever turns the proxy takes and however the bytes
arrive: nothing that was read while the client was connected is lost, repeated or reordered on the
way to `handle_dect_packet`, throughout a run, exactly when no arrival of the run ends in the body
of a frame.  Then what has been handed over is always a beginning of the mails read, and all of
them whenever nothing is in flight. -/
theorem downlink_exact_iff (d l c : ℕ) (heap : Heap)
    (halloc : ∀ n size, (heap.realloc n size).isSome) (es : List Event) :
    (Throughout (step heap c) (fun _ s => Exact c s) (initial d l) es ↔
        Along (step heap c) (fun _ s e _ => ¬ EndsInBody c s e) (initial d l) es) ∧
      (Along (step heap c) (fun _ s e _ => ¬ EndsInBody c s e) (initial d l) es →
        Throughout (step heap c) (fun _ s =>
          s.manager.2.map Packet.call <+: (mailsFor c s.relay.reads).map Call.handleDectPacket ∧
            (s.inFlight = [] → s.manager.2.map Packet.call =
              (mailsFor c s.relay.reads).map Call.handleDectPacket)) (initial d l) es) := by
  have hiff : Throughout (step heap c) (fun _ s => Exact c s) (initial d l) es ↔
      Along (step heap c) (fun _ s e _ => ¬ EndsInBody c s e) (initial d l) es := by
    refine throughout_iff_along (exact_initial c d l) ?_ es
    intro pre s e s' hrun hs he
    cases e with
    | proxy e =>
        have hrun' := (run_concat_eq_some (step heap c)).mpr ⟨s, hrun, he⟩
        exact iff_of_true (exact_proxy hs (sound_run hrun') he) id
    | arrive n => exact exact_arrive_iff halloc hs he
  refine ⟨hiff, fun hes pre s hpre hrun => ?_⟩
  exact (hiff.mpr hes pre s hpre hrun).handed

/-- Where an arrival ends, when the mails are known. -/
theorem endsInBody_arrive_iff {c n p : ℕ} {s : Downlink} {ms : List (List UInt8)}
    (hmails : mailsFor c s.relay.reads = ms)
    (hp : (ms.flatMap mailBytes).length - s.inFlight.length + n = p) :
    EndsInBody c s (.arrive n) ↔ InBody mailBytes sizeofHeader ms p := by
  rw [EndsInBody, sentLength, hmails, hp]

/-- A mail that is read in the turn in which a client connects is the client's. -/
theorem mailsFor_acceptAndRead (m : List UInt8) (sends : List (ℕ × List UInt8)) :
    mailsFor 0 [⟨m, Function.update (fun _ => none) 5 (some 0), sends⟩] = [m] := by
  have hconn : Connected (Function.update (fun _ => none) 5 (some 0)) 0 := ⟨5, rfl⟩
  simp [mailsFor, hconn]

/-- A mail that is read when the client has just connected. -/
def readOne : Event := .proxy (.turn (acceptAndRead [7]))

/-- It arrives in two pieces, cut in the header, and is handed over. -/
theorem cut_in_header_handed :
    ∃ s, run (step .ample 0) (initial 3 4) [readOne, .arrive 5, .arrive 4] = some s ∧
      s.manager.2.map Packet.call = [.handleDectPacket [7]] := by
  obtain ⟨s, hs⟩ : ∃ s, run (step .ample 0) (initial 3 4) [readOne, .arrive 5, .arrive 4] =
      some s := ⟨_, rfl⟩
  have hsafe : Along (step .ample 0) (fun _ s e _ => ¬ EndsInBody 0 s e) (initial 3 4)
      [readOne, .arrive 5, .arrive 4] := by
    refine .cons rfl id <| .cons rfl (fun h => ?_) <| .cons rfl (fun h => ?_) <| along_nil _ _
    · rw [endsInBody_arrive_iff (p := 5) (mailsFor_acceptAndRead _ _) rfl] at h
      exact absurd h (by decide)
    · rw [endsInBody_arrive_iff (p := 9) (mailsFor_acceptAndRead _ _) rfl] at h
      exact absurd h (by decide)
  have hall := ((downlink_exact_iff 3 4 0 .ample (fun _ _ => rfl)
    [readOne, .arrive 5, .arrive 4]).2 hsafe).last hs
  obtain rfl := Option.some.inj hs
  exact ⟨_, rfl, (hall.2 rfl).trans (congrArg (List.map Call.handleDectPacket)
    (mailsFor_acceptAndRead _ _))⟩

end Downlink

end Proxy

end DectManager
