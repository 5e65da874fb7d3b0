/-
# The debug daemon `dectdbgd.c`

The loop of the daemon is that of the proxy.  It reads from `/dev/dectdbg` and
sends what it has read without a header: the clients are to see the stream of
the device.  The size that it sends is still that of a whole packet, so `send`
takes `sizeof(struct packet_header)` bytes from behind the mail, in the array or
behind its end.  The descriptors below 3 are sent nothing.

* `sendBuffer_eq`, `sendBuffer_within_iff`: a mail is sent with what lies behind it
  in memory, and behind the array for the longest mails.
* `ordered_run`: the descriptors are in order, and the calls of `send` are those
  that the mails read have led to.
* `debug_stream_iff`: the clients have been sent the stream of the device all
  through a run exactly when no mail is read for a client.
-/
import DectManager.Broadcast

namespace DectManager

open PartialRun

namespace DebugDaemon

/-! ## One turn of the loop -/

/-- What the kernel answers in one turn, and what the stack holds from `p.data`
on when the turn begins. -/
structure Turn extends Proxy.Turn where
  stack : ℕ → UInt8

/-- What the stack holds from `p.data` on once `data` has been read there. -/
def inMemory (stack : ℕ → UInt8) (data : List UInt8) (k : ℕ) : UInt8 := data.getD k (stack k)

/-- The bytes that `send` takes at `p.data`. -/
def sendBuffer (stack : ℕ → UInt8) (data : List UInt8) : List UInt8 :=
  let size := UInt32.ofNat (data.length + sizeofHeader)
  (List.range size.toNat).map (inMemory stack data)

/-- The descriptors that a mail is sent to. -/
def targets (s : Proxy) : List ℕ :=
  (List.range' 3 (s.fdmax + 1 - 3)).filter fun i => i ≠ s.l ∧ i ≠ s.d

/-- Read a mail from the device and send it to all clients. -/
def broadcast (t : Turn) (s : Proxy) : Option Proxy :=
  t.read.bind fun data =>
    if data.length ≤ maxMailSize then
      some { s with sent := s.sent ++ (targets s).map fun i => (i, sendBuffer t.stack data) }
    else none

/-- Check the device for data. -/
def checkDect (t : Turn) (fds : Finset ℕ) (s : Proxy) : Option Proxy :=
  if s.d ∈ fds then broadcast t s else some s

/-- One turn: `select` and the three parts of the loop's body.  The first and the
third one are those of the proxy. -/
def turn (t : Turn) (s : Proxy) : Option Proxy :=
  (Proxy.acceptNew t.toTurn s).bind fun s₁ =>
    (checkDect t (Proxy.rfds t.toTurn s) s₁).bind fun s₂ =>
      run (Proxy.checkDescriptor t.toTurn (Proxy.rfds t.toTurn s)) s₂
        (List.range (s₂.fdmax + 1))

/-- A client writes, or the daemon takes a turn. -/
inductive Event
  | write (c : ℕ) (m : List UInt8)
  | turn (t : Turn)

/-- Process one event. -/
def step (s : Proxy) : Event → Option Proxy
  | .write c m => some (Proxy.writeDect c m s)
  | .turn t => turn t s

/-! ## What is sent -/

/-- **The buffer** is the mail and what lies behind it. -/
theorem sendBuffer_eq (stack : ℕ → UInt8) {data : List UInt8} (h : data.length ≤ maxMailSize) :
    sendBuffer stack data =
      data ++ (List.range sizeofHeader).map fun k => stack (data.length + k) := by
  have hsize : (UInt32.ofNat (data.length + sizeofHeader)).toNat = data.length + sizeofHeader := by
    rw [UInt32.toNat_ofNat']
    apply Nat.mod_eq_of_lt
    exact lt_of_le_of_lt (Nat.add_le_add_right h sizeofHeader) (by decide)
  rw [sendBuffer, hsize, List.range_add, List.map_append, List.map_map]
  congr 1
  · -- the mail is where it was read
    refine List.ext_getElem (by simp) fun k hk _ => ?_
    have hlt : k < data.length := by simpa using hk
    rw [List.getElem_map, List.getElem_range, inMemory, List.getD_eq_getElem _ _ hlt]
  · refine List.map_congr_left fun k _ => ?_
    show inMemory stack data (data.length + k) = stack (data.length + k)
    rw [inMemory, List.getD_eq_default _ _ (Nat.le_add_right _ _)]

theorem length_sendBuffer (stack : ℕ → UInt8) {data : List UInt8}
    (h : data.length ≤ maxMailSize) :
    (sendBuffer stack data).length = data.length + sizeofHeader := by
  rw [sendBuffer_eq stack h, List.length_append, List.length_map, List.length_range]

/-- The buffer is never the mail alone. -/
theorem sendBuffer_ne (stack : ℕ → UInt8) {data : List UInt8} (h : data.length ≤ maxMailSize) :
    sendBuffer stack data ≠ data := by
  intro heq
  have hlen := length_sendBuffer stack h
  rw [heq] at hlen
  exact absurd hlen (by simp [sizeofHeader])

/-- The buffer ends in `p.data` for the mails that leave room for a header. -/
theorem sendBuffer_within_iff (stack : ℕ → UInt8) {data : List UInt8}
    (h : data.length ≤ maxMailSize) :
    (sendBuffer stack data).length ≤ maxMailSize ↔ data.length ≤ maxMailSize - sizeofHeader := by
  rw [length_sendBuffer stack h]
  show data.length + 8 ≤ 4098 ↔ data.length ≤ 4098 - 8
  omega

/-- **The second part** of a turn sends to all the targets if the device is
ready. -/
theorem checkDect_cases {t : Turn} {fds : Finset ℕ} {s s' : Proxy}
    (h : checkDect t fds s = some s') :
    (s.d ∉ fds ∧ s' = s) ∨ ∃ data, s.d ∈ fds ∧ t.read = some data ∧
      data.length ≤ maxMailSize ∧
      s' = { s with sent := s.sent ++ (targets s).map fun i => (i, sendBuffer t.stack data) } := by
  unfold checkDect at h
  split_ifs at h with hready
  · obtain ⟨data, hread, hdata⟩ := Option.bind_eq_some_iff.mp h
    obtain ⟨hlen, heq⟩ := Option.ite_none_right_eq_some.mp hdata
    exact .inr ⟨data, hready, hread, hlen, (Option.some.inj heq).symm⟩
  · exact .inl ⟨hready, (Option.some.inj h).symm⟩

/-- The descriptor of a client is a target unless it is below 3. -/
theorem mem_targets_iff {s : Proxy} (h : s.Wired) {i c : ℕ} (hi : s.connection i = some c) :
    i ∈ targets s ↔ 3 ≤ i := by
  obtain ⟨hd, hl⟩ := h.ne_of_connection i c hi
  have hle : i ≤ s.fdmax := h.le_fdmax i ((h.mem_master i).mpr (.inr (.inr ⟨c, hi⟩)))
  rw [targets, List.mem_filter, List.mem_range'_1, decide_eq_true_eq]
  constructor
  · rintro ⟨⟨hthree, -⟩, -⟩
    exact hthree
  · intro hthree
    refine ⟨⟨hthree, ?_⟩, hl, hd⟩
    omega

/-! ## Runs with the history of the device -/

/-- Process one event, and keep what is read. -/
def relayStep (r : Proxy.Relay) : Event → Option Proxy.Relay
  | .write c m => some { r with proxy := Proxy.writeDect c m r.proxy }
  | .turn t =>
    (Proxy.acceptNew t.toTurn r.proxy).bind fun s₁ =>
      (checkDect t (Proxy.rfds t.toTurn r.proxy) s₁).bind fun s₂ =>
        (run (Proxy.checkDescriptor t.toTurn (Proxy.rfds t.toTurn r.proxy)) s₂
          (List.range (s₂.fdmax + 1))).map fun s₃ =>
          ⟨s₃, r.reads ++ Proxy.readsOf t.toTurn (Proxy.rfds t.toTurn r.proxy) s₁ s₂⟩

/-- **Keeping the history** restricts no run of the daemon. -/
theorem relay_lift (d l : ℕ) (es : List Event) (s : Proxy)
    (hrun : run step (.initial d l) es = some s) :
    ∃ r, run relayStep (.initial d l) es = some r ∧ r.proxy = s := by
  have hfollow (r : Proxy.Relay) (e : Event) (s' : Proxy) (hs : step r.proxy e = some s') :
      ∃ r', relayStep r e = some r' ∧ r'.proxy = s' := by
    cases e with
    | write c m => exact ⟨_, rfl, Option.some.inj hs⟩
    | turn t =>
        obtain ⟨s₁, h₁, hs⟩ := Option.bind_eq_some_iff.mp hs
        obtain ⟨s₂, h₂, h₃⟩ := Option.bind_eq_some_iff.mp hs
        refine ⟨⟨s', r.reads ++ Proxy.readsOf t.toTurn (Proxy.rfds t.toTurn r.proxy) s₁ s₂⟩,
          ?_, rfl⟩
        rw [relayStep, h₁, Option.bind_some, h₂, Option.bind_some, h₃, Option.map_some]
  exact run_lift hfollow es (.initial d l) s hrun

/-- The descriptors are in order, and only the mails that have been read have led
to calls of `send`. -/
structure Ordered (r : Proxy.Relay) : Prop where
  wired : r.proxy.Wired
  sent : r.proxy.sent = r.reads.flatMap Proxy.Relayed.sends

/-- Nothing is opened or closed by the second part. -/
theorem wired_checkDect {t : Turn} {fds : Finset ℕ} {s₁ s₂ : Proxy} (h : s₁.Wired)
    (hs : checkDect t fds s₁ = some s₂) : s₂.Wired ∧ s₂.master = s₁.master := by
  rcases checkDect_cases hs with ⟨-, rfl⟩ | ⟨data, -, -, -, rfl⟩
  · exact ⟨h, rfl⟩
  · exact ⟨h.congr rfl rfl rfl rfl rfl rfl, rfl⟩

/-- What the second part adds to the history: nothing, or the mail that it has
read, sent to all the targets. -/
theorem readsOf_cases {t : Turn} {fds : Finset ℕ} {s₁ s₂ : Proxy}
    (hs : checkDect t fds s₁ = some s₂) :
    (s₁.d ∉ fds ∧ s₂.sent = s₁.sent ∧ Proxy.readsOf t.toTurn fds s₁ s₂ = []) ∨
      ∃ data, s₁.d ∈ fds ∧ t.read = some data ∧ data.length ≤ maxMailSize ∧
        s₂.sent = s₁.sent ++ (targets s₁).map (fun i => (i, sendBuffer t.stack data)) ∧
        Proxy.readsOf t.toTurn fds s₁ s₂ =
          [⟨data, s₁.connection, (targets s₁).map fun i => (i, sendBuffer t.stack data)⟩] := by
  rcases checkDect_cases hs with ⟨hd, rfl⟩ | ⟨data, hd, hread, hlen, rfl⟩
  · refine .inl ⟨hd, rfl, ?_⟩
    rw [Proxy.readsOf, if_neg hd]
  · refine .inr ⟨data, hd, hread, hlen, rfl, ?_⟩
    rw [Proxy.readsOf, if_pos hd, hread]
    simp

theorem ordered_turn {t : Turn} {r r' : Proxy.Relay} (h : Ordered r)
    (hs : relayStep r (.turn t) = some r') : Ordered r' := by
  obtain ⟨s₁, h₁, hs⟩ := Option.bind_eq_some_iff.mp hs
  obtain ⟨s₂, h₂, hs⟩ := Option.bind_eq_some_iff.mp hs
  obtain ⟨s₃, h₃, rfl⟩ := Option.map_eq_some_iff.mp hs
  have hsent₂ : s₂.sent = s₁.sent ++ (Proxy.readsOf t.toTurn (Proxy.rfds t.toTurn r.proxy) s₁
      s₂).flatMap Proxy.Relayed.sends := by
    rcases readsOf_cases h₂ with ⟨-, hsent, hreads⟩ | ⟨data, -, -, -, hsent, hreads⟩
    · rw [hsent, hreads, List.flatMap_nil, List.append_nil]
    · rw [hsent, hreads, List.flatMap_singleton]
  obtain ⟨hwired₂, hmaster⟩ := wired_checkDect (Proxy.wired_acceptNew h.wired h₁) h₂
  obtain ⟨hwired, hsent⟩ := Proxy.wired_sent_loop h.sent h₁ hwired₂ hmaster hsent₂ h₃
  exact ⟨hwired, hsent⟩

/-- **A run of the daemon** with its history. -/
theorem ordered_run (d l : ℕ) :
    ∀ es r, run relayStep (.initial d l) es = some r → Ordered r := by
  refine run_induction (P := fun _ (r : Proxy.Relay) => Ordered r) ?_ ?_
  · exact ⟨Proxy.wired_initial d l, rfl⟩
  · intro _ r e r' _ hr hstep
    cases e with
    | write c m =>
        obtain rfl := Option.some.inj hstep
        exact ⟨hr.wired.congr rfl rfl rfl rfl rfl rfl, hr.sent⟩
    | turn t => exact ordered_turn hr hstep

/-! ## The streams of the clients -/

/-- The bytes that client `c` has been sent. -/
def streamTo (r : Proxy.Relay) (c : ℕ) : List UInt8 :=
  r.reads.flatMap fun x => (x.deliveriesTo c).flatten

open scoped Classical in
/-- The bytes that have been read from the device while client `c` was
connected. -/
noncomputable def readFor (r : Proxy.Relay) (c : ℕ) : List UInt8 :=
  r.reads.flatMap fun x => if Proxy.Connected x.connection c then x.data else []

/-- Every client has been sent the stream of the device, and never a byte that
was not read. -/
structure Forwarded (r : Proxy.Relay) : Prop where
  sent : r.proxy.sent = r.reads.flatMap Proxy.Relayed.sends
  stream : ∀ c, streamTo r c = readFor r c
  onlyRead : ∀ x ∈ r.reads, ∀ c, ∀ p ∈ x.deliveriesTo c, p = x.data

/-- A mail went unchanged to all that were connected. -/
structure Unchanged (x : Proxy.Relayed) : Prop where
  connected : ∀ c, Proxy.Connected x.connection c → (x.deliveriesTo c).flatten = x.data
  onlyRead : ∀ c, ∀ p ∈ x.deliveriesTo c, p = x.data

/-- **One more mail** keeps the streams exactly when it goes unchanged to all
that are connected. -/
theorem forwarded_concat_iff {r : Proxy.Relay} (h : Forwarded r) {s : Proxy} {x : Proxy.Relayed}
    (hsent : s.sent = (r.reads ++ [x]).flatMap Proxy.Relayed.sends) :
    Forwarded ⟨s, r.reads ++ [x]⟩ ↔ Unchanged x := by
  -- a client that is not connected is sent nothing, and nothing is read for it
  have hstream (c : ℕ) : streamTo ⟨s, r.reads ++ [x]⟩ c = readFor ⟨s, r.reads ++ [x]⟩ c ↔
      (Proxy.Connected x.connection c → (x.deliveriesTo c).flatten = x.data) := by
    have hbefore : streamTo r c = readFor r c := h.stream c
    unfold streamTo readFor at hbefore ⊢
    rw [List.flatMap_append, List.flatMap_append, hbefore, List.append_cancel_left_eq,
      List.flatMap_singleton, List.flatMap_singleton]
    by_cases hc : Proxy.Connected x.connection c
    · rw [if_pos hc]
      exact (imp_iff_right hc).symm
    · rw [if_neg hc, Proxy.deliveriesTo_of_not_connected hc]
      exact iff_of_true rfl fun hc' => absurd hc' hc
  constructor
  · intro h'
    refine ⟨fun c => (hstream c).mp (h'.stream c), h'.onlyRead x ?_⟩
    exact List.mem_append_right _ List.mem_cons_self
  · intro hx
    refine ⟨hsent, fun c => (hstream c).mpr (hx.connected c), ?_⟩
    rw [List.forall_mem_append, List.forall_mem_singleton]
    exact ⟨h.onlyRead, hx.onlyRead⟩

/-- **One mail** goes unchanged to all that are connected exactly when it is
empty and nobody is connected on a descriptor from 3 on, or nobody at all. -/
theorem unchanged_iff {s : Proxy} (h : s.Wired) (stack : ℕ → UInt8) {data : List UInt8}
    (hlen : data.length ≤ maxMailSize) :
    Unchanged ⟨data, s.connection, (targets s).map fun i => (i, sendBuffer stack data)⟩ ↔
      ∀ i c, s.connection i = some c → ¬ (3 ≤ i ∨ data ≠ []) := by
  have hnodup : (targets s).Nodup := (List.nodup_range' ..).filter _
  have hdeliver (i c : ℕ) (hi : s.connection i = some c) :
      Proxy.Relayed.deliveriesTo
        ⟨data, s.connection, (targets s).map fun i => (i, sendBuffer stack data)⟩ c =
          if 3 ≤ i then [sendBuffer stack data] else [] := by
    rw [Proxy.deliveriesTo_map, Proxy.filter_connection h hnodup hi]
    simp only [mem_targets_iff h hi]
    split_ifs <;> rfl
  constructor
  · rintro hunchanged i c hi (hthree | hne)
    · -- the buffer sent is longer than the mail
      have hsent := hunchanged.onlyRead c (sendBuffer stack data)
      rw [hdeliver i c hi, if_pos hthree] at hsent
      exact sendBuffer_ne stack hlen (hsent List.mem_cons_self)
    · have hflat := hunchanged.connected c ⟨i, hi⟩
      rw [hdeliver i c hi] at hflat
      split_ifs at hflat with hthree
      · rw [List.flatten_singleton] at hflat
        exact sendBuffer_ne stack hlen hflat
      · exact hne hflat.symm
  · intro hnone
    have hnothing (c : ℕ) : Proxy.Relayed.deliveriesTo
        ⟨data, s.connection, (targets s).map fun i => (i, sendBuffer stack data)⟩ c = [] := by
      by_cases hc : Proxy.Connected s.connection c
      · obtain ⟨i, hi⟩ := hc
        rw [hdeliver i c hi, if_neg fun hthree => hnone i c hi (.inl hthree)]
      · exact Proxy.deliveriesTo_of_not_connected hc
    refine ⟨fun c hc => ?_, fun c p hp => ?_⟩
    · obtain ⟨i, hi⟩ := hc
      rw [hnothing c]
      by_contra hne
      exact hnone i c hi (.inr (Ne.symm hne))
    · rw [hnothing c] at hp
      exact absurd hp List.not_mem_nil

/-! ## When the stream is forwarded -/

/-- The turn accepts a connection on descriptor `i`. -/
def Accepts (t : Turn) (s : Proxy) (i : ℕ) : Prop :=
  s.l ∈ Proxy.rfds t.toTurn s ∧ t.accept = some i

/-- The connections after the first part of a turn. -/
theorem connected_acceptNew {t : Turn} {s s₁ : Proxy}
    (h : Proxy.acceptNew t.toTurn s = some s₁) (i : ℕ) :
    (∃ c, s₁.connection i = some c) ↔ (∃ c, s.connection i = some c) ∨ Accepts t s i := by
  unfold Proxy.acceptNew at h
  split_ifs at h with hready
  · obtain ⟨n, haccept, hn⟩ := Option.bind_eq_some_iff.mp h
    obtain ⟨-, heq⟩ := Option.ite_none_right_eq_some.mp hn
    obtain rfl := Option.some.inj heq
    have haccepts : Accepts t s i ↔ i = n := by
      rw [Accepts, haccept, Option.some_inj]
      exact ⟨fun hi => hi.2.symm, fun hi => ⟨hready, hi.symm⟩⟩
    rw [haccepts]
    by_cases hi : i = n
    · subst hi
      simp
    · simp [hi]
  · obtain rfl := Option.some.inj h
    exact ⟨.inl, fun hcases => hcases.resolve_right fun hi => hready hi.1⟩

/-- A turn reads a mail while a client is connected on a descriptor from 3 on, or
one that is not empty while any client is connected.  A connection that the turn
accepts counts. -/
def ReadsForClient (s : Proxy) (t : Turn) : Prop :=
  s.d ∈ Proxy.rfds t.toTurn s ∧ ∃ data, t.read = some data ∧
    ∃ i, ((∃ c, s.connection i = some c) ∨ Accepts t s i) ∧ (3 ≤ i ∨ data ≠ [])

/-- The event is a turn that reads a mail for a client. -/
def SpoilsStream (r : Proxy.Relay) : Event → Prop
  | .write _ _ => False
  | .turn t => ReadsForClient r.proxy t

/-- **One turn** keeps the streams exactly when it reads no mail for a client. -/
theorem forwarded_turn_iff {t : Turn} {r r' : Proxy.Relay} (hr : Ordered r) (h : Forwarded r)
    (hs : relayStep r (.turn t) = some r') : Forwarded r' ↔ ¬ ReadsForClient r.proxy t := by
  have hsent : r'.proxy.sent = r'.reads.flatMap Proxy.Relayed.sends := (ordered_turn hr hs).sent
  obtain ⟨s₁, h₁, hs⟩ := Option.bind_eq_some_iff.mp hs
  obtain ⟨s₂, h₂, hs⟩ := Option.bind_eq_some_iff.mp hs
  obtain ⟨s₃, -, rfl⟩ := Option.map_eq_some_iff.mp hs
  have hd₁ : s₁.d = r.proxy.d := by
    rcases Proxy.acceptNew_cases h₁ with rfl | ⟨n, -, -, -, rfl⟩ <;> rfl
  rcases readsOf_cases h₂ with ⟨hd, -, hreads⟩ | ⟨data, hd, hread, hlen, -, hreads⟩
  · simp only [hreads, List.append_nil] at hsent ⊢
    refine iff_of_true ⟨hsent, h.stream, h.onlyRead⟩ fun hspoils => ?_
    rw [hd₁] at hd
    exact hd hspoils.1
  · simp only [hreads] at hsent ⊢
    have hwired₁ := Proxy.wired_acceptNew hr.wired h₁
    rw [forwarded_concat_iff h hsent, unchanged_iff hwired₁ t.stack hlen]
    rw [hd₁] at hd
    constructor
    · rintro hnone ⟨-, data', hread', i, hi, hcase⟩
      obtain rfl : data = data' := Option.some.inj (hread.symm.trans hread')
      obtain ⟨c, hc⟩ := (connected_acceptNew h₁ i).mpr hi
      exact hnone i c hc hcase
    · intro hspoils i c hi hcase
      exact hspoils ⟨hd, data, hread, i, (connected_acceptNew h₁ i).mp ⟨c, hi⟩, hcase⟩

/-- **The debug stream.**  All through a run every client has been sent what was
read while it was connected, and not a byte more, exactly when no turn of the run
reads a mail for a client. -/
theorem debug_stream_iff (d l : ℕ) (es : List Event) :
    Throughout relayStep (fun _ r => Forwarded r) (.initial d l) es ↔
      Along relayStep (fun _ r e _ => ¬ SpoilsStream r e) (.initial d l) es := by
  refine throughout_iff_along ?_ ?_ es
  · exact ⟨rfl, fun _ => rfl, fun x hx => absurd hx List.not_mem_nil⟩
  · intro es r e r' hrun hr hstep
    have hordered := ordered_run d l es r hrun
    cases e with
    | write c m =>
        obtain rfl := Option.some.inj hstep
        exact iff_of_true ⟨hr.sent, hr.stream, hr.onlyRead⟩ not_false
    | turn t => exact forwarded_turn_iff hordered hr hstep

/-- A mail of one byte is sent to the client on descriptor 5 with the eight bytes
of the stack behind it. -/
theorem mail_sent_with_stack :
    ¬ ∀ d l es r, run relayStep (.initial d l) es = some r → Forwarded r := by
  intro h
  let t : Turn := ⟨Proxy.acceptAndRead [7], fun k => UInt8.ofNat k⟩
  obtain ⟨r, hrun⟩ : ∃ r, run relayStep (.initial 3 4) [.turn t] = some r := ⟨_, rfl⟩
  have honly := (h 3 4 [.turn t] r hrun).onlyRead
  obtain rfl := Option.some.inj hrun
  exact absurd (honly _ List.mem_cons_self 0 [7, 1, 2, 3, 4, 5, 6, 7, 8] (by decide)) (by decide)

end DebugDaemon

end DectManager
