/-
# The proxy `dectproxy.c` and the mails it carries

The proxy copies between `/dev/dect` and its clients, of which the manager is
one, in one `select` loop.  What a client writes with `write_dect` is a stream
of bytes for the kernel; the proxy writes to the device whatever one `recv`
returns.

* `carried_run`: in every run the writes on behalf of a client are cut from its
  stream one after the other, one for each `recv`, none longer than
  `MAX_MAIL_SIZE`.
* `mail_boundaries_kept_iff`: once everything has arrived, the device has been
  given each client's mails, one write a mail and in order, exactly when every
  `recv` returned just one mail.
-/
import DectManager.PartialRun
import DectManager.Framing

namespace DectManager

open PartialRun

/-! ## Sources of a log -/

/-- The entries of a log that come from one source. -/
def perSource {ι α : Type*} [DecidableEq ι] (c : ι) (log : List (ι × α)) : List α :=
  (log.filter fun x => x.1 = c).map Prod.snd

theorem perSource_concat {ι α : Type*} [DecidableEq ι] (c : ι) (log : List (ι × α)) (x : ι × α) :
    perSource c (log ++ [x]) = perSource c log ++ if x.1 = c then [x.2] else [] := by
  unfold perSource
  rw [List.filter_append, List.map_append]
  by_cases h : x.1 = c <;> simp [h]

/-! ## State -/

/-- A client connection as the kernel sees it: the mails that the client has
written to it and the bytes of them that have not been received yet. -/
structure Peer where
  mails : List (List UInt8)
  pending : List UInt8

/-- The variables of `main`, the connections, and the history of its calls of
`recv`, of its writes to the device and of its calls of `send`. -/
structure Proxy where
  d : ℕ
  l : ℕ
  fdmax : ℕ
  master : Finset ℕ
  /-- which connection an open client descriptor stands for -/
  connection : ℕ → Option ℕ
  /-- how many connections have been accepted -/
  accepted : ℕ
  peer : ℕ → Peer
  /-- the results of `recv`, with the connection -/
  received : List (ℕ × ℕ)
  /-- the buffers written to the device, with the connection they came from -/
  written : List (ℕ × List UInt8)
  /-- the descriptors and buffers of the calls of `send` -/
  sent : List (ℕ × List UInt8)

namespace Proxy

/-- What `recv` returns: -1, 0 or a number of bytes. -/
inductive Recv
  | error
  | closed
  | data (n : ℕ)

/-- What the kernel answers in one turn of the loop. -/
structure Turn where
  ready : ℕ → Bool
  /-- the descriptor of the accepted connection; `none` is -1 -/
  accept : Option ℕ
  /-- what the device holds; `none` is -1 -/
  read : Option (List UInt8)
  recv : ℕ → Recv

/-- After the start-up of `main`. -/
def initial (d l : ℕ) : Proxy where
  d := d
  l := l
  fdmax := max d l
  master := {d, l}
  connection := fun _ => none
  accepted := 0
  peer := fun _ => ⟨[], []⟩
  received := []
  written := []
  sent := []

/-! ## One turn of the loop

`none` is a call of `exit_failure`, or an answer that the kernel never gives. -/

/-- Accept a new connection.  Its descriptor is not in use. -/
def acceptConnection (t : Turn) (s : Proxy) : Option Proxy :=
  t.accept.bind fun n =>
    if n ≠ s.d ∧ n ≠ s.l ∧ s.connection n = none then
      some { s with
        master := insert n s.master
        fdmax := max s.fdmax n
        connection := Function.update s.connection n (some s.accepted)
        accepted := s.accepted + 1 }
    else none

/-- Read a mail from the device and send it to all clients. -/
def broadcast (t : Turn) (s : Proxy) : Option Proxy :=
  t.read.bind fun data =>
    if data.length ≤ maxMailSize then
      let size := UInt32.ofNat (data.length + sizeofHeader)
      let p := headerBytes size PacketType.dectPacket.code ++ data
      -- closed descriptors below `fdmax` are sent to as well
      let fds := (List.range (s.fdmax + 1)).filter fun i => i ≠ s.l ∧ i ≠ s.d
      some { s with sent := s.sent ++ fds.map fun i => (i, p) }
    else none

/-- A client's descriptor is ready: receive from it and write to the device. -/
def checkClient (t : Turn) (s : Proxy) (i : ℕ) : Option Proxy :=
  match s.connection i with
  | none => some s
  | some c =>
    match t.recv i with
    | .error => some s
    | .closed =>
      -- bytes that have not been received by now never are
      some { s with
        master := s.master.erase i
        connection := Function.update s.connection i none }
    | .data n =>
      -- `n` has nothing to do with where a mail ends
      if 0 < n ∧ n ≤ maxMailSize ∧ n ≤ (s.peer c).pending.length then
        some { s with
          peer := Function.update s.peer c ⟨(s.peer c).mails, (s.peer c).pending.drop n⟩
          received := s.received ++ [(c, n)]
          written := s.written ++ [(c, (s.peer c).pending.take n)] }
      else none

/-- One turn: `select` and the three parts of the loop's body. -/
def turn (t : Turn) (s : Proxy) : Option Proxy :=
  let rfds := s.master.filter fun i => t.ready i
  (if s.l ∈ rfds then acceptConnection t s else some s).bind fun s =>
    (if s.d ∈ rfds then broadcast t s else some s).bind fun s =>
      run (fun s i => if i ≠ s.l ∧ i ≠ s.d ∧ i ∈ rfds then checkClient t s i else some s) s
        (List.range (s.fdmax + 1))

/-- `write_dect` of the client on connection `c`: the bytes of the mail join the
stream. -/
def writeDect (c : ℕ) (m : List UInt8) (s : Proxy) : Proxy :=
  { s with
    peer := Function.update s.peer c ⟨(s.peer c).mails ++ [m], (s.peer c).pending ++ m⟩ }

/-- A client writes a mail, or the proxy takes a turn. -/
inductive Event
  | writeDect (c : ℕ) (m : List UInt8)
  | turn (t : Turn)

/-- Process one event. -/
def step (s : Proxy) : Event → Option Proxy
  | .writeDect c m => some (writeDect c m s)
  | .turn t => turn t s

/-! ## The parts of a turn -/

/-- What `select` reports. -/
def rfds (t : Turn) (s : Proxy) : Finset ℕ := s.master.filter fun i => t.ready i

/-- Accept new connections. -/
def acceptNew (t : Turn) (s : Proxy) : Option Proxy :=
  if s.l ∈ rfds t s then acceptConnection t s else some s

/-- Check the device for data. -/
def checkDect (t : Turn) (fds : Finset ℕ) (s : Proxy) : Option Proxy :=
  if s.d ∈ fds then broadcast t s else some s

/-- Check one descriptor in the loop over the clients. -/
def checkDescriptor (t : Turn) (fds : Finset ℕ) (s : Proxy) (i : ℕ) : Option Proxy :=
  if i ≠ s.l ∧ i ≠ s.d ∧ i ∈ fds then checkClient t s i else some s

/-- A turn is its three parts, and all of them look at what `select` has reported. -/
theorem turn_eq (t : Turn) (s : Proxy) :
    turn t s = (acceptNew t s).bind fun s₁ => (checkDect t (rfds t s) s₁).bind fun s₂ =>
      run (checkDescriptor t (rfds t s)) s₂ (List.range (s₂.fdmax + 1)) := rfl

/-- **The first part** leaves things as they are, or adds a connection on a free
descriptor. -/
theorem acceptNew_cases {t : Turn} {s s' : Proxy} (h : acceptNew t s = some s') :
    s' = s ∨ ∃ n, n ≠ s.d ∧ n ≠ s.l ∧ s.connection n = none ∧
      s' = { s with
        master := insert n s.master
        fdmax := max s.fdmax n
        connection := Function.update s.connection n (some s.accepted)
        accepted := s.accepted + 1 } := by
  unfold acceptNew at h
  split_ifs at h with hready
  · obtain ⟨n, -, hn⟩ := Option.bind_eq_some_iff.mp h
    obtain ⟨⟨hd, hl, hfree⟩, heq⟩ := Option.ite_none_right_eq_some.mp hn
    exact .inr ⟨n, hd, hl, hfree, (Option.some.inj heq).symm⟩
  · exact .inl (Option.some.inj h).symm

/-- The descriptors that a mail is sent to. -/
def targets (s : Proxy) : List ℕ :=
  (List.range (s.fdmax + 1)).filter fun i => i ≠ s.l ∧ i ≠ s.d

/-- **The second part** sends a mail to all the targets if the device is ready. -/
theorem checkDect_cases {t : Turn} {fds : Finset ℕ} {s s' : Proxy}
    (h : checkDect t fds s = some s') :
    (s.d ∉ fds ∧ s' = s) ∨ ∃ f : Frame, s.d ∈ fds ∧ t.read = some f.payload ∧
      f.type = PacketType.dectPacket.code ∧
      s' = { s with sent := s.sent ++ s.targets.map fun i => (i, f.bytes) } := by
  unfold checkDect at h
  split_ifs at h with hready
  · obtain ⟨data, hread, hdata⟩ := Option.bind_eq_some_iff.mp h
    obtain ⟨hlen, heq⟩ := Option.ite_none_right_eq_some.mp hdata
    have hfits : data.length + sizeofHeader < 2 ^ 32 :=
      lt_of_le_of_lt (Nat.add_le_add_right hlen sizeofHeader) (by decide)
    refine .inr ⟨⟨PacketType.dectPacket.code, data, hfits⟩, hready, hread, rfl, ?_⟩
    exact (Option.some.inj heq).symm
  · exact .inl ⟨hready, (Option.some.inj h).symm⟩

/-- **One descriptor** in the third part: nothing happens, its connection is
closed, or `n` bytes are received and written to the device. -/
theorem checkDescriptor_cases {t : Turn} {fds : Finset ℕ} {s s' : Proxy} {i : ℕ}
    (h : checkDescriptor t fds s i = some s') :
    s' = s ∨ (i ≠ s.l ∧ i ≠ s.d ∧ ∃ c, s.connection i = some c ∧
      (s' = { s with
          master := s.master.erase i
          connection := Function.update s.connection i none } ∨
        ∃ n, 0 < n ∧ n ≤ maxMailSize ∧ n ≤ (s.peer c).pending.length ∧
          s' = { s with
            peer := Function.update s.peer c ⟨(s.peer c).mails, (s.peer c).pending.drop n⟩
            received := s.received ++ [(c, n)]
            written := s.written ++ [(c, (s.peer c).pending.take n)] })) := by
  unfold checkDescriptor at h
  split_ifs at h with hready
  · unfold checkClient at h
    cases hconn : s.connection i with
    | none =>
        simp only [hconn] at h
        exact .inl (Option.some.inj h).symm
    | some c =>
        simp only [hconn] at h
        cases hrecv : t.recv i with
        | error =>
            simp only [hrecv] at h
            exact .inl (Option.some.inj h).symm
        | closed =>
            simp only [hrecv] at h
            exact .inr ⟨hready.1, hready.2.1, c, rfl, .inl (Option.some.inj h).symm⟩
        | data n =>
            simp only [hrecv] at h
            obtain ⟨⟨hpos, hmax, hle⟩, heq⟩ := Option.ite_none_right_eq_some.mp h
            refine .inr ⟨hready.1, hready.2.1, c, rfl, .inr ⟨n, hpos, hmax, hle, ?_⟩⟩
            exact (Option.some.inj heq).symm
  · exact .inl (Option.some.inj h).symm

/-! ## What is carried -/

/-- The mails that client `c` has written. -/
def mailsOf (s : Proxy) (c : ℕ) : List (List UInt8) := (s.peer c).mails

/-- The buffers written to the device on behalf of client `c`. -/
def writesOf (s : Proxy) (c : ℕ) : List (List UInt8) := perSource c s.written

/-- How many bytes each `recv` on connection `c` returned. -/
def recvsOf (s : Proxy) (c : ℕ) : List ℕ := perSource c s.received

/-- The writes on behalf of every client are cut from its stream, one for each
`recv`. -/
structure Carried (s : Proxy) : Prop where
  stream : ∀ c, (s.writesOf c).flatten ++ (s.peer c).pending = (s.mailsOf c).flatten
  lengths : ∀ c, (s.writesOf c).map List.length = s.recvsOf c
  bounded : ∀ c, ∀ n ∈ s.recvsOf c, 0 < n ∧ n ≤ maxMailSize

/-- The invariant looks at the streams and the histories only. -/
theorem Carried.congr {s s' : Proxy} (h : Carried s) (hpeer : s'.peer = s.peer)
    (hwritten : s'.written = s.written) (hreceived : s'.received = s.received) : Carried s' := by
  constructor
  · intro c
    rw [writesOf, mailsOf, hpeer, hwritten]
    exact h.stream c
  · intro c
    rw [writesOf, recvsOf, hwritten, hreceived]
    exact h.lengths c
  · intro c
    rw [recvsOf, hreceived]
    exact h.bounded c

theorem carried_initial (d l : ℕ) : Carried (initial d l) :=
  ⟨fun _ => rfl, fun _ => rfl, fun _ _ h => absurd h List.not_mem_nil⟩

theorem carried_writeDect {s : Proxy} (h : Carried s) (c : ℕ) (m : List UInt8) :
    Carried (writeDect c m s) := by
  refine ⟨fun c' => ?_, h.lengths, h.bounded⟩
  have hstream := h.stream c'
  by_cases hc : c' = c
  · subst hc
    simp only [mailsOf, writesOf, writeDect, Function.update_self] at hstream ⊢
    rw [List.flatten_append, ← hstream]
    simp
  · simp only [mailsOf, writesOf, writeDect, Function.update_of_ne hc] at hstream ⊢
    exact hstream

/-- A client's turn cuts the next write from its stream. -/
theorem carried_checkDescriptor {t : Turn} {fds : Finset ℕ} {s s' : Proxy} {i : ℕ}
    (h : Carried s) (hs : checkDescriptor t fds s i = some s') : Carried s' := by
  rcases checkDescriptor_cases hs with rfl | ⟨-, -, c, -, rfl | ⟨n, hpos, hmax, hle, rfl⟩⟩
  · exact h
  · exact h.congr rfl rfl rfl
  · refine ⟨fun c' => ?_, fun c' => ?_, fun c' k hk => ?_⟩
    · have hstream := h.stream c'
      simp only [writesOf, mailsOf, perSource_concat] at hstream ⊢
      -- what one stream loses at its front, its writes gain at their end
      by_cases hc : c' = c
      · subst hc
        simp only [Function.update_self, if_true, List.flatten_append,
          List.flatten_singleton, List.append_assoc, List.take_append_drop]
        exact hstream
      · rw [Function.update_of_ne hc, if_neg (Ne.symm hc), List.append_nil]
        exact hstream
    · have hlengths := h.lengths c'
      simp only [writesOf, recvsOf, perSource_concat] at hlengths ⊢
      rw [List.map_append, hlengths]
      split
      · simp [hle]
      · rfl
    · simp only [recvsOf, perSource_concat, List.mem_append] at hk
      rcases hk with hk | hk
      · exact h.bounded c' k hk
      · split at hk
        · obtain rfl : k = n := by simpa using hk
          exact ⟨hpos, hmax⟩
        · simp at hk

theorem carried_turn {t : Turn} {s s' : Proxy} (h : Carried s) (hs : turn t s = some s') :
    Carried s' := by
  rw [turn_eq] at hs
  obtain ⟨s₁, hs₁, hs⟩ := Option.bind_eq_some_iff.mp hs
  obtain ⟨s₂, hs₂, hs⟩ := Option.bind_eq_some_iff.mp hs
  have h₁ : Carried s₁ := by
    rcases acceptNew_cases hs₁ with rfl | ⟨n, -, -, -, rfl⟩
    · exact h
    · exact h.congr rfl rfl rfl
  have h₂ : Carried s₂ := by
    rcases checkDect_cases hs₂ with ⟨-, rfl⟩ | ⟨f, -, -, -, rfl⟩
    · exact h₁
    · exact h₁.congr rfl rfl rfl
  -- the third part is a run over the descriptors
  refine run_induction (P := fun _ s => Carried s) h₂ ?_ _ _ hs
  intro _ v i v' _ hv hstep
  exact carried_checkDescriptor hv hstep

/-- **A run of the proxy.** -/
theorem carried_run (d l : ℕ) : ∀ es s, run step (initial d l) es = some s → Carried s := by
  refine run_induction (carried_initial d l) ?_
  intro _ s e s' _ hs hstep
  cases e with
  | writeDect c m =>
      obtain rfl : writeDect c m s = s' := by simpa [step] using hstep
      exact carried_writeDect hs c m
  | turn t => exact carried_turn hs hstep

/-! ## Mail boundaries -/

/-- Everything that the clients have written has arrived. -/
def Drained (s : Proxy) : Prop := ∀ c, (s.peer c).pending = []

/-- The writes to the device are an interleaving of the clients' mails, one write
a mail. -/
def KeepsMails (s : Proxy) : Prop := ∀ c, s.writesOf c = s.mailsOf c

/-- **Mail boundaries.**  Once everything has arrived, the writes to the device
are an interleaving of the clients' mails exactly when every `recv` returned
just one mail; with a mail longer than the buffer they never are. -/
theorem mail_boundaries_kept_iff (d l : ℕ) (es : List Event) (s : Proxy)
    (hrun : run step (initial d l) es = some s) (hdrained : s.Drained) :
    (s.KeepsMails ↔ ∀ c, s.recvsOf c = (s.mailsOf c).map List.length) ∧
      ((∃ c, ∃ m ∈ s.mailsOf c, maxMailSize < m.length) → ¬ s.KeepsMails) := by
  have hcarried := carried_run d l es s hrun
  have hflat (c : ℕ) : (s.writesOf c).flatten = (s.mailsOf c).flatten := by
    rw [← hcarried.stream c, hdrained c, List.append_nil]
  constructor
  · constructor
    · intro hkeeps c
      rw [← hcarried.lengths c, hkeeps c]
    · intro hrecv c
      refine List.eq_iff_flatten_eq.mpr ⟨hflat c, ?_⟩
      rw [hcarried.lengths c, hrecv c]
  · rintro ⟨c, m, hm, hlong⟩ hkeeps
    have hmem : m.length ∈ s.recvsOf c := by
      rw [← hcarried.lengths c, hkeeps c]
      exact List.mem_map_of_mem hm
    exact absurd (hcarried.bounded c _ hmem).2 (not_le.mpr hlong)

/-- A turn in which a connection is accepted on descriptor `n`. -/
def acceptTurn (l n : ℕ) : Turn := ⟨fun i => i == l, some n, none, fun _ => .error⟩

/-- A turn in which `n` bytes are received on descriptor `i`. -/
def recvTurn (i n : ℕ) : Turn := ⟨fun j => j == i, none, none, fun _ => .data n⟩

/-- Two mails of the manager that arrive one by one. -/
theorem two_mails_kept :
    ∃ s, run step (initial 3 4) [.turn (acceptTurn 4 5), .writeDect 0 [1, 2], .writeDect 0 [3],
      .turn (recvTurn 5 2), .turn (recvTurn 5 1)] = some s ∧ s.KeepsMails := by
  refine ⟨_, rfl, (mail_boundaries_kept_iff 3 4 [.turn (acceptTurn 4 5), .writeDect 0 [1, 2],
    .writeDect 0 [3], .turn (recvTurn 5 2), .turn (recvTurn 5 1)] _ rfl ?_).1.mpr ?_⟩
  · intro c
    cases c <;> rfl
  · intro c
    cases c <;> rfl

/-- Two mails of the manager that arrive together are written to the device as
one. -/
theorem two_mails_merged :
    ∃ s, run step (initial 3 4) [.turn (acceptTurn 4 5), .writeDect 0 [1, 2], .writeDect 0 [3],
      .turn (recvTurn 5 3)] = some s ∧ s.Drained ∧ ¬ s.KeepsMails := by
  refine ⟨_, rfl, ?_, fun hkeeps => absurd (hkeeps 0) (by decide)⟩
  intro c
  cases c <;> rfl

end Proxy

end DectManager
