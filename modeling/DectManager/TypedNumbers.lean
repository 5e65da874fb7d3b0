/-
# A number on the command line and the handset that the stack sees

The number that a user types is an `int` in the client, one byte in the packet
and an `int` again in the manager.  `ping_handset` looks at it there,
`delete_hset` does not, and nobody looks at it before it becomes a byte.

* `step_commandPacket`: what one packet of the client makes the manager do that
  arrives whole on a new connection.  (Lines with several options, which are as
  many packets, and packets that arrive in pieces are in `CommandLine.lean`.)
* `typed_number_iff`: `dect -p n` reaches no other handset exactly when `n` is
  a handset number or its byte is none; `dect -d n` only if `n` is a handset
  number.
-/
import DectManager.Commands
import DectManager.System
import DectManager.RoundTrip
import DectManager.Writes

namespace DectManager

open PartialRun

/-! ## From the command line to the handlers -/

/-- A packet of the client as a frame, with what the allocation holds in the padding. -/
def commandPacket (q : PacketType × UInt8) (padding : Fin 3 → UInt8) : Frame :=
  ⟨q.1.code, q.2 :: List.ofFn padding, by rw [List.length_cons, List.length_ofFn]; decide⟩

/-- The frame is what `send_packet` sends. -/
theorem bytes_commandPacket (q : PacketType × UInt8) (padding : Fin 3 → UInt8) :
    (commandPacket q padding).bytes = commandBytes q.1.code q.2 (List.ofFn padding) := by
  rw [Frame.bytes, Frame.size, commandPacket, List.length_cons, List.length_ofFn]
  rfl

/-- The bytes that a command line sends. -/
def dectStream (opts : List Opt) (padding : ℕ → Fin 3 → UInt8) : List UInt8 :=
  ((dectMain opts).mapIdx fun i q => commandBytes q.1.code q.2 (List.ofFn (padding i))).flatten

/-- The client sends commands, and no mail. -/
theorem ne_dectPacket_of_mem {opts : List Opt} {q : PacketType × UInt8} (h : q ∈ dectMain opts) :
    q.1.code ≠ PacketType.dectPacket.code := by
  rw [dectMain_eq] at h
  obtain ⟨f, -, rfl⟩ := List.mem_map.mp h
  show f.packetType.code ≠ _
  cases f <;> decide

/-- The size word of a command is that of a `client_packet`. -/
theorem toNat_size_commandPacket (q : PacketType × UInt8) (padding : Fin 3 → UInt8) :
    (commandPacket q padding).size.toNat = sizeofClientPacket := by
  rw [Frame.toNat_size, commandPacket, List.length_cons, List.length_ofFn]
  rfl

/-- A command fits into a `packet_t`. -/
theorem admits_commandPacket (heap : Heap) (q : PacketType × UInt8) (padding : Fin 3 → UInt8) :
    heap.Admits (commandPacket q padding) := by
  rintro n ⟨hbig, -⟩
  rw [toNat_size_commandPacket] at hbig
  exact absurd hbig (by decide)

/-- **A command** that arrives whole on a new connection: the connection is left empty, and the
manager processes the command. -/
theorem step_commandPacket {api : VendorApi} {heap : Heap} {context : ℕ → Context} {s : System}
    {c : ℕ} (hfresh : s.client c = some .fresh) {q : PacketType × UInt8}
    (hq : q.1.code ≠ PacketType.dectPacket.code) (padding : Fin 3 → UInt8) :
    System.step api s (.data (.client c) (commandPacket q padding).bytes heap context) =
      (step s.world (.client q.1.code q.2 (context 0).env)).map fun w =>
        s.advance .fresh w [] (.client c) := by
  have hgrows : grows (commandPacket q padding).size = 0 := by
    rw [grows, toNat_size_commandPacket]
    rfl
  have hread : packetRead heap (Reader.fresh.receive (commandPacket q padding).bytes) =
      some (.fresh, [(commandPacket q padding).packet]) := by
    have hempty : packetRead heap ⟨[], .calloc, 0⟩ = some (⟨[], .calloc, 0⟩, []) :=
      packetRead_short (show 0 < sizeofHeader by decide)
    have hframe := packetRead_of_not_refuses (admits_commandPacket heap q padding 0) []
    rw [hgrows, List.append_nil, hempty] at hframe
    rw [Reader.receive_fresh]
    exact hframe
  have hevents : packetEvents api context [(commandPacket q padding).packet] =
      [.client q.1.code q.2 (context 0).env] := by
    rw [packetEvents, List.mapIdx_singleton]
    exact congrArg (fun e => [e]) (if_neg hq)
  show (s.client c).bind _ = _
  rw [hfresh, Option.bind_some, hread, Option.bind_some]
  simp only [hevents, run_cons, run_nil, Option.bind_fun_some]
  rfl

/-! ## Pings and deletions -/

/-- The terminal that a request pings or deletes. -/
def Request.target? : Request → Option ℕ
  | .setupReq _ terminalId .. => some terminalId
  | .deleteRegistrationReq terminalId => some terminalId
  | _ => none

/-- The command line reaches handset `n` if there is one, and no other: the stack is
asked to ping or delete terminal `n`, or not to ping or delete anything. -/
def ReachesOnly (api : VendorApi) (heap : Heap) (context : ℕ → Context) (s : System) (c : ℕ)
    (opts : List Opt) (padding : ℕ → Fin 3 → UInt8) (n : ℤ) : Prop :=
  ∃ s' new, System.step api s (.data (.client c) (dectStream opts padding) heap context) = some s' ∧
    written s'.world = new ++ written s.world ∧
    (new.filterMap Request.target?).map Nat.cast =
      if 1 ≤ n ∧ n ≤ maxNrHandsets then [n] else []

/-- For a command line with a single command it depends on what the command writes. -/
theorem reachesOnly_iff {api : VendorApi} {heap : Heap} {context : ℕ → Context} {s : System}
    {c : ℕ} (hfresh : s.client c = some .fresh) {opts : List Opt} {q : PacketType × UInt8}
    (hq : dectMain opts = [q]) {w : World}
    (hstep : step s.world (.client q.1.code q.2 (context 0).env) = some w)
    (padding : ℕ → Fin 3 → UInt8) (n : ℤ) :
    ReachesOnly api heap context s c opts padding n ↔
      ((writes s.world (.client q.1.code q.2 (context 0).env)).filterMap Request.target?).map
          Nat.cast = if 1 ≤ n ∧ n ≤ maxNrHandsets then [n] else [] := by
  have hmail : q.1.code ≠ PacketType.dectPacket.code :=
    ne_dectPacket_of_mem (hq ▸ List.mem_singleton_self q)
  have hstream : dectStream opts padding = (commandPacket q (padding 0)).bytes := by
    rw [dectStream, hq, List.mapIdx_singleton, List.flatten_singleton, bytes_commandPacket]
  have hsystem : System.step api s (.data (.client c) (dectStream opts padding) heap context) =
      some (s.advance .fresh w [] (.client c)) := by
    rw [hstream, step_commandPacket hfresh hmail, hstep, Option.map_some]
  unfold ReachesOnly
  rw [hsystem]
  constructor
  · rintro ⟨s', new, hs', hnew, htarget⟩
    obtain rfl := Option.some.inj hs'
    have hw : written w = new ++ written s.world := hnew
    rw [written_step hstep] at hw
    rw [List.append_cancel_right hw]
    exact htarget
  · intro htarget
    exact ⟨_, _, rfl, written_step hstep, htarget⟩

/-- The one command of "dect -p n". -/
theorem dectMain_p (n : ℤ) : dectMain [.p n] = [(.pingHset, UInt8.ofInt n)] := by
  simp [dectMain, parseOptions, Vars.parse, Vars.set, Vars.has, Flag.mask, Flag.bit, sendPacket]

/-- The one command of "dect -d n". -/
theorem dectMain_d (n : ℤ) : dectMain [.d n] = [(.deleteHset, UInt8.ofInt n)] := by
  simp [dectMain, parseOptions, Vars.parse, Vars.set, Vars.has, Flag.mask, Flag.bit, sendPacket]

/-- The byte that a number becomes. -/
theorem toNat_ofInt_eq (n : ℤ) : ((UInt8.ofInt n).toNat : ℤ) = n % 256 := by
  rw [UInt8.ofInt, UInt8.toNat_ofNat']
  omega

/-- **A number that the user types** reaches no other handset: with `-p` exactly when it
is a handset number or its byte is none, with `-d` exactly when it is a handset number. -/
theorem typed_number_iff {api : VendorApi} {heap : Heap} {context : ℕ → Context} {s : System}
    {c : ℕ} (hfresh : s.client c = some .fresh) (hcfg : s.world.config.radio = .enabled)
    (hinit : s.world.status.dectInit = true) (padding : ℕ → Fin 3 → UInt8) (n : ℤ) :
    (ReachesOnly api heap context s c [.p n] padding n ↔
        (1 ≤ n ∧ n ≤ maxNrHandsets) ∨ ¬ (1 ≤ n % 256 ∧ n % 256 ≤ maxNrHandsets)) ∧
      (ReachesOnly api heap context s c [.d n] padding n ↔ 1 ≤ n ∧ n ≤ maxNrHandsets) := by
  have hbyte := toNat_ofInt_eq n
  have hgood : badHandsetnr (UInt8.ofInt n).toNat = false ↔
      1 ≤ n % 256 ∧ n % 256 ≤ maxNrHandsets := by
    rw [badHandsetnr_eq_false_iff, ← hbyte]
    omega
  have hsame : 1 ≤ n ∧ n ≤ maxNrHandsets → n % 256 = n := by
    unfold maxNrHandsets
    omega
  constructor
  · rw [reachesOnly_iff hfresh (dectMain_p n) rfl]
    have hwrites : writes s.world (.client PacketType.pingHset.code (.ofInt n) (context 0).env) =
        pingWrites (UInt8.ofInt n).toNat s.world := by
      simp only [writes, PacketType.ofCode_code]
    have htargets : ((pingWrites (UInt8.ofInt n).toNat s.world).filterMap Request.target?).map
        Nat.cast = if 1 ≤ n % 256 ∧ n % 256 ≤ maxNrHandsets then [n % 256] else [] := by
      simp only [pingWrites, hgood, hcfg, ne_eq, reduceCtorEq, not_false_eq_true, and_true]
      split_ifs
      · simp [Request.target?, hbyte]
      · rfl
    rw [hwrites, htargets]
    by_cases hn : 1 ≤ n ∧ n ≤ maxNrHandsets
    · simp [hn, hsame hn]
    · by_cases halias : 1 ≤ n % 256 ∧ n % 256 ≤ maxNrHandsets
      · simp [hn, halias]
      · simp [hn, halias]
  · rw [reachesOnly_iff hfresh (dectMain_d n) rfl]
    have hwrites : writes s.world
        (.client PacketType.deleteHset.code (.ofInt n) (context 0).env) =
          [.deleteRegistrationReq (UInt8.ofInt n).toNat] := by
      simp only [writes, PacketType.ofCode_code, deleteWrites, hinit, if_true]
    rw [hwrites]
    show [((UInt8.ofInt n).toNat : ℤ)] = _ ↔ _
    rw [hbyte]
    by_cases hn : 1 ≤ n ∧ n ≤ maxNrHandsets
    · simp [hn, hsame hn]
    · simp [hn]

/-- A manager that has started an enumeration, and a new connection. -/
def listeningSystem (config : Config) : System where
  world := initCfm (initial config)
  dect := .fresh
  client := fun _ => some .fresh
  accepted := 1
  stackMails := []

/-- "dect -p 3" pings handset 3, and "dect -d 3" deletes it. -/
theorem number_three_reaches_three :
    ReachesOnly packedApi .ample (fun _ => System.Context.none)
        (listeningSystem ⟨.enabled, by decide⟩) 0 [.p 3] (fun _ _ => 0) 3 ∧
      ReachesOnly packedApi .ample (fun _ => System.Context.none)
        (listeningSystem ⟨.enabled, by decide⟩) 0 [.d 3] (fun _ _ => 0) 3 := by
  constructor
  · exact (typed_number_iff rfl rfl rfl (fun _ _ => 0) 3).1.mpr (.inl (by decide))
  · exact (typed_number_iff rfl rfl rfl (fun _ _ => 0) 3).2.mpr (by decide)

/-- "dect -p 259" pings handset 3, and "dect -d 259" deletes it. -/
theorem number_259_reaches_three :
    ¬ ReachesOnly packedApi .ample (fun _ => System.Context.none)
        (listeningSystem ⟨.enabled, by decide⟩) 0 [.p 259] (fun _ _ => 0) 259 ∧
      ¬ ReachesOnly packedApi .ample (fun _ => System.Context.none)
        (listeningSystem ⟨.enabled, by decide⟩) 0 [.d 259] (fun _ _ => 0) 259 := by
  constructor
  · rw [reachesOnly_iff rfl (dectMain_p 259) rfl]
    decide
  · rw [reachesOnly_iff rfl (dectMain_d 259) rfl]
    decide

end DectManager
