/-
# From the words that a user types to the handlers of the manager

`getopt` finds the options in the words of a command line, the loop of `main`
looks at them, the packets go to the manager, and it replies.

`main` sends a packet for each option, and waits for the reply to a status request
before it sends the next one; so the packets of a line arrive in pieces, and other
connections, the stack and the timers come in between.

* `reads_typed`: an option whose number is written in decimal is read back.
* `typed_line_iff`: `dect` understands a command line as some options exactly when
  the words are a way of writing options that read like these; and then, once all
  its packets have arrived, the manager has processed the commands of these options
  exactly when no piece ended in the body of a packet.
* `typed_line_answered`: then it has been answered with one reply for each of `-s`
  and `-j`, which tells what had been processed before, the commands of the same
  line that come first included.
-/
import DectManager.Getopt
import DectManager.Service
import DectManager.TypedNumbers

namespace DectManager

open PartialRun Streams Getopt Service

/-! ## The option loop -/

/-- The option string of `main`. -/
def optstring : Word :=
  ['r', 'd', ':', 'p', ':', 's', 'j', 'l', 'u', 'i', 'z', ':', 'x', ':', 'c', 'b', ':']

/-- The characters that it makes options. -/
def dectTakes : Char → Option Bool := takesArg optstring

/-- The `switch` of the option loop; there is no case for `'?'`. -/
def optOf (beyond : Word → ℤ) : Found → Option Opt
  | .option 'r' _ => some .r
  | .option 'd' (some optarg) => some (.d (atoi beyond optarg))
  | .option 'p' (some optarg) => some (.p (atoi beyond optarg))
  | .option 'z' (some optarg) => some (.z (atoi beyond optarg))
  | .option 'x' (some optarg) => some (.x (atoi beyond optarg))
  | .option 's' _ => some .s
  | .option 'c' _ => some .c
  | .option 'j' _ => some .j
  | .option 'l' _ => some .l
  | .option 'u' _ => some .u
  | .option 'i' _ => some .i
  | .option 'b' (some optarg) => some (.b (atoi beyond optarg))
  | _ => none

/-- The options that the loop sees for the words behind the name of the program. -/
def lineOpts (beyond : Word → ℤ) (ws : List Word) : List Opt :=
  (scan dectTakes none ws).filterMap (optOf beyond)

/-- `getopt` complains about nothing, and the loop sees these options. -/
structure Understands (beyond : Word → ℤ) (ws : List Word) (opts : List Opt) : Prop where
  known : ∀ c, Found.unknown c ∉ scan dectTakes none ws
  seen : lineOpts beyond ws = opts

/-! ## What has been typed -/

/-- The character of an option. -/
def Opt.letter : Opt → Char
  | r => 'r'
  | d _ => 'd'
  | p _ => 'p'
  | s => 's'
  | j => 'j'
  | l => 'l'
  | u => 'u'
  | i => 'i'
  | z _ => 'z'
  | x _ => 'x'
  | c => 'c'
  | b _ => 'b'

/-- What has been given reads like the option: the same character, and an argument with this
number. -/
structure Reads (beyond : Word → ℤ) (given : Getopt.Given) (o : Opt) : Prop where
  letter : given.1 = o.letter
  optarg : given.2.map (atoi beyond) = o.optarg?

/-- An option with its number in decimal. -/
def Opt.typed (o : Opt) : Getopt.Given := (o.letter, o.optarg?.map decimal)

/-- An option that is typed so reads like this. -/
theorem reads_typed (beyond : Word → ℤ) {o : Opt} (h : ∀ n, o.optarg? = some n → IsInt n) :
    Reads beyond o.typed o := by
  refine ⟨rfl, ?_⟩
  show (o.optarg?.map decimal).map (atoi beyond) = o.optarg?
  cases hn : o.optarg? with
  | none => rfl
  | some n => exact congrArg some (atoi_decimal beyond (h n hn))

/-- What reads like an option is seen as this. -/
theorem optOf_of_reads {beyond : Word → ℤ} {given : Getopt.Given} {o : Opt}
    (h : Reads beyond given o) : optOf beyond (.option given.1 given.2) = some o := by
  obtain ⟨c, optarg⟩ := given
  obtain ⟨hletter, hoptarg⟩ := h
  obtain rfl : c = o.letter := hletter
  cases o with
  | r | s | j | l | u | i | c => rfl
  | d n | p n | z n | x n | b n =>
      obtain ⟨w, rfl, rfl⟩ := Option.map_eq_some_iff.mp hoptarg
      rfl

/-- What `getopt` finds reads like an option. -/
theorem exists_reads (beyond : Word → ℤ) {given : Getopt.Given}
    (htakes : dectTakes given.1 = some given.2.isSome) : ∃ o, Reads beyond given o := by
  obtain ⟨c, optarg⟩ := given
  have hmem : c ∈ optstring := mem_of_takesArg htakes
  cases optarg with
  | none =>
      have hflags : ∀ c ∈ optstring, dectTakes c = some false →
          ∃ o ∈ [Opt.r, .s, .j, .l, .u, .i, .c], c = o.letter ∧ none = o.optarg? := by
        simp [optstring, dectTakes, takesArg, Opt.letter, Opt.optarg?]
      obtain ⟨o, -, hletter, hnone⟩ := hflags c hmem htakes
      exact ⟨o, hletter, hnone⟩
  | some w =>
      have hargs : ∀ c ∈ optstring, dectTakes c = some true → c ∈ ['d', 'p', 'z', 'x', 'b'] := by
        simp [optstring, dectTakes, takesArg]
      have hletter := hargs c hmem htakes
      simp only [List.mem_cons, List.not_mem_nil, or_false] at hletter
      rcases hletter with rfl | rfl | rfl | rfl | rfl
      · exact ⟨.d (atoi beyond w), rfl, rfl⟩
      · exact ⟨.p (atoi beyond w), rfl, rfl⟩
      · exact ⟨.z (atoi beyond w), rfl, rfl⟩
      · exact ⟨.x (atoi beyond w), rfl, rfl⟩
      · exact ⟨.b (atoi beyond w), rfl, rfl⟩

/-- Whatever has been written, it reads like some options. -/
theorem exists_forall₂_reads (beyond : Word → ℤ) {os : List Getopt.Given}
    (htakes : ∀ o ∈ os, dectTakes o.1 = some o.2.isSome) :
    ∃ opts, List.Forall₂ (Reads beyond) os opts := by
  induction os with
  | nil => exact ⟨[], .nil⟩
  | cons o os ih =>
      obtain ⟨ho, hos⟩ := List.forall_mem_cons.mp htakes
      obtain ⟨opt, hopt⟩ := exists_reads beyond ho
      obtain ⟨opts, hopts⟩ := ih hos
      exact ⟨opt :: opts, .cons hopt hopts⟩

/-- All that has been given is seen. -/
theorem filterMap_found {beyond : Word → ℤ} {os : List Getopt.Given} {opts : List Opt}
    (h : List.Forall₂ (Reads beyond) os opts) : (found os).filterMap (optOf beyond) = opts := by
  induction h with
  | nil => rfl
  | cons ho _ ih =>
      rw [found_cons, List.filterMap_cons_some (optOf_of_reads ho), ih]

/-! ## A line that is typed -/

/-- **`dect` understands a line** as some options exactly when the words are a way of writing
options that read like these. -/
theorem understands_iff {beyond : Word → ℤ} {ws : List Word} {opts : List Opt} :
    Understands beyond ws opts ↔
      ∃ os, Writes dectTakes ws os ∧ List.Forall₂ (Reads beyond) os opts := by
  have hdash : dectTakes '-' = none := by decide
  constructor
  · rintro ⟨hknown, hseen⟩
    obtain ⟨os, hos⟩ := (no_unknown_iff hdash).mp hknown
    refine ⟨os, hos, ?_⟩
    obtain ⟨opts', hopts'⟩ := exists_forall₂_reads beyond (takes_eq_of_writes hos)
    rw [lineOpts, scan_of_writes hdash hos, filterMap_found hopts'] at hseen
    rwa [← hseen]
  · rintro ⟨os, hos, hreads⟩
    refine ⟨(no_unknown_iff hdash).mpr ⟨os, hos⟩, ?_⟩
    rw [lineOpts, scan_of_writes hdash hos, filterMap_found hreads]

/-! ## The packets of a line -/

/-- The frames of a command line; `main` sends each of them by itself. -/
def dectFrames (opts : List Opt) (padding : ℕ → Fin 3 → UInt8) : List Frame :=
  (dectMain opts).mapIdx fun i q => commandPacket q (padding i)

theorem encode_dectFrames (opts : List Opt) (padding : ℕ → Fin 3 → UInt8) :
    encode (dectFrames opts padding) = dectStream opts padding := by
  rw [encode, dectFrames, dectStream, List.flatMap_def]
  refine congrArg List.flatten (List.ext_getElem? fun i => ?_)
  simp only [List.getElem?_map, List.getElem?_mapIdx, Option.map_map]
  exact congrArg (Option.map · _) (funext fun q => bytes_commandPacket q (padding i))

/-- Every heap admits them. -/
theorem admits_dectFrames (heap : Heap) (opts : List Opt) (padding : ℕ → Fin 3 → UInt8) :
    ∀ f ∈ dectFrames opts padding, heap.Admits f := by
  intro f hf
  obtain ⟨i, hi, rfl⟩ := List.mem_mapIdx.mp hf
  exact admits_commandPacket heap _ (padding i)

/-- The events are these commands, each in surroundings of its own. -/
def AreCommands (qs : List (PacketType × UInt8)) (es : List Event) : Prop :=
  List.Forall₂ (fun q e => ∃ env, e = .client q.1.code q.2 env) qs es

/-- The dispatch of a packet that says what a command says. -/
theorem eq_client_of_contents {api : VendorApi} {p : Packet} {e : Event} (h : IsEventOf api p e)
    {q : PacketType × UInt8} (hq : q.1.code ≠ PacketType.dectPacket.code) {padding : Fin 3 → UInt8}
    (hp : p.contents = (commandPacket q padding).contents) :
    ∃ env, e = .client q.1.code q.2 env := by
  obtain ⟨context, rfl⟩ := h
  obtain ⟨htype, hpayload⟩ := Prod.mk.inj hp
  have htype' : p.type = q.1.code := htype
  have hdata : p.data.headD 0 = q.2 := by
    cases hd : p.data with
    | nil => simp [Packet.payload, hd, commandPacket] at hpayload
    | cons x data =>
        rw [Packet.payload, hd] at hpayload
        cases hn : bodyLength p.size with
        | zero => simp [hn, commandPacket] at hpayload
        | succ n =>
            rw [hn, List.take_succ_cons] at hpayload
            exact (List.cons.inj hpayload).1
  refine ⟨context.env, ?_⟩
  rw [packetEvent, if_neg (htype' ▸ hq), htype', hdata]

/-- The dispatches of packets that say what some commands say. -/
theorem areCommands_of_contents {api : VendorApi} {ps : List Packet} {es : List Event}
    (h : List.Forall₂ (IsEventOf api) ps es) {qs : List (PacketType × UInt8)}
    (hqs : ∀ q ∈ qs, q.1.code ≠ PacketType.dectPacket.code) (padding : ℕ → Fin 3 → UInt8)
    (hps : ps.map Packet.contents =
      (qs.mapIdx fun i q => commandPacket q (padding i)).map Frame.contents) :
    AreCommands qs es := by
  induction h generalizing qs padding with
  | nil =>
      cases qs with
      | nil => exact .nil
      | cons q qs => simp at hps
  | cons hfirst _ ih =>
      cases qs with
      | nil => simp at hps
      | cons q qs =>
          obtain ⟨hq, hqs'⟩ := List.forall_mem_cons.mp hqs
          rw [List.mapIdx_cons, List.map_cons, List.map_cons] at hps
          obtain ⟨hhead, htail⟩ := List.cons.inj hps
          exact .cons (eq_client_of_contents hfirst hq hhead)
            (ih hqs' (fun i => padding (i + 1)) htail)

/-- **The packets of a line have arrived** on a client's connection: its commands have been
processed exactly when no piece ended in the body of a packet. -/
theorem areCommands_iff {api : VendorApi} {config : Config} {c : ℕ} {es : List Arrival}
    {l : Ledger} (hrun : run (Ledger.step api) (Ledger.initial config) es = some l)
    {opts : List Opt} {padding : ℕ → Fin 3 → UInt8}
    (hbytes : (piecesOn c es).flatten = dectStream opts padding) :
    AreCommands (dectMain opts) (eventsOf (.client c) l.processed) ↔
      ¬ CutInBody Frame.bytes sizeofHeader (dectFrames opts padding) (piecesOn c es) := by
  rw [← encode_dectFrames] at hbytes
  obtain ⟨ps, hevents, hall, hfewer⟩ := processed_of_frames hrun
    (fun _ heap _ _ => admits_dectFrames heap opts padding) hbytes
  constructor
  · intro hcommands hcut
    -- there are as many commands as frames
    have hlen := hcommands.length_eq
    have hless := hfewer hcut
    rw [hevents.length_eq, ← hlen, dectFrames, List.length_mapIdx] at hless
    exact lt_irrefl _ hless
  · intro hnocut
    exact areCommands_of_contents hevents (fun q hq => ne_dectPacket_of_mem hq) padding
      (hall hnocut)

/-- **A line that a user types.**  `dect` understands it as some options exactly when the words are
a way of writing options that read like these.  And then, in every run of the event loop in which
its packets have arrived on a connection of its own, in whatever pieces and with whatever in
between, the manager has processed the commands of these options exactly when no piece ended in the
body of a packet. -/
theorem typed_line_iff (api : VendorApi) (config : Config) (c : ℕ) (beyond : Word → ℤ)
    (ws : List Word) (opts : List Opt) :
    (Understands beyond ws opts ↔
        ∃ os, Writes dectTakes ws os ∧ List.Forall₂ (Reads beyond) os opts) ∧
      (Understands beyond ws opts → ∀ padding es l,
        run (Ledger.step api) (Ledger.initial config) es = some l →
        (piecesOn c es).flatten = dectStream (lineOpts beyond ws) padding →
        run step (initial config) (l.processed.map Processed.event) =
            some l.service.system.world ∧
          (AreCommands (dectMain opts) (eventsOf (.client c) l.processed) ↔
            ¬ CutInBody Frame.bytes sizeofHeader (dectFrames opts padding) (piecesOn c es))) := by
  refine ⟨understands_iff, ?_⟩
  rintro ⟨-, rfl⟩ padding es l hrun hbytes
  exact ⟨(sound_run api config es l hrun).manager, areCommands_iff hrun hbytes⟩

/-- "dect -rd3 phone -p 25 -- -s" -/
def mixedLine : List Word :=
  [['-', 'r', 'd', '3'], ['p', 'h', 'o', 'n', 'e'], ['-', 'p'], ['2', '5'], ['-', '-'], ['-', 's']]

/-- The line is a way of writing three options. -/
theorem writes_mixedLine :
    Writes dectTakes mixedLine ([Opt.r, .d 3, .p 25].map Opt.typed) := by
  have hp : Writes dectTakes [['-', 'p'], ['2', '5'], ['-', '-'], ['-', 's']]
      [('p', some ['2', '5'])] :=
    .separate (List.forall_mem_nil _) (by decide) (.ended _)
  have hphone : IsOperand ['p', 'h', 'o', 'n', 'e'] := .inr (by decide)
  have hflags : Flags dectTakes ['r'] := List.forall_mem_singleton.mpr (by decide)
  exact .attached hflags (by decide) (List.cons_ne_nil _ _) (.operand hphone hp)

theorem understands_mixedLine : Understands (fun _ => 0) mixedLine [.r, .d 3, .p 25] := by
  refine understands_iff.mpr ⟨_, writes_mixedLine,
    .cons (reads_typed _ ?_) (.cons (reads_typed _ ?_) (.cons (reads_typed _ ?_) .nil))⟩
  · rintro n ⟨⟩
  · rintro n ⟨⟩
    decide
  · rintro n ⟨⟩
    decide

/-- The packets of some options arrive on the first connection, cut at byte `n`; in between the
stack reports handset 3. -/
def arriveCut (n : ℕ) (opts : List Opt) : List Arrival :=
  [.accept,
    .data (.client 0) ((dectStream opts fun _ _ => 0).take n) .ample fun _ => System.Context.none,
    System.arrival .dect [System.presentFrame],
    .data (.client 0) ((dectStream opts fun _ _ => 0).drop n) .ample fun _ => System.Context.none]

theorem flatten_piecesOn_arriveCut (n : ℕ) (opts : List Opt) :
    (piecesOn 0 (arriveCut n opts)).flatten = dectStream opts fun _ _ => 0 := by
  show [(dectStream opts fun _ _ => 0).take n, (dectStream opts fun _ _ => 0).drop n].flatten = _
  rw [List.flatten_cons, List.flatten_singleton, List.take_append_drop]

/-- The line arrives cut in the header of its second packet: the manager opens registration, and
deletes and pings handset 25. -/
theorem mixed_line_handled :
    ∃ l, run (Ledger.step packedApi) (Ledger.initial ⟨.enabled, by decide⟩)
        (arriveCut 15 [.r, .d 3, .p 25]) = some l ∧
      AreCommands [(.registration, 0), (.deleteHset, 25), (.pingHset, 25)]
        (eventsOf (.client 0) l.processed) := by
  refine ⟨_, rfl, ?_⟩
  have hbytes : (piecesOn 0 (arriveCut 15 [.r, .d 3, .p 25])).flatten =
      dectStream (lineOpts (fun _ => 0) mixedLine) fun _ _ => 0 := by
    rw [understands_mixedLine.seen, flatten_piecesOn_arriveCut]
  exact ((typed_line_iff packedApi ⟨.enabled, by decide⟩ 0 (fun _ => 0) mixedLine
    [.r, .d 3, .p 25]).2 understands_mixedLine (fun _ _ => 0) (arriveCut 15 [.r, .d 3, .p 25]) _
    rfl hbytes).2.mpr (by decide)

/-! ## The answer to a line -/

/-- There is a status request for `-s` and one for `-j`. -/
theorem countP_of_areCommands {opts : List Opt} {es : List Event}
    (h : AreCommands (dectMain opts) es) :
    es.countP (fun e => decide (AsksStatus e)) =
      [Flag.getStatus, .json].countP fun f => decide (Given f opts) := by
  have hevents {qs : List (PacketType × UInt8)} {es : List Event} (h : AreCommands qs es) :
      es.countP (fun e => decide (AsksStatus e)) =
        qs.countP fun q => decide (q.1.code = PacketType.getStatus.code) := by
    induction h with
    | nil => rfl
    | cons hfirst _ ih =>
        obtain ⟨env, rfl⟩ := hfirst
        rw [List.countP_cons, List.countP_cons, ih]
        rfl
  have hasks : Flag.order.filter
      (fun f => decide (f.packetType.code = PacketType.getStatus.code)) = [.getStatus, .json] := by
    decide
  rw [hevents h, dectMain_eq, List.countP_map, ← hasks, List.countP_filter, List.countP_filter]
  refine List.countP_congr fun f _ => ?_
  rw [Bool.and_comm]
  rfl

/-- **A line is answered** with one reply for each of `-s` and `-j`, once its packets have arrived
on a connection of its own and no piece has ended in the body of one.  Each reply tells what the
manager had processed before its request: of the others, and of the line itself the commands that
come first. -/
theorem typed_line_answered {api : VendorApi} {config : Config} {c : ℕ} {beyond : Word → ℤ}
    {ws : List Word} {opts : List Opt} (hunder : Understands beyond ws opts)
    {padding : ℕ → Fin 3 → UInt8} {es : List Arrival} {l : Ledger}
    (hrun : run (Ledger.step api) (Ledger.initial config) es = some l)
    (hbytes : (piecesOn c es).flatten = dectStream (lineOpts beyond ws) padding)
    (hnocut : ¬ CutInBody Frame.bytes sizeofHeader (dectFrames opts padding) (piecesOn c es)) :
    (l.service.sent (.client c)).length =
        [Flag.getStatus, .json].countP (fun f => decide (Given f opts)) ∧
      List.Forall₂ (fun q s => Tells config (q.map Processed.event) s)
        (questionsOn (.client c) [] l.processed) (l.service.sent (.client c)) ∧
      (questionsOn (.client c) [] l.processed).map (eventsOf (.client c)) =
        questions (eventsOf (.client c) l.processed) ∧
      AreCommands (dectMain opts) (eventsOf (.client c) l.processed) := by
  rw [hunder.seen] at hbytes
  have htold := (sound_run api config es l hrun).told (.client c)
  have hcommands := (areCommands_iff hrun hbytes).mpr hnocut
  refine ⟨?_, htold, map_eventsOf_questionsOn _ [] _, hcommands⟩
  rw [← htold.length_eq, length_questionsOn, countP_of_areCommands hcommands]

/-- "dect -sr", cut in the header of the second packet: registration is opened first, and the reply
tells so, and what the stack has reported in between. -/
theorem status_tells_own_line :
    ∃ l new, run (Ledger.step packedApi) (Ledger.initial ⟨.enabled, by decide⟩)
        (arriveCut 15 [.s, .r]) = some l ∧
      l.service.sent (.client 0) = new ∧ new.length = 1 ∧
      List.Forall₂ (Tells ⟨.enabled, by decide⟩)
        [[command .registration 0, .mail (.handsetPresentInd 3 0) .none]] new := by
  have hwrites : Writes dectTakes [['-', 's', 'r']] ([Opt.s, .r].map Opt.typed) :=
    .flags (List.cons_ne_nil _ _) (List.forall_mem_cons.mpr
      ⟨by decide, List.forall_mem_singleton.mpr (by decide)⟩) .nil
  have hunder : Understands (fun _ => 0) [['-', 's', 'r']] [.s, .r] := by
    refine understands_iff.mpr
      ⟨_, hwrites, .cons (reads_typed _ ?_) (.cons (reads_typed _ ?_) .nil)⟩
    · rintro n ⟨⟩
    · rintro n ⟨⟩
  have hbytes : (piecesOn 0 (arriveCut 15 [.s, .r])).flatten =
      dectStream (lineOpts (fun _ => 0) [['-', 's', 'r']]) fun _ _ => 0 := by
    rw [hunder.seen, flatten_piecesOn_arriveCut]
  refine ⟨_, _, rfl, rfl, ?_⟩
  obtain ⟨hlen, htold, -⟩ := @typed_line_answered packedApi ⟨.enabled, by decide⟩ 0 (fun _ => 0)
    [['-', 's', 'r']] [.s, .r] hunder (fun _ _ => 0) (arriveCut 15 [.s, .r]) _ rfl hbytes
    (by decide)
  exact ⟨hlen, List.forall₂_map_left_iff.mpr htold⟩

end DectManager
