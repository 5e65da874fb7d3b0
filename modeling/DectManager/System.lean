/-
# The manager with its connections

The manager has one connection to the proxy and any number of client
connections.  `packet_read` serves them all: it looks at the type word of a
frame, and never at the connection the frame came from.  `System` puts the
readers of the connections around the manager; an `Arrival` is what the event
loop reports.

* `registry_of_stack_mails`: as long as no client connection dispatches a mail
  that writes the handset table, the registry is a function of the mails
  received from the stack.
* `clients_cannot_forge`: so two such runs with the same stack mails agree on
  the registry, and so do two with the same payloads from the stack if these are
  self-contained; and a client's mail that changes the registry makes two runs
  with the same stack mails differ.
-/
import DectManager.Registry
import DectManager.MailBuffer
import DectManager.Framing
import DectManager.RegistrationMode

namespace DectManager

open PartialRun

/-! ## From packets to events -/

/-- What surrounds the dispatch of one packet: the surroundings of its handler and
what lies in memory behind the packet. -/
structure Context where
  env : Env
  beyond : ℕ → UInt8

/-- The `switch` of `packet_read`. -/
def packetEvent (api : VendorApi) (context : Context) (p : Packet) : Event :=
  if p.type = PacketType.dectPacket.code then
    .mail (api.decodeMail.run (p.memory context.beyond)) context.env
  else .client p.type (p.data.headD 0) context.env

/-- The events that the packets of one call of `packet_read` are. -/
def packetEvents (api : VendorApi) (context : ℕ → Context) (ps : List Packet) : List Event :=
  ps.mapIdx fun i p => packetEvent api (context i) p

/-- The mail that an event is, if it is one. -/
def Event.mail? : Event → Option Mail
  | .mail m _ => some m
  | _ => none

/-- The mails among some events. -/
def mailsOf (es : List Event) : List Mail := es.filterMap Event.mail?

/-- The payloads of the mails among some packets. -/
def mailPayloads (ps : List Packet) : List (List UInt8) :=
  (ps.filter fun p => decide (p.type = PacketType.dectPacket.code)).map Packet.payload

/-- Self-contained payloads are read as what they say, whatever lies behind them in memory. -/
theorem mailsOf_packetEvents {api : VendorApi} {ps : List Packet}
    (hself : ∀ m ∈ mailPayloads ps, api.SelfContained m) (context : ℕ → Context) :
    mailsOf (packetEvents api context ps) = (mailPayloads ps).map (decoded api) := by
  unfold packetEvents
  induction ps generalizing context with
  | nil => rfl
  | cons p ps ih =>
      rw [List.mapIdx_cons]
      by_cases hp : p.type = PacketType.dectPacket.code
      · have hpayloads : mailPayloads (p :: ps) = p.payload :: mailPayloads ps := by
          simp [mailPayloads, hp]
        rw [hpayloads] at hself ⊢
        obtain ⟨hfirst, hrest⟩ := List.forall_mem_cons.mp hself
        have hevent : packetEvent api (context 0) p =
            .mail (decoded api p.payload) (context 0).env := by
          rw [packetEvent, if_pos hp, run_memory_eq_decoded hfirst]
        rw [hevent, List.map_cons, ← ih hrest fun i => context (i + 1)]
        rfl
      · have hpayloads : mailPayloads (p :: ps) = mailPayloads ps := by
          simp [mailPayloads, hp]
        rw [hpayloads] at hself ⊢
        rw [packetEvent, if_neg hp, ← ih hself fun i => context (i + 1)]
        rfl

/-- What some events do to the registry is what their mails do to it. -/
theorem foldl_observe (es : List Event) (r : Registry) :
    es.foldl Registry.observe r = (mailsOf es).foldl Registry.receive r := by
  induction es generalizing r with
  | nil => rfl
  | cons e es ih =>
      rw [List.foldl_cons, ih]
      cases e <;> rfl

/-- The mail writes the registered, present or ipui fields of an entry of the
table. -/
def Mail.WritesRegistry : Mail → Prop
  | .handsetPresentInd handset _ => badHandsetnr handset = false
  | .getHandsetIpuiCfm handset _ => badHandsetnr handset = false
  | .getRegistrationCountCfm m =>
    m.status = .success ∧ m.terminalIdCount ≠ 0 ∧ badHandsetnr (m.terminalId 0) = false
  | .deleteRegistrationCfm handset => badHandsetnr handset = false
  | _ => False

/-- Marking handsets does not clear a mark. -/
theorem Registry.mark_registered_of_registered (ids : List ℕ) {r : Registry}
    {k : Fin maxNrHandsets} (h : (r k).registered = true8) :
    (r.mark ids k).registered = true8 := by
  induction ids generalizing r with
  | nil => exact h
  | cons handset ids ih =>
      rw [Registry.mark]
      split
      · exact h
      · refine ih ?_
        rw [Registry.modify_apply]
        split
        · rfl
        · exact h

/-- A mail that does not write an entry leaves every registry alone. -/
theorem Mail.receive_of_not_writesRegistry {m : Mail} (h : ¬ m.WritesRegistry) (r : Registry) :
    r.receive m = r := by
  have hbad {handset : ℕ} (h : ¬ badHandsetnr handset = false) : badHandsetnr handset = true :=
    Bool.not_eq_false _ ▸ h
  cases m with
  | handsetPresentInd handset length => exact if_pos (hbad h)
  | getHandsetIpuiCfm handset ipui => exact if_pos (hbad h)
  | deleteRegistrationCfm handset => exact if_pos (hbad h)
  | getRegistrationCountCfm m =>
      simp only [Registry.receive]
      split
      · rename_i hok
        by_cases hcount : m.terminalIdCount = 0
        · simp [RegistrationCountCfm.ids, hcount, Registry.mark]
        · obtain ⟨ids, hids⟩ := m.ids_eq_cons hcount
          rw [hids, Registry.mark, if_pos (hbad fun hgood => h ⟨hok, hcount, hgood⟩)]
      · rfl
  | _ => rfl

/-- A write to the entry of a handset of the table is seen there. -/
theorem Registry.exists_modify {handset : ℕ} (hgood : badHandsetnr handset = false) :
    ∃ k : Fin maxNrHandsets, ∀ (r : Registry) (f : Identity → Identity),
      r.modify (handset - 1) f k = f (r k) := by
  obtain ⟨hlow, hhigh⟩ := badHandsetnr_eq_false_iff.mp hgood
  exact ⟨⟨handset - 1, by omega⟩, fun r f => if_pos rfl⟩

/-- A mail that writes an entry changes some registry. -/
theorem Mail.WritesRegistry.exists_receive_ne {m : Mail} (h : m.WritesRegistry) :
    ∃ r : Registry, r.receive m ≠ r := by
  cases m with
  | handsetPresentInd handset length =>
      obtain ⟨k, hk⟩ := Registry.exists_modify h
      refine ⟨fun _ => ⟨0, 0, fun _ => 0⟩, fun hsame => ?_⟩
      have hentry := congrFun hsame k
      rw [Registry.receive, if_neg (by simp [show badHandsetnr handset = false from h]), hk]
        at hentry
      exact absurd (congrArg Identity.present hentry) (by decide)
  | getHandsetIpuiCfm handset ipui =>
      obtain ⟨k, hk⟩ := Registry.exists_modify h
      refine ⟨fun _ => ⟨0, 0, fun i => ipui i + 1⟩, fun hsame => ?_⟩
      have hentry := congrFun hsame k
      rw [Registry.receive, if_neg (by simp [show badHandsetnr handset = false from h]), hk]
        at hentry
      have hfirst := congrFun (congrArg Identity.ipui hentry) 0
      exact absurd hfirst (by simp)
  | deleteRegistrationCfm handset =>
      obtain ⟨k, hk⟩ := Registry.exists_modify h
      refine ⟨fun _ => ⟨true8, true8, fun _ => 0⟩, fun hsame => ?_⟩
      have hentry := congrFun hsame k
      rw [Registry.receive, if_neg (by simp [show badHandsetnr handset = false from h]), hk]
        at hentry
      exact absurd (congrArg Identity.present hentry) (by decide)
  | getRegistrationCountCfm m =>
      obtain ⟨hok, hcount, hgood⟩ := h
      obtain ⟨k, hk⟩ := Registry.exists_modify hgood
      obtain ⟨ids, hids⟩ := m.ids_eq_cons hcount
      refine ⟨fun _ => ⟨0, 0, fun _ => 0⟩, fun hsame => ?_⟩
      have hentry := congrArg Identity.registered (congrFun hsame k)
      rw [Registry.receive, if_pos hok, hids, Registry.mark, if_neg (by simp [hgood]),
        Registry.mark_registered_of_registered ids (by rw [hk])] at hentry
      exact absurd hentry (by decide)
  | _ => exact h.elim

/-- A mail writes an entry exactly when it changes some registry. -/
theorem Mail.writesRegistry_iff {m : Mail} :
    m.WritesRegistry ↔ ∃ r : Registry, r.receive m ≠ r := by
  refine ⟨fun h => h.exists_receive_ne, fun ⟨r, hr⟩ => ?_⟩
  by_contra h
  exact hr (Mail.receive_of_not_writesRegistry h r)

/-- Mails that write no entry leave the registry alone. -/
theorem foldl_receive_of_not_writes {ms : List Mail} (h : ∀ m ∈ ms, ¬ m.WritesRegistry)
    (r : Registry) : ms.foldl Registry.receive r = r := by
  induction ms with
  | nil => rfl
  | cons m ms ih =>
      rw [List.foldl_cons, Mail.receive_of_not_writesRegistry (h m List.mem_cons_self)]
      exact ih fun m' hm' => h m' (List.mem_cons_of_mem _ hm')

/-! ## The system -/

/-- A connection of the manager. -/
inductive Source
  | dect
  | client (c : ℕ)

/-- The manager, the readers of its open connections and, as a history variable,
the mails that it has received from the stack. -/
structure System where
  world : World
  dect : Reader
  client : ℕ → Option Reader
  accepted : ℕ
  stackMails : List Mail

/-- What the event loop reports. -/
inductive Arrival
  | accept
  | data (source : Source) (piece : List UInt8) (heap : Heap) (context : ℕ → Context)
  | closed (c : ℕ)
  | timeout (t : Timer)

namespace System

/-- The reader of a connection, if it is open. -/
def reader (s : System) : Source → Option Reader
  | .dect => some s.dect
  | .client c => s.client c

/-- A connection's reader moves on, and the manager with it. -/
def advance (s : System) (r : Reader) (world : World) (mails : List Mail) : Source → System
  | .dect => { s with world := world, dect := r, stackMails := s.stackMails ++ mails }
  | .client c => { s with world := world, client := Function.update s.client c (some r) }

/-- After the start-up of `run`. -/
def initial (config : Config) : System :=
  ⟨DectManager.initial config, .fresh, fun _ => none, 0, []⟩

/-- One turn of the event loop: `do_accept`, `packet_read`, `errorcb` or a timer. -/
def step (api : VendorApi) (s : System) : Arrival → Option System
  | .accept =>
    some { s with
      client := Function.update s.client s.accepted (some .fresh)
      accepted := s.accepted + 1 }
  | .data source piece heap context =>
    (s.reader source).bind fun r =>
      (packetRead heap (r.receive piece)).bind fun t =>
        let es := packetEvents api context t.2
        (run DectManager.step s.world es).map fun w => s.advance t.1 w (mailsOf es) source
  | .closed c => some { s with client := Function.update s.client c none }
  | .timeout t => (DectManager.step s.world (.timeout t)).map fun w => { s with world := w }

/-- The mails that an arrival makes the manager process on behalf of a client. -/
def clientMails (api : VendorApi) (s : System) : Arrival → List Mail
  | .data (.client c) piece heap context =>
    match (s.client c).bind fun r => packetRead heap (r.receive piece) with
    | some t => mailsOf (packetEvents api context t.2)
    | none => []
  | _ => []

/-- The mails that an arrival makes the manager process on behalf of the stack. -/
def newStackMails (api : VendorApi) (s : System) : Arrival → List Mail
  | .data .dect piece heap context =>
    match packetRead heap (s.dect.receive piece) with
    | some t => mailsOf (packetEvents api context t.2)
    | none => []
  | _ => []

/-- The payloads of the mails that an arrival brings from the stack. -/
def newStackPayloads (s : System) : Arrival → List (List UInt8)
  | .data .dect piece heap _ =>
    match packetRead heap (s.dect.receive piece) with
    | some t => mailPayloads t.2
    | none => []
  | _ => []

/-- The payloads of the mails that a run brings from the stack. -/
def stackPayloads (api : VendorApi) (s : System) : List Arrival → List (List UInt8)
  | [] => []
  | e :: es =>
    newStackPayloads s e ++
      match step api s e with
      | some s' => stackPayloads api s' es
      | none => []

/-! ## One step -/

/-- **One step.**  The stack mails grow by those that arrive, and the registry
changes by the mails that arrive, from whichever connection. -/
theorem step_spec {api : VendorApi} {s s' : System} {e : Arrival} (h : step api s e = some s') :
    s'.stackMails = s.stackMails ++ newStackMails api s e ∧
      registry s'.world =
        (newStackMails api s e ++ clientMails api s e).foldl Registry.receive
          (registry s.world) := by
  cases e with
  | accept =>
      obtain rfl := Option.some.inj h
      exact ⟨(List.append_nil _).symm, rfl⟩
  | closed c =>
      obtain rfl := Option.some.inj h
      exact ⟨(List.append_nil _).symm, rfl⟩
  | timeout t =>
      obtain ⟨w, hw, rfl⟩ := Option.map_eq_some_iff.mp h
      exact ⟨(List.append_nil _).symm, registry_step hw⟩
  | data source piece heap context =>
      obtain ⟨r, hr, h⟩ := Option.bind_eq_some_iff.mp h
      obtain ⟨t, ht, h⟩ := Option.bind_eq_some_iff.mp h
      obtain ⟨w, hw, rfl⟩ := Option.map_eq_some_iff.mp h
      have hregistry : registry w =
          (mailsOf (packetEvents api context t.2)).foldl Registry.receive (registry s.world) :=
        (registry_run hw).trans (foldl_observe _ _)
      -- the handlers are the same for both, only the history tells them apart
      cases source with
      | dect =>
          obtain rfl : s.dect = r := Option.some.inj hr
          simp only [newStackMails, clientMails, ht, List.append_nil]
          exact ⟨rfl, hregistry⟩
      | client c =>
          have hclient : ((s.client c).bind fun r => packetRead heap (r.receive piece)) = some t :=
            Option.bind_eq_some_iff.mpr ⟨r, hr, ht⟩
          simp only [newStackMails, clientMails, hclient, List.append_nil, List.nil_append]
          exact ⟨rfl, hregistry⟩

/-- A turn is a run of the manager. -/
theorem world_run {api : VendorApi} {s s' : System} {e : Arrival} (h : step api s e = some s') :
    ∃ evs, run DectManager.step s.world evs = some s'.world := by
  cases e with
  | accept =>
      obtain rfl := Option.some.inj h
      exact ⟨[], rfl⟩
  | closed i =>
      obtain rfl := Option.some.inj h
      exact ⟨[], rfl⟩
  | timeout t =>
      obtain ⟨w, hw, rfl⟩ := Option.map_eq_some_iff.mp h
      exact ⟨[.timeout t], by rw [run_cons, hw]; rfl⟩
  | data source piece heap context =>
      obtain ⟨r, -, h⟩ := Option.bind_eq_some_iff.mp h
      obtain ⟨t, -, h⟩ := Option.bind_eq_some_iff.mp h
      obtain ⟨w, hw, rfl⟩ := Option.map_eq_some_iff.mp h
      cases source <;> exact ⟨_, hw⟩

/-! ## Runs -/

/-- No client connection dispatches a mail that writes the registry. -/
def Harmless (api : VendorApi) (s : System) (e : Arrival) : Prop :=
  ∀ m ∈ clientMails api s e, ¬ m.WritesRegistry

/-- **The registry is a function of the stack's mails** in every run in which no
client connection dispatches a mail that writes it. -/
theorem registry_of_stack_mails (api : VendorApi) (config : Config) :
    ∀ es s, Along (step api) (fun _ s e _ => Harmless api s e) (initial config) es →
      run (step api) (initial config) es = some s →
      registry s.world =
        s.stackMails.foldl Registry.receive (registry (DectManager.initial config)) := by
  refine run_induction_along rfl ?_
  intro _ s e s' _ hs h hharmless
  obtain ⟨hmails, hregistry⟩ := step_spec h
  rw [hregistry, List.foldl_append, foldl_receive_of_not_writes hharmless, hs, hmails,
    List.foldl_append]

/-- Self-contained payloads from the stack are the stack mails. -/
theorem stackMails_of_payloads {api : VendorApi} {es : List Arrival} {s s' : System}
    (h : run (step api) s es = some s')
    (hself : ∀ m ∈ stackPayloads api s es, api.SelfContained m) :
    s'.stackMails = s.stackMails ++ (stackPayloads api s es).map (decoded api) := by
  induction es generalizing s with
  | nil =>
      obtain rfl := Option.some.inj h
      exact (List.append_nil _).symm
  | cons e es ih =>
      obtain ⟨v, hv, hes⟩ := Option.bind_eq_some_iff.mp h
      have hpayloads : stackPayloads api s (e :: es) =
          newStackPayloads s e ++ stackPayloads api v es := by
        rw [stackPayloads, hv]
      rw [hpayloads, List.forall_mem_append] at hself
      have hnew : newStackMails api s e = (newStackPayloads s e).map (decoded api) := by
        cases e with
        | data source piece heap context =>
            cases source with
            | client c => rfl
            | dect =>
                simp only [newStackMails, newStackPayloads] at hself ⊢
                split
                · rename_i t ht
                  rw [ht] at hself
                  exact mailsOf_packetEvents hself.1 context
                · rfl
        | _ => rfl
      rw [ih hes hself.2, (step_spec hv).1, hnew, hpayloads, List.map_append, List.append_assoc]

/-- **Clients cannot forge handset state** in runs in which no client connection
dispatches a mail that writes the registry: two such runs with the same stack
mails agree on it, and so do two with the same payloads from the stack if all of
these are self-contained, whatever lies behind them in memory.  And forging is what
goes wrong: a client's mails that change the registry leave the stack mails as they
are. -/
theorem clients_cannot_forge (api : VendorApi) (config : Config) :
    (∀ es es' s s', run (step api) (initial config) es = some s →
        run (step api) (initial config) es' = some s' →
        Along (step api) (fun _ s e _ => Harmless api s e) (initial config) es →
        Along (step api) (fun _ s e _ => Harmless api s e) (initial config) es' →
        s.stackMails = s'.stackMails → registry s.world = registry s'.world) ∧
      (∀ es es' s s', run (step api) (initial config) es = some s →
        run (step api) (initial config) es' = some s' →
        Along (step api) (fun _ s e _ => Harmless api s e) (initial config) es →
        Along (step api) (fun _ s e _ => Harmless api s e) (initial config) es' →
        stackPayloads api (initial config) es = stackPayloads api (initial config) es' →
        (∀ m ∈ stackPayloads api (initial config) es, api.SelfContained m) →
        registry s.world = registry s'.world) ∧
      ∀ es s e s', run (step api) (initial config) es = some s → step api s e = some s' →
        (clientMails api s e).foldl Registry.receive (registry s.world) ≠ registry s.world →
        s'.stackMails = s.stackMails ∧ registry s'.world ≠ registry s.world := by
  have hsame (es es' : List Arrival) (s s' : System)
      (hrun : run (step api) (initial config) es = some s)
      (hrun' : run (step api) (initial config) es' = some s')
      (hharmless : Along (step api) (fun _ s e _ => Harmless api s e) (initial config) es)
      (hharmless' : Along (step api) (fun _ s e _ => Harmless api s e) (initial config) es')
      (hmails : s.stackMails = s'.stackMails) : registry s.world = registry s'.world := by
    -- both registries are the same function of the stack's mails
    rw [registry_of_stack_mails api config es s hharmless hrun,
      registry_of_stack_mails api config es' s' hharmless' hrun', hmails]
  refine ⟨hsame, ?_, ?_⟩
  · intro es es' s s' hrun hrun' hharmless hharmless' hpayloads hself
    refine hsame es es' s s' hrun hrun' hharmless hharmless' ?_
    rw [stackMails_of_payloads hrun hself, stackMails_of_payloads hrun' (hpayloads ▸ hself),
      hpayloads]
  · intro _ s e s' _ h hforged
    obtain ⟨hmails, hregistry⟩ := step_spec h
    have hnone : newStackMails api s e = [] := by
      cases e with
      | data source piece heap context =>
          cases source with
          | dect => exact absurd rfl hforged
          | client c => rfl
      | _ => rfl
    rw [hnone, List.append_nil] at hmails
    rw [hnone, List.nil_append] at hregistry
    refine ⟨hmails, ?_⟩
    rw [hregistry]
    exact hforged

/-- A frame with a mail in the packed layout. -/
def mailFrame (payload : List UInt8) (h : payload.length + sizeofHeader < 2 ^ 32) : Frame :=
  ⟨PacketType.dectPacket.code, payload, h⟩

/-- Surroundings that supply nothing. -/
def Context.none : Context := ⟨.none, fun _ => 0⟩

/-- Frames that arrive whole. -/
def arrival (source : Source) (fs : List Frame) : Arrival :=
  .data source (encode fs) .ample fun _ => Context.none

/-- The indication that handset 3 is present. -/
def presentFrame : Frame := mailFrame [3, 0, 3, 0, 0, 0] (by decide)

/-- A client that lists the handsets while the stack reports handset 3 changes
nothing in the registry. -/
theorem list_command_forges_nothing :
    ∃ s s', run (step packedApi) (initial ⟨.enabled, by decide⟩) [arrival .dect [presentFrame]] =
        some s ∧
      run (step packedApi) (initial ⟨.enabled, by decide⟩)
        [.accept, arrival (.client 0) [commandFrame .listHandsets 0],
          arrival .dect [presentFrame]] = some s' ∧
      registry s.world = registry s'.world := by
  refine ⟨_, _, rfl, rfl, (clients_cannot_forge packedApi ⟨.enabled, by decide⟩).1
    [arrival .dect [presentFrame]]
    [.accept, arrival (.client 0) [commandFrame .listHandsets 0], arrival .dect [presentFrame]]
    _ _ rfl rfl ?_ ?_ rfl⟩
  · exact .cons rfl (fun _ hm => absurd hm List.not_mem_nil) (along_nil _ _)
  · exact .cons rfl (fun _ hm => absurd hm List.not_mem_nil) <|
      .cons rfl (fun _ hm => absurd hm List.not_mem_nil) <|
        .cons rfl (fun _ hm => absurd hm List.not_mem_nil) <| along_nil _ _

/-- A client that sends a mail of its own makes handset 3 present. -/
theorem client_forges_presence :
    ∃ s s', run (step packedApi) (initial ⟨.enabled, by decide⟩) [.accept] = some s ∧
      run (step packedApi) (initial ⟨.enabled, by decide⟩)
        [.accept, arrival (.client 0) [presentFrame]] = some s' ∧
      s.stackMails = s'.stackMails ∧ registry s.world ≠ registry s'.world := by
  refine ⟨_, _, rfl, rfl, rfl, fun h => ?_⟩
  have hpresent := congrArg (fun r : Registry => (r ⟨2, by decide⟩).present) h
  exact absurd hpresent (by decide)

end System

end DectManager
