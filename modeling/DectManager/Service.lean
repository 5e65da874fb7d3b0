/-
# Who is answered

The manager serves all its connections with one `packet_read`, and `get_status`
writes to the connection that it was called for.  `Service` adds to the system,
as a history variable, what has been written to each connection, and `Ledger`
what the manager has processed, with the connection that brought it.

* `sound_run`: what has been processed is a run of the manager, and the replies on
  a connection answer the status requests of this connection, in order; each tells
  what had been processed before its request, from whichever connection.
* `recorded_run`: what has been processed for a client are the packets that its
  frames are, all of them if no frame is cut in its body, and fewer otherwise.
* `status_requests_answered` is about one client among any others: if its frames
  are not cut in their bodies, it is sent one reply for each of its status
  requests, in order, and no other, whatever the other connections, the stack and
  the timers do in between.  Of a client that asks for nothing but the status, this
  is so exactly when its frames are not cut in their bodies.
-/
import DectManager.Replies
import DectManager.System

namespace DectManager

open PartialRun Streams

deriving instance DecidableEq for Source

/-! ## The replies of a connection -/

/-- The system and the replies written to each connection, oldest first. -/
structure Service where
  system : System
  sent : Source → List Status

namespace Service

/-- After the start-up of `run`. -/
def initial (config : Config) : Service := ⟨.initial config, fun _ => []⟩

/-- The replies that are new in a state of the manager. -/
def newReplies (w w' : World) : List Status := (replies w').drop (replies w).length

/-- One turn of the event loop.  The replies that a connection's `packet_read` gives go to this
connection. -/
def step (api : VendorApi) (t : Service) (e : Arrival) : Option Service :=
  (System.step api t.system e).map fun s =>
    { system := s
      sent := match e with
        | .data source _ _ _ =>
          Function.update t.sent source (t.sent source ++ newReplies t.system.world s.world)
        | _ => t.sent }

/-- The pieces that arrive on a client's connection. -/
def piecesOn (c : ℕ) (es : List Arrival) : List (List UInt8) :=
  es.filterMap fun
    | .data (.client i) piece _ _ => if i = c then some piece else none
    | _ => none

/-- The heap serves the frames whenever something arrives on the client's connection. -/
def ServesOn (c : ℕ) (fs : List Frame) (es : List Arrival) : Prop :=
  ∀ piece heap context, .data (.client c) piece heap context ∈ es → ∀ f ∈ fs, heap.Serves f

/-- The type word of a status request. -/
def asksStatus (type : UInt32) : Bool := decide (type = PacketType.getStatus.code)

/-! ## What the manager has processed -/

/-- An event that the manager has processed, with the connection that brought it if one did. -/
structure Processed where
  source : Option Source
  event : Event

/-- The events that a turn of the event loop makes the manager process. -/
def turn (api : VendorApi) (s : System) : Arrival → List Processed
  | .data source piece heap context =>
    match (s.reader source).bind fun r => packetRead heap (r.receive piece) with
    | some t => (packetEvents api context t.2).map (Processed.mk (some source))
    | none => []
  | .timeout t => [⟨none, .timeout t⟩]
  | _ => []

/-- An arrival is processed for the connection that it is on. -/
theorem turn_data (api : VendorApi) (s : System) (source : Source) (piece : List UInt8) (heap : Heap)
    (context : ℕ → Context) : ∃ es : List Event,
      turn api s (.data source piece heap context) = es.map (Processed.mk (some source)) := by
  unfold turn
  dsimp only
  split
  · exact ⟨_, rfl⟩
  · exact ⟨[], rfl⟩

/-- So it brings nothing for the others. -/
theorem source_ne_of_mem_turn {api : VendorApi} {s : System} {source other : Source}
    {piece : List UInt8} {heap : Heap} {context : ℕ → Context} (h : source ≠ other) :
    ∀ x ∈ turn api s (.data source piece heap context), x.source ≠ some other := by
  obtain ⟨es, hes⟩ := turn_data api s source piece heap context
  intro x hx
  rw [hes] at hx
  obtain ⟨e, -, rfl⟩ := List.mem_map.mp hx
  exact fun hsource => h (Option.some.inj hsource)

/-- The service with all that the manager has processed, oldest first. -/
structure Ledger where
  service : Service
  processed : List Processed

/-- After the start-up of `run`. -/
def Ledger.initial (config : Config) : Ledger := ⟨.initial config, []⟩

/-- One turn of the event loop. -/
def Ledger.step (api : VendorApi) (l : Ledger) (e : Arrival) : Option Ledger :=
  (Service.step api l.service e).map fun t => ⟨t, l.processed ++ turn api l.service.system e⟩

/-- What has been processed for a connection. -/
def eventsOf (source : Source) (log : List Processed) : List Event :=
  log.filterMap fun x => if x.source = some source then some x.event else none

theorem eventsOf_append (source : Source) (log log' : List Processed) :
    eventsOf source (log ++ log') = eventsOf source log ++ eventsOf source log' :=
  List.filterMap_append

/-- All that a connection has brought is processed for it. -/
theorem eventsOf_own (source : Source) (es : List Event) :
    eventsOf source (es.map (Processed.mk (some source))) = es := by
  rw [eventsOf, List.filterMap_map]
  simp

/-- For each status request on a connection among `log`, which was processed after `pre`, what had
been processed before it. -/
def questionsOn (source : Source) (pre : List Processed) : List Processed → List (List Processed)
  | [] => []
  | x :: log =>
    if x.source = some source ∧ AsksStatus x.event then
      pre :: questionsOn source (pre ++ [x]) log
    else questionsOn source (pre ++ [x]) log

/-- The questions of what comes later. -/
theorem questionsOn_append (source : Source) (pre log log' : List Processed) :
    questionsOn source pre (log ++ log') =
      questionsOn source pre log ++ questionsOn source (pre ++ log) log' := by
  induction log generalizing pre with
  | nil =>
      rw [List.append_nil]
      rfl
  | cons x log ih =>
      rw [List.cons_append, questionsOn, questionsOn, ih, List.append_assoc, List.singleton_append]
      split_ifs <;> rfl

/-- What only others have brought are no questions of the connection. -/
theorem questionsOn_of_forall_ne {source : Source} {log : List Processed}
    (h : ∀ x ∈ log, x.source ≠ some source) (pre : List Processed) :
    questionsOn source pre log = [] := by
  induction log generalizing pre with
  | nil => rfl
  | cons x log ih =>
      obtain ⟨hx, hlog⟩ := List.forall_mem_cons.mp h
      rw [questionsOn, if_neg fun hown => hx hown.1, ih hlog]

/-- Of what the connection itself has brought, all status requests are its questions. -/
theorem map_questionsOn_own (source : Source) (pre : List Processed) (es : List Event) :
    (questionsOn source pre (es.map (Processed.mk (some source)))).map (List.map Processed.event) =
      questionsFrom (pre.map Processed.event) es := by
  induction es generalizing pre with
  | nil => rfl
  | cons e es ih =>
      have hnext := ih (pre ++ [⟨some source, e⟩])
      rw [List.map_append] at hnext
      rw [List.map_cons, questionsOn, questionsFrom]
      simp only [true_and]
      split_ifs
      · rw [List.map_cons, hnext]
        rfl
      · exact hnext

/-- The questions of a connection are among all. -/
theorem questionsOn_sublist (source : Source) (pre log : List Processed) :
    ((questionsOn source pre log).map (List.map Processed.event)).Sublist
      (questionsFrom (pre.map Processed.event) (log.map Processed.event)) := by
  induction log generalizing pre with
  | nil => exact List.Sublist.slnil
  | cons x log ih =>
      have hnext := ih (pre ++ [x])
      rw [List.map_append] at hnext
      rw [List.map_cons, questionsOn, questionsFrom]
      by_cases hasks : AsksStatus x.event
      · rw [if_pos hasks]
        split_ifs
        · exact hnext.cons_cons _
        · exact hnext.cons _
      · rw [if_neg hasks, if_neg fun hown => hasks hown.2]
        exact hnext

/-- **The own part** of a question is what the connection had brought before its request. -/
theorem map_eventsOf_questionsOn (source : Source) (pre log : List Processed) :
    (questionsOn source pre log).map (eventsOf source) =
      questionsFrom (eventsOf source pre) (eventsOf source log) := by
  induction log generalizing pre with
  | nil => rfl
  | cons x log ih =>
      have hnext := ih (pre ++ [x])
      have hcons : eventsOf source (x :: log) = eventsOf source [x] ++ eventsOf source log :=
        eventsOf_append source [x] log
      rw [eventsOf_append] at hnext
      rw [hcons, questionsFrom_append, questionsOn, ← hnext]
      by_cases hown : x.source = some source
      · have hsingle : eventsOf source [x] = [x.event] := by simp [eventsOf, hown]
        rw [hsingle, questionsFrom]
        simp only [hown, true_and]
        split_ifs <;> rfl
      · have hsingle : eventsOf source [x] = [] := by simp [eventsOf, hown]
        rw [hsingle, if_neg fun h => hown h.1]
        rfl

/-- A connection has as many questions as status requests. -/
theorem length_questionsOn (source : Source) (log : List Processed) :
    (questionsOn source [] log).length =
      (eventsOf source log).countP fun e => decide (AsksStatus e) := by
  have hown := congrArg List.length (map_eventsOf_questionsOn source [] log)
  rw [List.length_map, length_questionsFrom] at hown
  exact hown

/-! ## A run -/

/-- **A turn** is a run of the manager through the events of the turn. -/
theorem turn_run {api : VendorApi} {s s' : System} {e : Arrival}
    (h : System.step api s e = some s') :
    run DectManager.step s.world ((turn api s e).map Processed.event) = some s'.world := by
  cases e with
  | accept =>
      obtain rfl := Option.some.inj h
      rfl
  | closed c =>
      obtain rfl := Option.some.inj h
      rfl
  | timeout t =>
      obtain ⟨w, hw, rfl⟩ := Option.map_eq_some_iff.mp h
      show (DectManager.step s.world (.timeout t)).bind _ = _
      rw [hw]
      rfl
  | data source piece heap context =>
      obtain ⟨r, hr, h⟩ := Option.bind_eq_some_iff.mp h
      obtain ⟨x, hx, h⟩ := Option.bind_eq_some_iff.mp h
      obtain ⟨w, hw, rfl⟩ := Option.map_eq_some_iff.mp h
      have hturn : ((turn api s (.data source piece heap context)).map Processed.event) =
          packetEvents api context x.2 := by
        simp only [turn, hr, hx, Option.bind_some, List.map_map]
        exact List.map_id _
      rw [hturn, hw]
      cases source <;> rfl

/-- The history of a ledger is a run of the manager, and what has been sent on a connection answers
the questions of this connection. -/
structure Ledger.Sound (config : Config) (l : Ledger) : Prop where
  manager : run DectManager.step (DectManager.initial config) (l.processed.map Processed.event) =
    some l.service.system.world
  told : ∀ source, List.Forall₂ (fun q s => Tells config (q.map Processed.event) s)
    (questionsOn source [] l.processed) (l.service.sent source)

/-- What is new among the replies answers the questions among the events. -/
theorem tells_newReplies {config : Config} {pre es : List Event} {w w' : World}
    (hpre : run DectManager.step (DectManager.initial config) pre = some w)
    (hes : run DectManager.step w es = some w') :
    List.Forall₂ (Tells config) (questionsFrom pre es) (newReplies w w') := by
  obtain ⟨new, hnew, -⟩ := replies_run hes
  have hboth : run DectManager.step (DectManager.initial config) (pre ++ es) = some w' := by
    rw [run_append, hpre]
    exact hes
  have hold := tells_replies config pre w hpre
  have hall := tells_replies config (pre ++ es) w' hboth
  have hsplit : questions (pre ++ es) = questions pre ++ questionsFrom pre es :=
    questionsFrom_append [] pre es
  rw [hnew, hsplit] at hall
  have hrest := List.forall₂_drop_append _ _ _ hall
  rw [List.drop_left' hold.length_eq] at hrest
  rw [newReplies, hnew, List.drop_left]
  exact hrest

/-- **One turn** keeps a ledger sound. -/
theorem Ledger.Sound.turn {api : VendorApi} {config : Config} {l l' : Ledger} {e : Arrival}
    (hl : l.Sound config) (h : Ledger.step api l e = some l') : l'.Sound config := by
  obtain ⟨t, ht, rfl⟩ := Option.map_eq_some_iff.mp h
  obtain ⟨s, hs, rfl⟩ := Option.map_eq_some_iff.mp ht
  have hturn := turn_run hs
  refine ⟨?_, fun source => ?_⟩
  · rw [List.map_append, run_append, hl.manager]
    exact hturn
  rw [questionsOn_append, List.nil_append]
  have hquiet (hothers : ∀ x ∈ Service.turn api l.service.system e, x.source ≠ some source) :
      List.Forall₂ (fun q s => Tells config (q.map Processed.event) s)
        (questionsOn source [] l.processed ++
          questionsOn source l.processed (Service.turn api l.service.system e))
        (l.service.sent source) := by
    rw [questionsOn_of_forall_ne hothers, List.append_nil]
    exact hl.told source
  cases e with
  | accept => exact hquiet (List.forall_mem_nil _)
  | closed c => exact hquiet (List.forall_mem_nil _)
  | timeout timer => exact hquiet (List.forall_mem_singleton.mpr (by simp))
  | data arrived piece heap context =>
      obtain ⟨evs, hevs⟩ := turn_data api l.service.system arrived piece heap context
      by_cases hsource : arrived = source
      · -- the replies of this turn
        subst hsource
        show List.Forall₂ _ _ (Function.update l.service.sent arrived _ arrived)
        have hmanager : run DectManager.step l.service.system.world evs = some s.world := by
          rw [hevs, List.map_map] at hturn
          rw [← hturn]
          exact congrArg _ (List.map_id evs).symm
        have hnew := tells_newReplies hl.manager hmanager
        rw [← map_questionsOn_own arrived l.processed evs, List.forall₂_map_left_iff] at hnew
        rw [Function.update_self, hevs]
        exact List.rel_append (hl.told arrived) hnew
      · show List.Forall₂ _ _ (Function.update l.service.sent arrived _ source)
        rw [Function.update_of_ne (Ne.symm hsource)]
        exact hquiet (source_ne_of_mem_turn hsource)

/-- **A run** of the event loop, as its ledger has it. -/
theorem sound_run (api : VendorApi) (config : Config) :
    ∀ es l, run (Ledger.step api) (Ledger.initial config) es = some l → l.Sound config :=
  run_induction ⟨rfl, fun _ => .nil⟩ fun _ _ _ _ _ hl h => hl.turn h

/-- A ledger can be kept of every run. -/
theorem exists_ledger {api : VendorApi} {es : List Arrival} {t t' : Service}
    (h : run (step api) t es = some t') (log : List Processed) :
    ∃ l, run (Ledger.step api) ⟨t, log⟩ es = some l ∧ l.service = t' := by
  induction es generalizing t log with
  | nil =>
      obtain rfl := Option.some.inj h
      exact ⟨_, rfl, rfl⟩
  | cons e es ih =>
      obtain ⟨u, hu, hes⟩ := Option.bind_eq_some_iff.mp h
      obtain ⟨l, hl, hservice⟩ := ih hes (log ++ turn api t.system e)
      refine ⟨l, ?_, hservice⟩
      rw [run_cons, Ledger.step, hu]
      exact hl

/-! ## Packets and events -/

/-- The event is the dispatch of the packet. -/
def IsEventOf (api : VendorApi) (p : Packet) (e : Event) : Prop :=
  ∃ context, e = packetEvent api context p

/-- A packet is a status request exactly when its type word says so. -/
theorem IsEventOf.asksStatus_iff {api : VendorApi} {p : Packet} {e : Event}
    (h : IsEventOf api p e) : AsksStatus e ↔ p.type = PacketType.getStatus.code := by
  obtain ⟨context, rfl⟩ := h
  unfold packetEvent
  split_ifs with hmail
  · rw [hmail]
    exact iff_of_false id (by decide)
  · exact Iff.rfl

/-- The events of one call of `packet_read` are the dispatches of its packets. -/
theorem forall₂_packetEvents (api : VendorApi) (context : ℕ → Context) (ps : List Packet) :
    List.Forall₂ (IsEventOf api) ps (packetEvents api context ps) := by
  unfold packetEvents
  induction ps generalizing context with
  | nil => exact .nil
  | cons p ps ih =>
      rw [List.mapIdx_cons]
      exact .cons ⟨context 0, rfl⟩ (ih fun i => context (i + 1))

/-- There are as many status requests among the events as among the packets. -/
theorem countP_asksStatus {api : VendorApi} {ps : List Packet} {es : List Event}
    (h : List.Forall₂ (IsEventOf api) ps es) :
    es.countP (fun e => decide (AsksStatus e)) = ps.countP fun p => asksStatus p.type := by
  induction h with
  | nil => rfl
  | cons hfirst _ ih =>
      rw [List.countP_cons, List.countP_cons, ih, asksStatus]
      simp only [hfirst.asksStatus_iff]

/-- Packets that say what some frames say are as many status requests. -/
theorem countP_contents {ps : List Packet} {fs : List Frame}
    (h : ps.map Packet.contents = fs.map Frame.contents) :
    ps.countP (fun p => asksStatus p.type) = fs.countP fun f => asksStatus f.type := by
  have hcount := congrArg (List.countP fun x : UInt32 × List UInt8 => asksStatus x.1) h
  rw [List.countP_map, List.countP_map] at hcount
  exact hcount

/-! ## One connection -/

/-- What has happened on the client's connection: its reader is where the pieces that have arrived
have brought it, and the manager has processed the packets dispatched. -/
structure Recorded (api : VendorApi) (c : ℕ) (fs : List Frame) (pieces : List (List UInt8))
    (l : Ledger) (s : Reader × List Packet) : Prop where
  reader : ∀ r, l.service.system.client c = some r → r = s.1
  unused : l.service.system.accepted ≤ c →
    l.service.system.client c = none ∧ s = (.fresh, [])
  events : List.Forall₂ (IsEventOf api) s.2 (eventsOf (.client c) l.processed)
  place : (¬ CutInBody Frame.bytes sizeofHeader fs pieces ∧
      ∃ done post, fs = done ++ post ∧ InStep done pieces.flatten s) ∨
    (CutInBody Frame.bytes sizeofHeader fs pieces ∧ Stuck fs s)

/-- The event is an arrival on the client's connection. -/
def IsOn (c : ℕ) : Arrival → Prop
  | .data (.client i) _ _ _ => i = c
  | _ => False

/-- The heap admits the frames whenever something arrives on the client's connection. -/
def AdmitsOn (c : ℕ) (fs : List Frame) (es : List Arrival) : Prop :=
  ∀ piece heap context, .data (.client c) piece heap context ∈ es → ∀ f ∈ fs, heap.Admits f

variable {api : VendorApi} {c : ℕ} {fs : List Frame} {l l' : Ledger}

/-- **Events of the others** change nothing on the connection but that it may be opened or
closed. -/
theorem Recorded.other {pieces : List (List UInt8)} {s : Reader × List Packet} {e : Arrival}
    (hl : Recorded api c fs pieces l s) (hother : ¬ IsOn c e) (h : Ledger.step api l e = some l') :
    Recorded api c fs pieces l' s := by
  obtain ⟨t, ht, rfl⟩ := Option.map_eq_some_iff.mp h
  obtain ⟨s', hs', rfl⟩ := Option.map_eq_some_iff.mp ht
  have hevents (hothers : ∀ x ∈ turn api l.service.system e, x.source ≠ some (.client c)) :
      List.Forall₂ (IsEventOf api) s.2
        (eventsOf (.client c) (l.processed ++ turn api l.service.system e)) := by
    have hnone : eventsOf (.client c) (turn api l.service.system e) = [] :=
      List.filterMap_eq_nil_iff.mpr fun x hx => if_neg (hothers x hx)
    rw [eventsOf_append, hnone, List.append_nil]
    exact hl.events
  cases e with
  | accept =>
      obtain rfl := Option.some.inj hs'
      refine ⟨fun r hr => ?_, fun hle => ?_, hevents (List.forall_mem_nil _), hl.place⟩
      · change Function.update l.service.system.client l.service.system.accepted (some .fresh) c =
          some r at hr
        rw [Function.update_apply] at hr
        split_ifs at hr with hc
        · rw [(hl.unused (le_of_eq hc.symm)).2]
          exact (Option.some.inj hr).symm
        · exact hl.reader r hr
      · change l.service.system.accepted + 1 ≤ c at hle
        obtain ⟨hnone, hfresh⟩ := hl.unused (by omega)
        refine ⟨?_, hfresh⟩
        show Function.update l.service.system.client l.service.system.accepted (some .fresh) c =
          none
        rw [Function.update_of_ne (by omega)]
        exact hnone
  | closed i =>
      obtain rfl := Option.some.inj hs'
      refine ⟨fun r hr => ?_, fun hle => ?_, hevents (List.forall_mem_nil _), hl.place⟩
      · change Function.update l.service.system.client i none c = some r at hr
        rw [Function.update_apply] at hr
        split_ifs at hr
        exact hl.reader r hr
      · obtain ⟨hnone, hfresh⟩ := hl.unused hle
        refine ⟨?_, hfresh⟩
        show Function.update l.service.system.client i none c = none
        rw [Function.update_apply, hnone, ite_self]
  | timeout timer =>
      obtain ⟨w, -, rfl⟩ := Option.map_eq_some_iff.mp hs'
      exact ⟨hl.reader, hl.unused, hevents (List.forall_mem_singleton.mpr (by simp)), hl.place⟩
  | data source piece heap context =>
      obtain ⟨r, -, hs'⟩ := Option.bind_eq_some_iff.mp hs'
      obtain ⟨x, -, hs'⟩ := Option.bind_eq_some_iff.mp hs'
      obtain ⟨w, -, rfl⟩ := Option.map_eq_some_iff.mp hs'
      have hne : source ≠ .client c := by
        rintro rfl
        exact hother rfl
      have hothers := hevents (source_ne_of_mem_turn hne)
      cases source with
      | dect => exact ⟨hl.reader, hl.unused, hothers, hl.place⟩
      | client i =>
          have hclient : Function.update l.service.system.client i (some x.1) c =
              l.service.system.client c :=
            Function.update_of_ne (fun hic => hne (congrArg Source.client hic.symm)) _ _
          exact ⟨fun r hr => hl.reader r (hclient.symm.trans hr),
            fun hle => ⟨hclient.trans (hl.unused hle).1, (hl.unused hle).2⟩, hothers, hl.place⟩

/-- **An arrival on the connection** is a delivery to its reader. -/
theorem Recorded.own {pieces : List (List UInt8)} {s : Reader × List Packet}
    {piece rest : List UInt8} {heap : Heap} {context : ℕ → Context}
    (hl : Recorded api c fs pieces l s) (hadmits : ∀ f ∈ fs, heap.Admits f)
    (hbytes : pieces.flatten ++ piece ++ rest = encode fs)
    (h : Ledger.step api l (.data (.client c) piece heap context) = some l') :
    ∃ s', Recorded api c fs (pieces ++ [piece]) l' s' := by
  obtain ⟨t, ht, rfl⟩ := Option.map_eq_some_iff.mp h
  obtain ⟨s', hs', rfl⟩ := Option.map_eq_some_iff.mp ht
  obtain ⟨r, hr, hs'⟩ := Option.bind_eq_some_iff.mp hs'
  obtain ⟨x, hx, hs'⟩ := Option.bind_eq_some_iff.mp hs'
  obtain ⟨w, hw, rfl⟩ := Option.map_eq_some_iff.mp hs'
  obtain rfl : r = s.1 := hl.reader r hr
  have hdeliver : deliver heap s piece = some (x.1, s.2 ++ x.2) := by rw [deliver, hx]; rfl
  refine ⟨(x.1, s.2 ++ x.2), fun r hr => ?_, fun hle => ?_, ?_, ?_⟩
  · change Function.update l.service.system.client c (some x.1) c = some r at hr
    rw [Function.update_self] at hr
    exact (Option.some.inj hr).symm
  · -- the connection has been accepted, since it has a reader
    have hnone := (hl.unused hle).1
    rw [show l.service.system.client c = some s.1 from hr] at hnone
    cases hnone
  · have hturn : turn api l.service.system (.data (.client c) piece heap context) =
        (packetEvents api context x.2).map (Processed.mk (some (.client c))) := by
      simp only [turn, hr, hx, Option.bind_some]
    show List.Forall₂ (IsEventOf api) (s.2 ++ x.2) (eventsOf (.client c) _)
    rw [eventsOf_append, hturn, eventsOf_own]
    exact List.rel_append hl.events (forall₂_packetEvents api context x.2)
  · simp only [cutInBody_concat_iff, List.flatten_append, List.flatten_singleton]
    rcases hl.place with ⟨hnocut, done, post, hfs, hstep⟩ | ⟨hcut, hstuck⟩
    · obtain ⟨s', hs', hcases⟩ := hstep.deliver_cases hadmits hfs
        (hbytes.trans (List.append_nil _).symm) (by simp [sizeofHeader])
      obtain rfl := Option.some.inj (hdeliver.symm.trans hs')
      rcases hcases with ⟨hout, hstep'⟩ | ⟨hin, hstuck⟩
      · exact .inl ⟨fun hcut => hcut.elim hnocut hout, hstep'⟩
      · exact .inr ⟨.inr hin, hstuck⟩
    · obtain ⟨s', hs', hstuck'⟩ := deliver_stuck hstuck piece
      obtain rfl := Option.some.inj (hdeliver.symm.trans hs')
      exact .inr ⟨.inl hcut, hstuck'⟩

/-- An arrival on the connection, seen in its pieces. -/
theorem piecesOn_concat (es : List Arrival) (e : Arrival) :
    piecesOn c (es ++ [e]) = piecesOn c es ++ piecesOn c [e] := List.filterMap_append

theorem piecesOn_of_not_isOn {e : Arrival} (h : ¬ IsOn c e) : piecesOn c [e] = [] := by
  cases e with
  | data source piece heap context =>
      cases source with
      | dect => rfl
      | client i => simp [piecesOn, show ¬ i = c from h]
  | _ => rfl

/-- **A run**, as the client's connection sees it. -/
theorem recorded_run (api : VendorApi) (config : Config) :
    ∀ es l, run (Ledger.step api) (Ledger.initial config) es = some l → AdmitsOn c fs es →
      ∀ rest, (piecesOn c es).flatten ++ rest = encode fs →
        ∃ s, Recorded api c fs (piecesOn c es) l s := by
  refine run_induction ?_ ?_
  · intro _ _ _
    refine ⟨(.fresh, []), ⟨fun r hr => ?_, fun _ => ⟨rfl, rfl⟩, .nil,
      .inl ⟨?_, [], fs, rfl, inStep_fresh⟩⟩⟩
    · cases hr
    · exact mt cutInBody_nil_iff.mp (not_inBody_start fs)
  · intro es l e l' _ hes he hadmits rest hbytes
    have hadmits' : AdmitsOn c fs es := fun piece heap context h =>
      hadmits piece heap context (List.mem_append_left _ h)
    rw [piecesOn_concat] at hbytes ⊢
    by_cases hon : IsOn c e
    · cases e with
      | data source piece heap context =>
          cases source with
          | dect => exact hon.elim
          | client i =>
              obtain rfl : i = c := hon
              have hpiece : piecesOn i [.data (.client i) piece heap context] = [piece] := by
                simp [piecesOn]
              rw [hpiece, List.flatten_append, List.flatten_singleton] at hbytes
              rw [hpiece]
              obtain ⟨s, hs⟩ := hes hadmits' (piece ++ rest)
                (by rw [← List.append_assoc]; exact hbytes)
              exact hs.own (hadmits piece heap context (by simp)) hbytes he
      | _ => exact hon.elim
    · rw [piecesOn_of_not_isOn hon, List.append_nil] at hbytes ⊢
      obtain ⟨s, hs⟩ := hes hadmits' rest hbytes
      exact ⟨s, hs.other hon he⟩

/-- **All bytes have arrived.**  The manager has processed what the frames say if no frame was cut
in its body, and fewer packets than frames otherwise. -/
theorem processed_of_frames {config : Config} {es : List Arrival}
    (hrun : run (Ledger.step api) (Ledger.initial config) es = some l) (hadmits : AdmitsOn c fs es)
    (hbytes : (piecesOn c es).flatten = encode fs) :
    ∃ ps, List.Forall₂ (IsEventOf api) ps (eventsOf (.client c) l.processed) ∧
      (¬ CutInBody Frame.bytes sizeofHeader fs (piecesOn c es) →
        ps.map Packet.contents = fs.map Frame.contents) ∧
      (CutInBody Frame.bytes sizeofHeader fs (piecesOn c es) → ps.length < fs.length) := by
  obtain ⟨s, hs⟩ := recorded_run api config es l hrun hadmits [] (by rw [List.append_nil, hbytes])
  refine ⟨s.2, hs.events, fun hnocut => ?_, fun hcut => ?_⟩
  · obtain ⟨-, done, post, rfl, hstep⟩ := hs.place.resolve_right fun h => hnocut h.1
    obtain rfl := hstep.post_eq_nil hbytes
    rw [List.append_nil, hstep.dispatched]
  · exact (hs.place.resolve_left fun h => h.1 hcut).2.behind

/-! ## One client among others -/

/-- **Status requests are answered**, one client's on its own connection, whatever all the others
do.  Suppose that all bytes of its frames have arrived.  If no piece ended in the body of a frame,
the client has been sent one reply for each of its status requests; if all its frames are status
requests, exactly then.  And the replies are answers, in order, to some of the status requests
that the manager has processed: each of them tells what had been processed before its request. -/
theorem status_requests_answered (api : VendorApi) (config : Config) (c : ℕ) (fs : List Frame)
    (es : List Arrival) (t : Service) (hrun : run (step api) (initial config) es = some t)
    (hserves : ServesOn c fs es) (hbytes : (piecesOn c es).flatten = encode fs) :
    (¬ CutInBody Frame.bytes sizeofHeader fs (piecesOn c es) →
        (t.sent (.client c)).length = fs.countP fun f => asksStatus f.type) ∧
      ((∀ f ∈ fs, asksStatus f.type = true) →
        ((t.sent (.client c)).length = fs.length ↔
          ¬ CutInBody Frame.bytes sizeofHeader fs (piecesOn c es))) ∧
      ∃ evs, run DectManager.step (DectManager.initial config) evs = some t.system.world ∧
        List.SublistForall₂ (fun s pre => Tells config pre s) (t.sent (.client c))
          (questions evs) := by
  obtain ⟨l, hl, rfl⟩ := exists_ledger hrun []
  have hsound := sound_run api config es l hl
  obtain ⟨ps, hevents, hall, hfewer⟩ := processed_of_frames hl
    (fun piece heap context h f hf => (hserves piece heap context h f hf).admits) hbytes
  have hcount : (l.service.sent (.client c)).length = ps.countP fun p => asksStatus p.type := by
    rw [← (hsound.told (.client c)).length_eq, length_questionsOn, countP_asksStatus hevents]
  have hanswered : ¬ CutInBody Frame.bytes sizeofHeader fs (piecesOn c es) →
      (l.service.sent (.client c)).length = fs.countP fun f => asksStatus f.type := fun hnocut =>
    hcount.trans (countP_contents (hall hnocut))
  refine ⟨hanswered, fun hasks => ⟨fun hlen hcut => ?_, fun hnocut => ?_⟩, _, hsound.manager, ?_⟩
  · -- a stuck reader has not dispatched all frames
    have hle := List.countP_le_length (p := fun p : Packet => asksStatus p.type) (l := ps)
    rw [← hcount, hlen] at hle
    exact absurd (hfewer hcut) (Nat.not_lt.mpr hle)
  · rw [hanswered hnocut]
    exact List.countP_eq_length.mpr hasks
  · refine List.sublistForall₂_iff.mpr ⟨_, ?_, questionsOn_sublist (.client c) [] l.processed⟩
    exact List.forall₂_map_right_iff.mpr (hsound.told (.client c)).flip

/-- A client asks for the status before and after the stack has reported handset 3. -/
def askTwice : List Arrival :=
  [.accept, System.arrival (.client 0) [commandFrame .getStatus 0],
    System.arrival .dect [System.presentFrame],
    System.arrival (.client 0) [commandFrame .getStatus 0]]

/-- It gets two replies. -/
theorem both_requests_answered :
    ∃ t, run (step packedApi) (initial ⟨.enabled, by decide⟩) askTwice = some t ∧
      (t.sent (.client 0)).length = 2 := by
  have hserves : ServesOn 0 [commandFrame .getStatus 0, commandFrame .getStatus 0] askTwice := by
    intro piece heap context h f _ n
    simp only [askTwice, System.arrival, List.mem_cons, Arrival.data.injEq, reduceCtorEq,
      List.not_mem_nil, false_or, or_false] at h
    rcases h with ⟨-, -, rfl, -⟩ | ⟨hdect, -⟩ | ⟨-, -, rfl, -⟩
    · rfl
    · cases hdect
    · rfl
  refine ⟨_, rfl, ?_⟩
  exact (status_requests_answered packedApi ⟨.enabled, by decide⟩ 0
    [commandFrame .getStatus 0, commandFrame .getStatus 0] askTwice _ rfl hserves (by decide)).1
    (by decide)

end Service

end DectManager
