/-
# The proxy's broadcast

What the proxy reads from `/dev/dect` goes to every client.  It finds the
clients by sending to every descriptor up to `fdmax`, and a descriptor can be
closed, never used, or used again for another connection.  `Relay` runs the
proxy and keeps, for every mail that it reads, the connections at that point of
the turn and the calls of `send` that follow.

* `sound_run`: `master` holds the device, the listener and the descriptors of
  the connections, all of them up to `fdmax`, no connection has two, and every
  mail read so far has been sent as it should.
* `relay_lift`: keeping the history restricts no run.
* `broadcast_exactly_once`: every client that is connected when a mail is read
  is sent it once, as one frame, and `recv` is called on connections only.
-/
import DectManager.Proxy

namespace DectManager

open PartialRun

namespace Proxy

/-! ## The descriptors -/

/-- **One descriptor** in the third part: its connection may be closed, and the
other descriptors keep theirs. -/
theorem descriptors_checkDescriptor {t : Turn} {fds : Finset ℕ} {s s' : Proxy} {i : ℕ}
    (h : checkDescriptor t fds s i = some s') :
    s'.d = s.d ∧ s'.l = s.l ∧ s'.fdmax = s.fdmax ∧ s'.accepted = s.accepted ∧
      s'.sent = s.sent ∧
      ((s'.master = s.master ∧ s'.connection = s.connection) ∨
        (i ≠ s.l ∧ i ≠ s.d ∧ s'.master = s.master.erase i ∧
          s'.connection = Function.update s.connection i none)) := by
  rcases checkDescriptor_cases h with rfl | ⟨hl, hd, c, -, hcases⟩
  · exact ⟨rfl, rfl, rfl, rfl, rfl, .inl ⟨rfl, rfl⟩⟩
  · rcases hcases with rfl | ⟨n, -, -, -, rfl⟩
    · exact ⟨rfl, rfl, rfl, rfl, rfl, .inr ⟨hl, hd, rfl, rfl⟩⟩
    · exact ⟨rfl, rfl, rfl, rfl, rfl, .inl ⟨rfl, rfl⟩⟩

/-- Connection `c` is open on some descriptor. -/
def Connected (connection : ℕ → Option ℕ) (c : ℕ) : Prop := ∃ i, connection i = some c

/-- How the descriptor sets belong together. -/
structure Wired (s : Proxy) : Prop where
  mem_master : ∀ i, i ∈ s.master ↔ i = s.d ∨ i = s.l ∨ ∃ c, s.connection i = some c
  le_fdmax : ∀ i ∈ s.master, i ≤ s.fdmax
  ne_of_connection : ∀ i c, s.connection i = some c → i ≠ s.d ∧ i ≠ s.l
  lt_accepted : ∀ i c, s.connection i = some c → c < s.accepted
  unique : ∀ i j c, s.connection i = some c → s.connection j = some c → i = j

/-- Only the descriptor sets and the connections matter. -/
theorem Wired.congr {s s' : Proxy} (h : Wired s) (hd : s'.d = s.d) (hl : s'.l = s.l)
    (hfdmax : s'.fdmax = s.fdmax) (haccepted : s'.accepted = s.accepted)
    (hmaster : s'.master = s.master) (hconn : s'.connection = s.connection) : Wired s' := by
  constructor
  · rw [hmaster, hd, hl, hconn]
    exact h.mem_master
  · rw [hmaster, hfdmax]
    exact h.le_fdmax
  · rw [hconn, hd, hl]
    exact h.ne_of_connection
  · rw [hconn, haccepted]
    exact h.lt_accepted
  · rw [hconn]
    exact h.unique

/-- What a table holds after one descriptor has been set. -/
theorem update_eq_some_iff {connection : ℕ → Option ℕ} {n i c : ℕ} {x : Option ℕ} :
    Function.update connection n x i = some c ↔
      (i = n ∧ x = some c) ∨ (i ≠ n ∧ connection i = some c) := by
  rw [Function.update_apply]
  split_ifs with h <;> simp [h]

theorem wired_initial (d l : ℕ) : Wired (initial d l) := by
  refine ⟨fun i => ?_, fun i hi => ?_, nofun, nofun, nofun⟩
  · simp [initial]
  · have hcases : i = d ∨ i = l := by simpa [initial] using hi
    show i ≤ max d l
    omega

/-- A new connection gets a number of its own, on a descriptor of its own. -/
theorem wired_acceptNew {t : Turn} {s s' : Proxy} (h : Wired s) (hs : acceptNew t s = some s') :
    Wired s' := by
  rcases acceptNew_cases hs with rfl | ⟨n, hd, hl, hfree, rfl⟩
  · exact h
  · constructor
    · intro i
      by_cases hin : i = n
      · subst hin
        simp
      · simp only [Finset.mem_insert, hin, false_or, Function.update_of_ne hin]
        exact h.mem_master i
    · intro i hi
      rcases Finset.mem_insert.mp hi with rfl | hi'
      · exact le_max_right _ _
      · exact (h.le_fdmax i hi').trans (le_max_left _ _)
    · intro i c hi
      rcases update_eq_some_iff.mp hi with ⟨rfl, -⟩ | ⟨-, hi'⟩
      · exact ⟨hd, hl⟩
      · exact h.ne_of_connection i c hi'
    · intro i c hi
      rcases update_eq_some_iff.mp hi with ⟨-, hc⟩ | ⟨-, hi'⟩
      · obtain rfl := Option.some.inj hc
        exact Nat.lt_succ_self _
      · exact (h.lt_accepted i c hi').trans (Nat.lt_succ_self _)
    · intro i j c hi hj
      -- the numbers given before are smaller than the new one
      have hnew : ∀ k, s.connection k = some c → some s.accepted ≠ some c := by
        intro k hk hc
        obtain rfl := Option.some.inj hc
        exact lt_irrefl _ (h.lt_accepted k _ hk)
      rcases update_eq_some_iff.mp hi with ⟨rfl, hci⟩ | ⟨-, hi'⟩ <;>
        rcases update_eq_some_iff.mp hj with ⟨rfl, hcj⟩ | ⟨-, hj'⟩
      · rfl
      · exact absurd hci (hnew j hj')
      · exact absurd hcj (hnew i hi')
      · exact h.unique i j c hi' hj'

/-- Nothing is opened or closed by the broadcast. -/
theorem wired_checkDect {t : Turn} {fds : Finset ℕ} {s s' : Proxy} (h : Wired s)
    (hs : checkDect t fds s = some s') : Wired s' := by
  rcases checkDect_cases hs with ⟨-, rfl⟩ | ⟨f, -, -, -, rfl⟩
  · exact h
  · exact h.congr rfl rfl rfl rfl rfl rfl

theorem master_checkDect {t : Turn} {fds : Finset ℕ} {s s' : Proxy}
    (hs : checkDect t fds s = some s') : s'.master = s.master := by
  rcases checkDect_cases hs with ⟨-, rfl⟩ | ⟨f, -, -, -, rfl⟩ <;> rfl

/-- A closed connection is taken out of the table and out of `master`. -/
theorem wired_checkDescriptor {t : Turn} {fds : Finset ℕ} {s s' : Proxy} {i : ℕ} (h : Wired s)
    (hs : checkDescriptor t fds s i = some s') : Wired s' := by
  obtain ⟨hd, hl, hfdmax, haccepted, -, hcases⟩ := descriptors_checkDescriptor hs
  rcases hcases with ⟨hmaster, hconn⟩ | ⟨hil, hid, hmaster, hconn⟩
  · exact h.congr hd hl hfdmax haccepted hmaster hconn
  · have hold : ∀ j c, s'.connection j = some c → s.connection j = some c := by
      intro j c hj
      rw [hconn] at hj
      rcases update_eq_some_iff.mp hj with ⟨-, hc⟩ | ⟨-, hj'⟩
      · cases hc
      · exact hj'
    constructor
    · intro j
      rw [hmaster, hd, hl, hconn, Finset.mem_erase]
      by_cases hji : j = i
      · subst hji
        simp [hil, hid]
      · rw [Function.update_of_ne hji, ← h.mem_master j]
        exact and_iff_right hji
    · intro j hj
      rw [hmaster] at hj
      rw [hfdmax]
      exact h.le_fdmax j (Finset.mem_of_mem_erase hj)
    · intro j c hj
      rw [hd, hl]
      exact h.ne_of_connection j c (hold j c hj)
    · intro j c hj
      rw [haccepted]
      exact h.lt_accepted j c (hold j c hj)
    · intro j k c hj hk
      exact h.unique j k c (hold j c hj) (hold k c hk)

/-! ## The loop over the clients -/

/-- The loop over the clients has started in `s₂` and has checked the descriptors
`pre`. -/
structure Checked (fds : Finset ℕ) (s₂ : Proxy) (pre : List ℕ) (v : Proxy) : Prop where
  wired : Wired v
  d : v.d = s₂.d
  l : v.l = s₂.l
  sent : v.sent = s₂.sent
  /-- a descriptor that was reported is in `master` until it is checked -/
  waiting : ∀ i ∈ fds, i ∉ pre → i ∈ v.master

theorem checked_nil {fds : Finset ℕ} {s₂ : Proxy} (h : Wired s₂) (hfds : fds ⊆ s₂.master) :
    Checked fds s₂ [] s₂ :=
  ⟨h, rfl, rfl, rfl, fun _ hi _ => hfds hi⟩

/-- **The loop over the clients**, up to any descriptor. -/
theorem checked_run {t : Turn} {fds : Finset ℕ} {s₂ : Proxy} (h : Wired s₂)
    (hfds : fds ⊆ s₂.master) :
    ∀ pre v, run (checkDescriptor t fds) s₂ pre = some v → Checked fds s₂ pre v := by
  refine run_induction (checked_nil h hfds) ?_
  intro pre v i v' _ hv hstep
  obtain ⟨hd, hl, -, -, hsent, hcases⟩ := descriptors_checkDescriptor hstep
  refine ⟨wired_checkDescriptor hv.wired hstep, hd.trans hv.d, hl.trans hv.l,
    hsent.trans hv.sent, fun j hj hnot => ?_⟩
  rw [List.mem_append, List.mem_singleton, not_or] at hnot
  have hmem : j ∈ v.master := hv.waiting j hj hnot.1
  rcases hcases with ⟨hmaster, -⟩ | ⟨-, -, hmaster, -⟩
  · rwa [hmaster]
  · rw [hmaster]
    exact Finset.mem_erase.mpr ⟨hnot.2, hmem⟩

/-- In a turn from `s`, the loop over the clients has checked the descriptors
`pre`, is in state `v`, and has the descriptors `post` left. -/
def AtClients (t : Turn) (s v : Proxy) (pre post : List ℕ) : Prop :=
  ∃ s₁ s₂, acceptNew t s = some s₁ ∧ checkDect t (rfds t s) s₁ = some s₂ ∧
    List.range (s₂.fdmax + 1) = pre ++ post ∧ run (checkDescriptor t (rfds t s)) s₂ pre = some v

/-- What `select` has reported is still in `master` after the first part. -/
theorem rfds_subset_acceptNew {t : Turn} {s s₁ : Proxy} (h : acceptNew t s = some s₁) :
    rfds t s ⊆ s₁.master := by
  have hold : s.master ⊆ s₁.master := by
    rcases acceptNew_cases h with rfl | ⟨n, -, -, -, rfl⟩
    · exact Finset.Subset.refl _
    · exact Finset.subset_insert _ _
  exact (Finset.filter_subset _ _).trans hold

/-- What `select` has reported is still in `master` when the loop starts. -/
theorem rfds_subset {t : Turn} {s s₁ s₂ : Proxy} (h₁ : acceptNew t s = some s₁)
    (h₂ : checkDect t (rfds t s) s₁ = some s₂) : rfds t s ⊆ s₂.master := by
  rw [master_checkDect h₂]
  exact rfds_subset_acceptNew h₁

/-- A reported descriptor whose check is due is that of a connection. -/
theorem AtClients.connected {t : Turn} {s v : Proxy} {pre post : List ℕ} {i : ℕ} (hs : Wired s)
    (h : AtClients t s v pre (i :: post)) (hl : i ≠ v.l) (hd : i ≠ v.d) (hi : i ∈ rfds t s) :
    (∃ c, v.connection i = some c) ∧ t.ready i = true := by
  obtain ⟨s₁, s₂, h₁, h₂, hrange, hrun⟩ := h
  have hchecked := checked_run (wired_checkDect (wired_acceptNew hs h₁) h₂) (rfds_subset h₁ h₂)
    pre v hrun
  -- no descriptor is checked twice
  have hnot : i ∉ pre := by
    have hnodup := List.nodup_range (n := s₂.fdmax + 1)
    rw [hrange, List.nodup_append] at hnodup
    exact fun hmem => hnodup.2.2 i hmem i List.mem_cons_self rfl
  have hmaster := (hchecked.wired.mem_master i).mp (hchecked.waiting i hi hnot)
  exact ⟨(hmaster.resolve_left hd).resolve_left hl, (Finset.mem_filter.mp hi).2⟩

/-- The descriptor sets belong together all through the loop. -/
theorem AtClients.wired {t : Turn} {s v : Proxy} {pre post : List ℕ} (hs : Wired s)
    (h : AtClients t s v pre post) : Wired v := by
  obtain ⟨s₁, s₂, h₁, h₂, -, hrun⟩ := h
  exact (checked_run (wired_checkDect (wired_acceptNew hs h₁) h₂) (rfds_subset h₁ h₂)
    pre v hrun).wired

/-! ## What is read from the device -/

/-- A mail that was read from the device. -/
structure Relayed where
  data : List UInt8
  /-- the connections when it was read -/
  connection : ℕ → Option ℕ
  /-- the calls of `send` that the read has led to -/
  sends : List (ℕ × List UInt8)

/-- The buffers sent to client `c`. -/
def Relayed.deliveriesTo (x : Relayed) (c : ℕ) : List (List UInt8) :=
  (x.sends.filter fun y => x.connection y.1 = some c).map Prod.snd

/-- The mail was sent once to every client connected, as one frame, and to no
other client. -/
def Relayed.ExactlyOnce (x : Relayed) : Prop :=
  ∃ f : Frame, f.contents = (PacketType.dectPacket.code, x.data) ∧
    ∀ c, (Connected x.connection c → x.deliveriesTo c = [f.bytes]) ∧
      (¬ Connected x.connection c → x.deliveriesTo c = [])

/-- Of any descriptors, each listed once, at most one is that of a given client. -/
theorem filter_connection {s : Proxy} (h : Wired s) {fds : List ℕ} (hnodup : fds.Nodup)
    {i c : ℕ} (hi : s.connection i = some c) :
    (fds.filter fun j => s.connection j = some c) = if i ∈ fds then [i] else [] := by
  have hsame : (fds.filter fun j => s.connection j = some c) = fds.filter fun j => j = i := by
    refine List.filter_congr fun j _ => decide_eq_decide.mpr ⟨fun hj => ?_, fun hj => ?_⟩
    · exact h.unique j i c hj hi
    · rw [hj, hi]
  rw [hsame, List.filter_eq]
  split_ifs with hmem
  · rw [List.count_eq_one_of_mem hnodup hmem, List.replicate_one]
  · rw [List.count_eq_zero_of_not_mem hmem, List.replicate_zero]

/-- Of the descriptors that a mail is sent to, one is that of a given client. -/
theorem filter_targets_of_connection {s : Proxy} (h : Wired s) {i c : ℕ}
    (hi : s.connection i = some c) :
    (s.targets.filter fun j => s.connection j = some c) = [i] := by
  obtain ⟨hd, hl⟩ := h.ne_of_connection i c hi
  have hle : i ≤ s.fdmax := h.le_fdmax i ((h.mem_master i).mpr (.inr (.inr ⟨c, hi⟩)))
  have hmem : i ∈ s.targets := by
    refine List.mem_filter.mpr ⟨List.mem_range.mpr (Nat.lt_succ_of_le hle), ?_⟩
    exact decide_eq_true ⟨hl, hd⟩
  have hnodup : s.targets.Nodup := List.nodup_range.filter _
  rw [filter_connection h hnodup hi, if_pos hmem]

/-- What a client is sent when one buffer is sent to a list of descriptors. -/
theorem deliveriesTo_map (data p : List UInt8) (connection : ℕ → Option ℕ) (fds : List ℕ)
    (c : ℕ) : Relayed.deliveriesTo ⟨data, connection, fds.map fun i => (i, p)⟩ c =
      (fds.filter fun j => connection j = some c).map fun _ => p := by
  rw [Relayed.deliveriesTo, List.filter_map, List.map_map]
  rfl

/-- A client that is not connected is sent nothing. -/
theorem deliveriesTo_of_not_connected {x : Relayed} {c : ℕ} (h : ¬ Connected x.connection c) :
    x.deliveriesTo c = [] := by
  rw [Relayed.deliveriesTo, List.map_eq_nil_iff, List.filter_eq_nil_iff]
  intro y _ hy
  exact h ⟨y.1, of_decide_eq_true hy⟩

/-- **One mail** sent to all the targets reaches every client once. -/
theorem exactlyOnce_targets {s : Proxy} (h : Wired s) {f : Frame}
    (hf : f.type = PacketType.dectPacket.code) :
    Relayed.ExactlyOnce ⟨f.payload, s.connection, s.targets.map fun i => (i, f.bytes)⟩ := by
  refine ⟨f, by rw [Frame.contents, hf], fun c => ⟨?_, deliveriesTo_of_not_connected⟩⟩
  rintro ⟨i, hi⟩
  rw [deliveriesTo_map, filter_targets_of_connection h hi, List.map_singleton]

/-! ## Runs with the history of the device -/

/-- The proxy and the mails it has read from the device. -/
structure Relay where
  proxy : Proxy
  reads : List Relayed

/-- The mail that a turn reads from the device, if it does, when the connections
are those of `s₁` and the sends lead to `s₂`. -/
def readsOf (t : Turn) (fds : Finset ℕ) (s₁ s₂ : Proxy) : List Relayed :=
  if s₁.d ∈ fds then
    t.read.toList.map fun data => ⟨data, s₁.connection, s₂.sent.drop s₁.sent.length⟩
  else []

/-- Process one event, and keep what is read. -/
def relayStep (r : Relay) : Event → Option Relay
  | .writeDect c m => some { r with proxy := writeDect c m r.proxy }
  | .turn t =>
    (acceptNew t r.proxy).bind fun s₁ =>
      (checkDect t (rfds t r.proxy) s₁).bind fun s₂ =>
        (run (checkDescriptor t (rfds t r.proxy)) s₂ (List.range (s₂.fdmax + 1))).map fun s₃ =>
          ⟨s₃, r.reads ++ readsOf t (rfds t r.proxy) s₁ s₂⟩

/-- After the start-up of `main`. -/
def Relay.initial (d l : ℕ) : Relay := ⟨Proxy.initial d l, []⟩

/-- **Keeping the history** restricts no run of the proxy. -/
theorem relay_lift (d l : ℕ) (es : List Event) (s : Proxy)
    (hrun : run step (initial d l) es = some s) :
    ∃ r, run relayStep (.initial d l) es = some r ∧ r.proxy = s := by
  have hfollow (r : Relay) (e : Event) (s' : Proxy) (hs : step r.proxy e = some s') :
      ∃ r', relayStep r e = some r' ∧ r'.proxy = s' := by
    cases e with
    | writeDect c m => exact ⟨_, rfl, Option.some.inj hs⟩
    | turn t =>
        obtain ⟨s₁, h₁, hs⟩ := Option.bind_eq_some_iff.mp ((turn_eq t r.proxy).symm.trans hs)
        obtain ⟨s₂, h₂, h₃⟩ := Option.bind_eq_some_iff.mp hs
        refine ⟨⟨s', r.reads ++ readsOf t (rfds t r.proxy) s₁ s₂⟩, ?_, rfl⟩
        rw [relayStep, h₁, Option.bind_some, h₂, Option.bind_some, h₃, Option.map_some]
  exact run_lift hfollow es (.initial d l) s hrun

/-- The descriptors are in order, and every mail has been sent as it should. -/
structure Relay.Sound (r : Relay) : Prop where
  wired : Wired r.proxy
  sent : r.proxy.sent = r.reads.flatMap Relayed.sends
  exactlyOnce : ∀ x ∈ r.reads, x.ExactlyOnce

/-- The second part of a turn sends what its read has led to. -/
theorem checkDect_reads {t : Turn} {fds : Finset ℕ} {s₁ s₂ : Proxy} (h : Wired s₁)
    (hs : checkDect t fds s₁ = some s₂) :
    s₂.sent = s₁.sent ++ (readsOf t fds s₁ s₂).flatMap Relayed.sends ∧
      ∀ x ∈ readsOf t fds s₁ s₂, x.ExactlyOnce := by
  rcases checkDect_cases hs with ⟨hd, rfl⟩ | ⟨f, hd, hread, htype, rfl⟩
  · rw [readsOf, if_neg hd]
    exact ⟨(List.append_nil _).symm, fun x hx => absurd hx List.not_mem_nil⟩
  · have hreads : readsOf t fds s₁
        { s₁ with sent := s₁.sent ++ s₁.targets.map fun i => (i, f.bytes) } =
          [⟨f.payload, s₁.connection, s₁.targets.map fun i => (i, f.bytes)⟩] := by
      rw [readsOf, if_pos hd, hread]
      simp
    rw [hreads, List.flatMap_singleton, List.forall_mem_singleton]
    exact ⟨rfl, exactlyOnce_targets h htype⟩

/-- The rest of a turn, after a second part that opens and closes nothing and has led to
the sends of `new`. -/
theorem wired_sent_loop {t : Turn} {r : Relay} {s₁ s₂ s₃ : Proxy} {new : List Relayed}
    (hsent : r.proxy.sent = r.reads.flatMap Relayed.sends) (h₁ : acceptNew t r.proxy = some s₁)
    (hwired₂ : Wired s₂) (hmaster : s₂.master = s₁.master)
    (hsent₂ : s₂.sent = s₁.sent ++ new.flatMap Relayed.sends)
    (h₃ : run (checkDescriptor t (rfds t r.proxy)) s₂ (List.range (s₂.fdmax + 1)) = some s₃) :
    Wired s₃ ∧ s₃.sent = (r.reads ++ new).flatMap Relayed.sends := by
  have hsent₁ : s₁.sent = r.proxy.sent := by
    rcases acceptNew_cases h₁ with rfl | ⟨n, -, -, -, rfl⟩ <;> rfl
  have hfds : rfds t r.proxy ⊆ s₂.master := by
    rw [hmaster]
    exact rfds_subset_acceptNew h₁
  have hloop := checked_run hwired₂ hfds _ s₃ h₃
  refine ⟨hloop.wired, ?_⟩
  rw [hloop.sent, hsent₂, hsent₁, hsent, List.flatMap_append]

theorem sound_turn {t : Turn} {r r' : Relay} (h : r.Sound)
    (hs : relayStep r (.turn t) = some r') : r'.Sound := by
  obtain ⟨s₁, h₁, hs⟩ := Option.bind_eq_some_iff.mp hs
  obtain ⟨s₂, h₂, hs⟩ := Option.bind_eq_some_iff.mp hs
  obtain ⟨s₃, h₃, rfl⟩ := Option.map_eq_some_iff.mp hs
  have hwired₁ := wired_acceptNew h.wired h₁
  obtain ⟨hsent₂, honce⟩ := checkDect_reads hwired₁ h₂
  obtain ⟨hwired, hsent⟩ := wired_sent_loop h.sent h₁ (wired_checkDect hwired₁ h₂)
    (master_checkDect h₂) hsent₂ h₃
  refine ⟨hwired, hsent, fun x hx => ?_⟩
  rcases List.mem_append.mp hx with hold | hnew
  · exact h.exactlyOnce x hold
  · exact honce x hnew

/-- **A run of the proxy** with its history. -/
theorem sound_run (d l : ℕ) : ∀ es r, run relayStep (.initial d l) es = some r → r.Sound := by
  refine run_induction (P := fun _ (r : Relay) => r.Sound) ?_ ?_
  · exact ⟨wired_initial d l, rfl, fun x hx => absurd hx List.not_mem_nil⟩
  · intro _ r e r' _ hr hstep
    cases e with
    | writeDect c m =>
        obtain rfl := Option.some.inj hstep
        exact ⟨hr.wired.congr rfl rfl rfl rfl rfl rfl, hr.sent, hr.exactlyOnce⟩
    | turn t => exact sound_turn hr hstep

/-- **The broadcast**, in every run of the loop.  The calls of `send` are those
that the mails read from the device have led to, in the order of the device.
Every mail is sent once, as one frame with its bytes, to every client connected
when it was read.  All of `master` is up to `fdmax`, also in the loop over the
clients, and there `recv` is called only on the descriptor of a connection that
was reported ready. -/
theorem broadcast_exactly_once (d l : ℕ) (es : List Event) (r : Relay)
    (hrun : run relayStep (.initial d l) es = some r) :
    r.proxy.sent = r.reads.flatMap Relayed.sends ∧
      (∀ x ∈ r.reads, x.ExactlyOnce) ∧
      (∀ i ∈ r.proxy.master, i ≤ r.proxy.fdmax) ∧
      (∀ t v pre post, AtClients t r.proxy v pre post → ∀ i ∈ v.master, i ≤ v.fdmax) ∧
      ∀ t v pre i post, AtClients t r.proxy v pre (i :: post) → i ≠ v.l → i ≠ v.d →
        i ∈ rfds t r.proxy → (∃ c, v.connection i = some c) ∧ t.ready i = true := by
  have hsound := sound_run d l es r hrun
  refine ⟨hsound.sent, hsound.exactlyOnce, hsound.wired.le_fdmax, ?_, ?_⟩
  · intro t v pre post h
    exact (h.wired hsound.wired).le_fdmax
  · intro t v pre i post h hl hd hi
    exact h.connected hsound.wired hl hd hi

/-- A turn in which a connection is accepted on descriptor 5 and a mail is read. -/
def acceptAndRead (data : List UInt8) : Turn :=
  ⟨fun i => i == 3 || i == 4, some 5, some data, fun _ => .error⟩

/-- A turn in which a mail is read and the client on descriptor 5 has gone. -/
def readAndClose (data : List UInt8) : Turn :=
  ⟨fun i => i == 3 || i == 5, none, some data, fun _ => .closed⟩

/-- Two clients on one descriptor, one after the other: each is sent what is read
while it is connected. -/
theorem reused_descriptor_once :
    ∃ r, run relayStep (.initial 3 4) [.turn (acceptAndRead [7]), .turn (readAndClose [8, 9]),
        .turn (acceptAndRead [])] = some r ∧
      r.reads.map (fun x => (x.deliveriesTo 0, x.deliveriesTo 1)) =
        [([[9, 0, 0, 0, 5, 0, 0, 0, 7]], []), ([[10, 0, 0, 0, 5, 0, 0, 0, 8, 9]], []),
          ([], [[8, 0, 0, 0, 5, 0, 0, 0]])] ∧
      r.proxy.sent = r.reads.flatMap Relayed.sends ∧ ∀ x ∈ r.reads, x.ExactlyOnce := by
  obtain ⟨r, hrun⟩ : ∃ r, run relayStep (.initial 3 4) [.turn (acceptAndRead [7]),
      .turn (readAndClose [8, 9]), .turn (acceptAndRead [])] = some r := ⟨_, rfl⟩
  obtain ⟨hsent, honce, -⟩ := broadcast_exactly_once 3 4 _ r hrun
  refine ⟨r, hrun, ?_, hsent, honce⟩
  obtain rfl := Option.some.inj hrun
  decide

end Proxy

end DectManager
