/-
# The status on the wire

`get_status` writes the global `status` as it lies in memory: the header, three
bytes, the handset table, and the byte of padding that aligns the structure.
`get_reply` allocates a structure of that size and calls `recv` once; it does
not look at how many bytes it was given, nor at the header.

* `readStatus_received`: the client reads back the status that was written as
  soon as it has all bytes of the fields.
* `exchanges_exact_iff`: over several requests on one connection the client sees
  the replies that were sent, whatever they are and whatever its memory held,
  exactly when each `recv` but the last returned the whole structure, and the
  last one at least its fields.
-/
import DectManager.FileBytes
import DectManager.Framing
import DectManager.StatusReport

namespace DectManager

open FileBytes

/-! ## Arrays of records -/

section Records

variable {α β : Type*} {f : α → List β} {size : ℕ} {l : List α}

theorem length_flatMap_records (h : ∀ x ∈ l, (f x).length = size) :
    (l.flatMap f).length = size * l.length := by
  induction l with
  | nil => simp
  | cons x l ih =>
      obtain ⟨hx, hl⟩ := List.forall_mem_cons.mp h
      rw [List.flatMap_cons, List.length_append, hx, ih hl, List.length_cons, Nat.mul_succ]
      omega

/-- Record `i` of an array of records of the same size starts at `size * i`. -/
theorem getElem?_flatMap_records (h : ∀ x ∈ l, (f x).length = size) (i : ℕ) {j : ℕ}
    (hj : j < size) : (l.flatMap f)[size * i + j]? = (l[i]?).bind fun x => (f x)[j]? := by
  induction l generalizing i with
  | nil => simp
  | cons x l ih =>
      obtain ⟨hx, hl⟩ := List.forall_mem_cons.mp h
      rw [List.flatMap_cons]
      cases i with
      | zero =>
          rw [Nat.mul_zero, Nat.zero_add, List.getElem?_append_left (by omega)]
          rfl
      | succ i =>
          have hskip : size * (i + 1) + j - (f x).length = size * i + j := by
            rw [hx, Nat.mul_succ]
            omega
          rw [List.getElem?_append_right (by rw [hx, Nat.mul_succ]; omega), hskip, ih hl i]
          rfl

end Records

/-! ## The structure in memory -/

/-- `sizeof(struct hset)` -/
def sizeofHset : ℕ := 8

/-- Where `handset` starts in a `struct status_packet`. -/
def offsetofHandset : ℕ := sizeofHeader + 3

/-- The end of the fields of a `struct status_packet`. -/
def endofStatus : ℕ := offsetofHandset + sizeofHset * maxNrHandsets

/-- `sizeof(struct status_packet)`: the fields, aligned to four bytes. -/
def sizeofStatus : ℕ := endofStatus + 1

/-- `struct hset` in memory. -/
def Hset.bytes (h : Hset) : List UInt8 :=
  [h.registered, h.present, h.pinging] ++ List.ofFn h.ipui

theorem Hset.length_bytes (h : Hset) : h.bytes.length = sizeofHset := rfl

/-- Byte `j` of an identity in memory. -/
theorem Hset.getElem?_bytes_ipui (h : Hset) (j : Fin 5) :
    h.bytes[3 + j.val]? = some (h.ipui j) := by
  show ([h.registered, h.present, h.pinging] ++ List.ofFn h.ipui)[3 + j.val]? = _
  rw [List.getElem?_append_right (Nat.le_add_right 3 j.val), List.length_cons, List.length_cons,
    List.length_singleton, Nat.add_sub_cancel_left, List.getElem?_ofFn, dif_pos j.isLt]

/-- The bytes of `status` before the table. -/
def Status.head (s : Status) : List UInt8 :=
  headerBytes (.ofNat sizeofStatus) PacketType.response.code ++
    [if s.dectInit then 1 else 0, s.regMode.value, s.radio.value]

/-- `status` in memory, which is also what `get_status` writes. -/
def Status.bytes (s : Status) : List UInt8 :=
  s.head ++ (List.ofFn s.handset).flatMap Hset.bytes ++ [0]

/-- What the client sees of a status. -/
def Status.packet (s : Status) : StatusPacket := ⟨s.regMode.value, s.radio.value, s.handset⟩

theorem length_head (s : Status) : s.head.length = offsetofHandset := rfl

theorem length_table (t : HandsetTable) :
    ((List.ofFn t).flatMap Hset.bytes).length = sizeofHset * maxNrHandsets := by
  rw [length_flatMap_records fun h _ => h.length_bytes, List.length_ofFn]

/-- The size word says how long the reply is. -/
theorem length_bytes_status (s : Status) : s.bytes.length = sizeofStatus := by
  rw [Status.bytes, List.length_append, List.length_append, length_head, length_table]
  rfl

/-- Byte `j` of entry `k`. -/
theorem getElem?_bytes_handset (s : Status) (k : Fin maxNrHandsets) {j : ℕ} (hj : j < sizeofHset) :
    s.bytes[offsetofHandset + sizeofHset * k.val + j]? = (s.handset k).bytes[j]? := by
  have hin : sizeofHset * k.val + j < ((List.ofFn s.handset).flatMap Hset.bytes).length := by
    have hk := k.isLt
    rw [length_table]
    unfold sizeofHset at hj ⊢
    omega
  rw [Status.bytes, List.append_assoc, Nat.add_assoc,
    List.getElem?_append_right (by rw [length_head]; omega), length_head, Nat.add_sub_cancel_left,
    List.getElem?_append_left hin, getElem?_flatMap_records (fun h _ => h.length_bytes) k.val hj,
    List.getElem?_ofFn, dif_pos k.isLt, Option.bind_some]

/-! ## `get_reply` -/

/-- `p->handset[i]` for a `struct hset` at an offset. -/
def readHset (m : ℕ → UInt8) (off : ℕ) : Hset :=
  ⟨m off, m (off + 1), m (off + 2), fun j => m (off + 3 + j.val)⟩

/-- The fields of a `struct status_packet` that the client shows. -/
def readStatus (m : ℕ → UInt8) : StatusPacket where
  regMode := m (sizeofHeader + 1)
  radio := m (sizeofHeader + 2)
  handset := fun k => readHset m (offsetofHandset + sizeofHset * k.val)

/-- What `recv` was given, and what the allocation held: `recv` returns up to `sizeofStatus`
bytes. -/
structure Receipt where
  count : Fin (sizeofStatus + 1)
  heap : ℕ → UInt8

/-- `get_reply` over what has come in: the packet, and what is left for the next call. -/
def getReply (r : Receipt) (incoming : List UInt8) : StatusPacket × List UInt8 :=
  (readStatus (stored r.heap (incoming.take r.count)), incoming.drop r.count)

/-- Requests on one connection, each answered before the next: what the client sees of the replies,
if `rest` has come in and not been read before. -/
def exchanges (rest : List UInt8) : List (Receipt × Status) → List StatusPacket
  | [] => []
  | (r, s) :: xs =>
    (getReply r (rest ++ s.bytes)).1 :: exchanges (getReply r (rest ++ s.bytes)).2 xs

/-- An entry is read back from memory that holds its bytes. -/
theorem readHset_of_bytes {m : ℕ → UInt8} {off : ℕ} {h : Hset}
    (hm : ∀ j b, h.bytes[j]? = some b → m (off + j) = b) : readHset m off = h := by
  have hipui : (fun j : Fin 5 => m (off + 3 + j.val)) = h.ipui := by
    funext j
    rw [Nat.add_assoc]
    exact hm (3 + j.val) _ (h.getElem?_bytes_ipui j)
  have hregistered : m off = h.registered := hm 0 _ rfl
  have hpresent : m (off + 1) = h.present := hm 1 _ rfl
  have hpinging : m (off + 2) = h.pinging := hm 2 _ rfl
  rw [readHset, hregistered, hpresent, hpinging, hipui]

/-- **A status that has come in** with all its fields is read back. -/
theorem readStatus_received (heap : ℕ → UInt8) (s : Status) (rest : List UInt8) {n : ℕ}
    (hn : endofStatus ≤ n) :
    readStatus (stored heap ((s.bytes ++ rest).take n)) = s.packet := by
  have hbyte {i : ℕ} {b : UInt8} (hi : i < endofStatus) (h : s.bytes[i]? = some b) :
      stored heap ((s.bytes ++ rest).take n) i = b := by
    refine stored_of_getElem? ?_
    rw [List.getElem?_take_of_lt (by omega), List.getElem?_append_left]
    · exact h
    · rw [length_bytes_status]
      exact Nat.lt_succ_of_lt hi
  have htable : (readStatus (stored heap ((s.bytes ++ rest).take n))).handset = s.handset := by
    funext k
    refine readHset_of_bytes fun j b hj => ?_
    have hsize : j < sizeofHset := (s.handset k).length_bytes ▸ (List.getElem?_eq_some_iff.mp hj).1
    refine hbyte ?_ ((getElem?_bytes_handset s k hsize).trans hj)
    have hk := k.isLt
    unfold endofStatus
    unfold sizeofHset at hsize ⊢
    omega
  have hmode : (readStatus (stored heap ((s.bytes ++ rest).take n))).regMode = s.regMode.value :=
    hbyte (by decide) rfl
  have hradio : (readStatus (stored heap ((s.bytes ++ rest).take n))).radio = s.radio.value :=
    hbyte (by decide) rfl
  rw [Status.packet, ← hmode, ← hradio, ← htable]

/-! ## Exact exchanges -/

/-- The last byte of the fields, when it has not come in. -/
theorem received_last (heap : ℕ → UInt8) (bytes : List UInt8) {n : ℕ} (hn : n < endofStatus) :
    stored heap (bytes.take n) (endofStatus - 1) = heap (endofStatus - 1) := by
  refine stored_of_le heap ?_
  rw [List.length_take]
  omega

theorem disabled_binary : RegState.disabled = .disabled ∨ RegState.disabled = .enabled := .inl rfl

/-- The status of `init_status`, with a registration mode. -/
def Status.inMode (regMode : RegState) (h : regMode ≠ .auto) : Status :=
  ⟨false, regMode, .disabled, fun _ => .zero, h, disabled_binary⟩

/-- A status that has not come in with all its fields is not read back in all memories. -/
theorem exists_misread {n : ℕ} (hn : n < endofStatus) :
    ∃ heap s, ∀ rest, readStatus (stored heap ((Status.bytes s ++ rest).take n)) ≠ s.packet := by
  refine ⟨fun _ => 1, .inMode .disabled (by decide), fun rest h => ?_⟩
  -- the last byte of the last identity
  have hlast := congrArg (fun p : StatusPacket => (p.handset ⟨19, by decide⟩).ipui 4) h
  have hheap := received_last (fun _ => 1)
    ((Status.inMode .disabled (by decide)).bytes ++ rest) hn
  exact absurd (hheap.symm.trans hlast) (by decide)

/-- A status behind a byte of padding is not read back. -/
theorem exists_shifted (n : ℕ) :
    ∃ heap s, readStatus (stored heap ((0 :: Status.bytes s).take n)) ≠ s.packet := by
  refine ⟨fun _ => 0, .inMode .enabled (by decide), fun h => ?_⟩
  have hmode := congrArg StatusPacket.regMode h
  -- the field `dect_init` is in the place of the registration mode
  have hzero : stored (fun _ => 0) ((0 :: (Status.inMode .enabled (by decide)).bytes).take n)
      (sizeofHeader + 1) = 0 := by
    rw [stored, List.getD_eq_getElem?_getD, List.getElem?_take]
    split_ifs <;> rfl
  exact absurd (hzero.symm.trans hmode) (by decide)

/-- All calls of `recv` but the last returned the whole structure, the last one its fields. -/
def ReceivedWhole : List (Fin (sizeofStatus + 1)) → Prop
  | [] => True
  | [n] => endofStatus ≤ n.val
  | n :: n' :: ns => n.val = sizeofStatus ∧ ReceivedWhole (n' :: ns)

/-- The client sees each reply as it was sent. -/
def RepliesExact (xs : List (Receipt × Status)) : Prop :=
  exchanges [] xs = xs.map fun x => x.2.packet

/-- Whatever is sent and whatever the client's memory holds, it sees each reply as it was sent, if
the calls of `recv` return these numbers of bytes. -/
def Reliable (ns : List (Fin (sizeofStatus + 1))) : Prop :=
  ∀ xs : List (Receipt × Status), xs.map (fun x => x.1.count) = ns → RepliesExact xs

/-- The first exchange. -/
theorem repliesExact_cons_iff {r : Receipt} {s : Status} {xs : List (Receipt × Status)} :
    RepliesExact ((r, s) :: xs) ↔
      readStatus (stored r.heap ((s.bytes ++ []).take r.count)) = s.packet ∧
        exchanges (s.bytes.drop r.count) xs = xs.map fun x => x.2.packet := by
  rw [RepliesExact, exchanges, List.map_cons, List.cons.injEq, List.nil_append, List.append_nil]
  rfl

/-- A reply that was returned whole leaves nothing for the next call. -/
theorem repliesExact_cons_of_whole {r : Receipt} {s : Status} {xs : List (Receipt × Status)}
    (hr : r.count.val = sizeofStatus) : RepliesExact ((r, s) :: xs) ↔ RepliesExact xs := by
  have hread := readStatus_received r.heap s []
    (show endofStatus ≤ r.count.val by rw [hr]; exact Nat.le_succ _)
  have hdrop : s.bytes.drop r.count = [] := by rw [hr, ← length_bytes_status s, List.drop_length]
  rw [repliesExact_cons_iff, hdrop]
  exact and_iff_right hread

/-- A reply that was returned without the padding leaves it for the next call. -/
theorem drop_fields (s : Status) : s.bytes.drop endofStatus = [0] := by
  rw [Status.bytes]
  refine List.drop_left' ?_
  rw [List.length_append, length_head, length_table]
  rfl

/-- Exchanges with these numbers of bytes. -/
theorem exists_exchanges (ns : List (Fin (sizeofStatus + 1))) :
    ∃ xs : List (Receipt × Status), xs.map (fun x => x.1.count) = ns :=
  ⟨ns.map fun n => (⟨n, fun _ => 0⟩, .inMode .disabled (by decide)), by simp [Function.comp_def]⟩

namespace Reliable

variable {n n' : Fin (sizeofStatus + 1)} {ns : List (Fin (sizeofStatus + 1))}

/-- Every call returns the fields. -/
theorem fields (h : Reliable (n :: ns)) : endofStatus ≤ n.val := by
  by_contra hn
  obtain ⟨heap, s, hmisread⟩ := exists_misread (Nat.lt_of_not_le hn)
  obtain ⟨xs, hxs⟩ := exists_exchanges ns
  have hexact := h ((⟨n, heap⟩, s) :: xs) (by rw [List.map_cons, hxs])
  exact hmisread [] (repliesExact_cons_iff.mp hexact).1

/-- A call that is not the last one returns the padding too. -/
theorem whole (h : Reliable (n :: n' :: ns)) : n.val = sizeofStatus := by
  by_contra hne
  have hn : n.val = endofStatus := by
    have hlt := n.isLt
    have hge := h.fields
    unfold sizeofStatus at hne hlt
    omega
  obtain ⟨heap, s, hshifted⟩ := exists_shifted n'.val
  obtain ⟨xs, hxs⟩ := exists_exchanges ns
  have hexact := h ((⟨n, heap⟩, s) :: (⟨n', heap⟩, s) :: xs)
    (by rw [List.map_cons, List.map_cons, hxs])
  have hnext := (repliesExact_cons_iff.mp hexact).2
  rw [hn, drop_fields, exchanges, List.map_cons, List.cons.injEq] at hnext
  exact hshifted hnext.1

/-- After a call that returned everything. -/
theorem tail_iff (hn : n.val = sizeofStatus) : Reliable (n :: ns) ↔ Reliable ns := by
  constructor
  · intro h xs hxs
    have hexact := h ((⟨n, fun _ => 0⟩, .inMode .disabled (by decide)) :: xs)
      (by rw [List.map_cons, hxs])
    exact (repliesExact_cons_of_whole hn).mp hexact
  · intro h xs hxs
    obtain ⟨⟨r, s⟩, xs, rfl, rfl, hxs'⟩ := List.map_eq_cons_iff.mp hxs
    exact (repliesExact_cons_of_whole hn).mpr (h xs hxs')

end Reliable

/-- **The replies that the client sees** over several requests on one connection are those that
were sent, whatever they are and whatever its memory held, exactly when each `recv` but the last
returned the whole structure, and the last one at least its fields. -/
theorem exchanges_exact_iff (ns : List (Fin (sizeofStatus + 1))) :
    Reliable ns ↔ ReceivedWhole ns := by
  induction ns with
  | nil =>
      refine iff_of_true (fun xs hxs => ?_) trivial
      obtain rfl := List.map_eq_nil_iff.mp hxs
      rfl
  | cons n ns ih =>
      cases ns with
      | nil =>
          refine ⟨Reliable.fields, fun hn xs hxs => ?_⟩
          obtain ⟨⟨r, s⟩, xs, rfl, rfl, hnil⟩ := List.map_eq_cons_iff.mp hxs
          obtain rfl := List.map_eq_nil_iff.mp hnil
          exact repliesExact_cons_iff.mpr ⟨readStatus_received r.heap s [] hn, rfl⟩
      | cons n' ns =>
          constructor
          · intro h
            exact ⟨h.whole, ih.mp ((Reliable.tail_iff h.whole).mp h)⟩
          · rintro ⟨hn, hrest⟩
            exact (Reliable.tail_iff hn).mpr (ih.mpr hrest)

end DectManager
