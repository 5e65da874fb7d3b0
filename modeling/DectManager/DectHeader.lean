/-
# The shared header `dect.h`

The sizes, enumerations and structures that the manager, the proxy and the
command line client share.  C enumerations become inductive types, the fixed
arrays functions on `Fin`.  `status.radio`, `status.reg_mode` and `config.radio`
all range over the one enumeration `reg_state` in the source; each structure
below carries the part of it that the programs ever store, so that no other
value can be built.
-/
import Mathlib

namespace DectManager

/-! ## Sizes -/

/-- `MAX_LINE`: high watermark of a client connection's input buffer. -/
def maxLine : ℕ := 16384

/-- `MAX_MAIL_SIZE`: size of the proxy's receive and device buffers. -/
def maxMailSize : ℕ := 4098

/-- `PKT_DATA_SIZE`: payload room of a `packet_t`. -/
def pktDataSize : ℕ := 100

/-- `MAX_NR_HANDSETS`: number of entries of the handset table. -/
def maxNrHandsets : ℕ := 20

/-- `MAX_NR_PHONES`: the entries before this one are phones, the others ULE devices. -/
def maxNrPhones : ℕ := 4

/-- `sizeof(packet_header_t)`: the two 32-bit words `size` and `type`. -/
def sizeofHeader : ℕ := 8

/-- `sizeof(packet_t)`: the header and `PKT_DATA_SIZE` bytes. -/
def sizeofPacket : ℕ := sizeofHeader + pktDataSize

/-! ## Enumerations -/

/-- `enum reg_state`. -/
inductive RegState
  | disabled
  | delayedStart
  | enabled
  | auto
  deriving DecidableEq, Repr

/-- The part of `enum dect_action` that `call_hotplug` acts on. -/
inductive DectAction
  | ledOn
  | ledOff
  | ledBlink
  deriving DecidableEq, Repr

/-- `enum packet_type`. -/
inductive PacketType
  | getStatus
  | registration
  | pingHset
  | deleteHset
  | response
  | dectPacket
  | clientPacket
  | listHandsets
  | uleStart
  | init
  | zwitch
  | radio
  | reloadConfig
  | button
  deriving DecidableEq, Repr

namespace PacketType

/-- The enumerators in declaration order, so that the value of one is its place. -/
def all : List PacketType :=
  [getStatus, registration, pingHset, deleteHset, response, dectPacket, clientPacket,
    listHandsets, uleStart, init, zwitch, radio, reloadConfig, button]

/-- The value a C enumerator has on the wire. -/
def code (t : PacketType) : UInt32 := UInt32.ofNat (all.idxOf t)

/-- The enumerator a type word stands for, if it is one of them. -/
def ofCode (c : UInt32) : Option PacketType := all[c.toNat]?

/-- Every enumerator is read back from its own code. -/
theorem ofCode_code (t : PacketType) : ofCode (code t) = some t := by
  cases t <;> decide

/-- A type word names an enumerator exactly when it is that enumerator's code. -/
theorem ofCode_eq_some_iff (c : UInt32) (t : PacketType) : ofCode c = some t ↔ c = code t := by
  constructor
  · intro h
    obtain ⟨hlt, ht⟩ := List.getElem?_eq_some_iff.mp h
    have hnodup : all.Nodup := by decide
    have hidx : all.idxOf t = c.toNat := by
      rw [← ht]
      exact hnodup.idxOf_getElem c.toNat hlt
    rw [code, hidx, UInt32.ofNat_toNat]
  · rintro rfl
    exact ofCode_code t

end PacketType

/-! ## The status packet -/

/-- `TRUE` and `FALSE`, the values stored in the flags of a handset entry. -/
def true8 : UInt8 := 1
def false8 : UInt8 := 0

/-- `struct hset`. -/
structure Hset where
  registered : UInt8
  present : UInt8
  pinging : UInt8
  ipui : Fin 5 → UInt8
  deriving DecidableEq

/-- A zeroed entry. -/
def Hset.zero : Hset := ⟨0, 0, 0, fun _ => 0⟩

/-- The table `status.handset`. -/
abbrev HandsetTable := Fin maxNrHandsets → Hset

/-- Write an entry of the table through a C index. -/
def HandsetTable.modify (t : HandsetTable) (i : ℕ) (f : Hset → Hset) : HandsetTable :=
  fun k => if k.val = i then f (t k) else t k

/-- Read an entry through a C index; past the end the read returns `beyond`,
whatever lies in memory behind the table. -/
def HandsetTable.read (t : HandsetTable) (beyond : Hset) (i : ℕ) : Hset :=
  if h : i < maxNrHandsets then t ⟨i, h⟩ else beyond

@[simp] theorem HandsetTable.read_val (t : HandsetTable) (beyond : Hset) (k : Fin maxNrHandsets) :
    t.read beyond k.val = t k := by
  simp [HandsetTable.read]

/-- `struct status_packet` without its constant header. -/
structure Status where
  dectInit : Bool
  regMode : RegState
  radio : RegState
  handset : HandsetTable
  /-- Only `DISABLED`, `DELAYED_START` and `ENABLED` are stored in `reg_mode`. -/
  regMode_ne_auto : regMode ≠ .auto
  /-- Only `DISABLED` and `ENABLED` are stored in `radio`. -/
  radio_binary : radio = .disabled ∨ radio = .enabled
  deriving DecidableEq

/-- `struct config`. -/
structure Config where
  radio : RegState
  /-- `load_cfg_file` stores only `ENABLED`, `DISABLED` and `AUTO`. -/
  radio_ne_delayedStart : radio ≠ .delayedStart
  deriving DecidableEq

namespace Status

/-- The radio is off exactly when it is not on. -/
theorem radio_ne_enabled_iff (s : Status) : s.radio ≠ .enabled ↔ s.radio = .disabled := by
  rcases s.radio_binary with h | h <;> simp [h]

/-- The radio is on exactly when it is not off. -/
theorem radio_ne_disabled_iff (s : Status) : s.radio ≠ .disabled ↔ s.radio = .enabled := by
  rcases s.radio_binary with h | h <;> simp [h]

end Status

end DectManager
