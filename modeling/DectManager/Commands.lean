/-
# The command line client `dect.c`

`main` parses its options in a loop that sets a flag for each and stores the
arguments in three variables, and sends a packet for each flag afterwards.  Two
of the variables are shared: `-d` and `-p` both store to `handset`, `-z` and
`-x` both to `switch_on`.

* `has_parseOptions_iff`, `handset_parseOptions`, `switchOn_parseOptions`,
  `buttonArg_parseOptions`: what the loop leaves, for any options in any order.
* `own_arguments_iff`: each packet carries the argument of its own option exactly
  when the options that share a variable, if both are given, were last given the
  same argument.
-/
import DectManager.DectHeader

namespace DectManager

/-! ## Options -/

/-- The macros `F_ACTIVATE_REG` to `F_BUTTON`. -/
inductive Flag
  | activateReg
  | deleteHset
  | pingHset
  | getStatus
  | json
  | listHsets
  | ule
  | init
  | zwitch
  | radio
  | reloadConfig
  | button
  deriving DecidableEq, Repr

namespace Flag

/-- The bit of a flag. -/
def bit : Flag → ℕ
  | activateReg => 0
  | deleteHset => 1
  | pingHset => 2
  | getStatus => 3
  | json => 4
  | listHsets => 5
  | ule => 6
  | init => 7
  | zwitch => 8
  | radio => 9
  | reloadConfig => 10
  | button => 11

/-- `1 << bit` -/
def mask (f : Flag) : ℕ := 1 <<< f.bit

theorem bit_inj {f g : Flag} (h : f.bit = g.bit) : f = g := by
  cases f <;> cases g <;> first | rfl | cases h

end Flag

/-- The options that `getopt` returns for "rd:p:sjluiz:x:cb:", with the value that
`atoi` finds in an argument. -/
inductive Opt
  | r
  | d (optarg : ℤ)
  | p (optarg : ℤ)
  | s
  | j
  | l
  | u
  | i
  | z (optarg : ℤ)
  | x (optarg : ℤ)
  | c
  | b (optarg : ℤ)
  deriving DecidableEq, Repr

namespace Opt

/-- The flag that an option sets. -/
def flag : Opt → Flag
  | r => .activateReg
  | d _ => .deleteHset
  | p _ => .pingHset
  | s => .getStatus
  | j => .json
  | l => .listHsets
  | u => .ule
  | i => .init
  | z _ => .zwitch
  | x _ => .radio
  | c => .reloadConfig
  | b _ => .button

/-- The argument of an option, if it takes one. -/
def optarg? : Opt → Option ℤ
  | d optarg | p optarg | z optarg | x optarg | b optarg => some optarg
  | _ => none

end Opt

/-! ## `main` -/

/-- The variables of `main` that the options set. -/
structure Vars where
  flags : ℕ
  handset : ℤ
  switchOn : ℤ
  buttonArg : ℤ

namespace Vars

/-- `flags |= f` -/
def set (v : Vars) (f : Flag) : Vars := { v with flags := v.flags ||| f.mask }

/-- `flags & f` -/
def has (v : Vars) (f : Flag) : Prop := v.flags &&& f.mask ≠ 0

instance (v : Vars) (f : Flag) : Decidable (v.has f) :=
  inferInstanceAs (Decidable (v.flags &&& f.mask ≠ 0))

/-- The `switch` of the option loop. -/
def parse (v : Vars) (o : Opt) : Vars :=
  match o with
  | .r => v.set .activateReg
  | .d optarg => { v.set .deleteHset with handset := optarg }
  | .p optarg => { v.set .pingHset with handset := optarg }
  | .z optarg => { v.set .zwitch with switchOn := optarg }
  | .x optarg => { v.set .radio with switchOn := optarg }
  | .s => v.set .getStatus
  | .c => v.set .reloadConfig
  | .j => v.set .json
  | .l => v.set .listHsets
  | .u => v.set .ule
  | .i => v.set .init
  | .b optarg => { v with buttonArg := optarg }.set .button

end Vars

/-- The option loop. -/
def parseOptions (opts : List Opt) : Vars := opts.foldl Vars.parse ⟨0, 0, 0, 0⟩

/-- The type and the argument of the packet that `send_packet` sends; the argument
is converted to `uint8_t`. -/
def sendPacket (type : PacketType) (arg : ℤ) : PacketType × UInt8 := (type, UInt8.ofInt arg)

/-- The packets that `main` sends, in order. -/
def dectMain (opts : List Opt) : List (PacketType × UInt8) :=
  let v := parseOptions opts
  (if v.has .activateReg then [sendPacket .registration 0] else []) ++
  (if v.has .deleteHset then [sendPacket .deleteHset v.handset] else []) ++
  (if v.has .pingHset then [sendPacket .pingHset v.handset] else []) ++
  (if v.has .zwitch then [sendPacket .zwitch v.switchOn] else []) ++
  (if v.has .radio then [sendPacket .radio v.switchOn] else []) ++
  (if v.has .reloadConfig then [sendPacket .reloadConfig 0] else []) ++
  (if v.has .getStatus then [sendPacket .getStatus 0] else []) ++
  (if v.has .json then [sendPacket .getStatus 0] else []) ++
  (if v.has .listHsets then [sendPacket .listHandsets 0] else []) ++
  (if v.has .ule then [sendPacket .uleStart 0] else []) ++
  (if v.has .init then [sendPacket .init 0] else []) ++
  (if v.has .button then [sendPacket .button v.buttonArg] else [])

/-! ## What the option loop leaves -/

/-- An option with this flag is given. -/
def Given (f : Flag) (opts : List Opt) : Prop := ∃ o ∈ opts, o.flag = f

instance (f : Flag) (opts : List Opt) : Decidable (Given f opts) :=
  inferInstanceAs (Decidable (∃ o ∈ opts, o.flag = f))

/-- The argument of the last option with one of these flags. -/
def lastArg (fs : List Flag) (opts : List Opt) : Option ℤ :=
  (opts.reverse.find? fun o => decide (o.flag ∈ fs)).bind Opt.optarg?

theorem parseOptions_concat (opts : List Opt) (o : Opt) :
    parseOptions (opts ++ [o]) = (parseOptions opts).parse o := by
  rw [parseOptions, List.foldl_append]
  rfl

theorem given_concat_iff {f : Flag} {opts : List Opt} {o : Opt} :
    Given f (opts ++ [o]) ↔ Given f opts ∨ o.flag = f := by
  unfold Given
  simp only [List.mem_append, List.mem_singleton, or_and_right, exists_or, exists_eq_left]

theorem lastArg_concat (fs : List Flag) (opts : List Opt) (o : Opt) :
    lastArg fs (opts ++ [o]) = if o.flag ∈ fs then o.optarg? else lastArg fs opts := by
  unfold lastArg
  rw [List.reverse_append, List.reverse_singleton, List.singleton_append, List.find?_cons]
  by_cases h : o.flag ∈ fs <;> simp [h]

/-- A flag is a bit. -/
theorem Vars.has_iff_testBit (v : Vars) (f : Flag) : v.has f ↔ v.flags.testBit f.bit = true := by
  rw [Vars.has, Flag.mask, Nat.one_shiftLeft, Nat.and_two_pow]
  cases v.flags.testBit f.bit <;> simp

/-- One more flag is set. -/
theorem Vars.has_set_iff (v : Vars) (f g : Flag) : (v.set f).has g ↔ v.has g ∨ f = g := by
  have hbit : f.bit = g.bit ↔ f = g := ⟨Flag.bit_inj, fun h => congrArg Flag.bit h⟩
  rw [has_iff_testBit, has_iff_testBit, Vars.set, Nat.testBit_or, Flag.mask, Nat.one_shiftLeft,
    Nat.testBit_two_pow, Bool.or_eq_true, decide_eq_true_eq, hbit]

/-- What one option does to the flags. -/
theorem Vars.flags_parse (v : Vars) (o : Opt) : (v.parse o).flags = (v.set o.flag).flags := by
  cases o <;> rfl

/-- **The flags** are those of the options given. -/
theorem has_parseOptions_iff (f : Flag) (opts : List Opt) :
    (parseOptions opts).has f ↔ Given f opts := by
  induction opts using List.reverseRecOn with
  | nil => simp [parseOptions, Vars.has, Given]
  | append_singleton opts o ih =>
      rw [parseOptions_concat, given_concat_iff, ← ih, ← Vars.has_set_iff]
      unfold Vars.has
      rw [Vars.flags_parse]

/-- A variable that the options with the flags `fs` store their argument to, and no
others, holds the argument of the last of them. -/
theorem variable_parseOptions (var : Vars → ℤ) {fs : List Flag} (h0 : var ⟨0, 0, 0, 0⟩ = 0)
    (hstep : ∀ v o, var (Vars.parse v o) = if o.flag ∈ fs then o.optarg?.getD 0 else var v)
    (opts : List Opt) : var (parseOptions opts) = (lastArg fs opts).getD 0 := by
  induction opts using List.reverseRecOn with
  | nil => exact h0
  | append_singleton opts o ih =>
      rw [parseOptions_concat, hstep, lastArg_concat]
      split_ifs
      · rfl
      · exact ih

/-- **The handset number** is that of the last `-d` or `-p`. -/
theorem handset_parseOptions (opts : List Opt) :
    (parseOptions opts).handset = (lastArg [.deleteHset, .pingHset] opts).getD 0 := by
  refine variable_parseOptions Vars.handset rfl (fun v o => ?_) opts
  cases o <;> rfl

/-- **The switch position** is that of the last `-z` or `-x`. -/
theorem switchOn_parseOptions (opts : List Opt) :
    (parseOptions opts).switchOn = (lastArg [.zwitch, .radio] opts).getD 0 := by
  refine variable_parseOptions Vars.switchOn rfl (fun v o => ?_) opts
  cases o <;> rfl

/-- **The button argument** is that of the last `-b`. -/
theorem buttonArg_parseOptions (opts : List Opt) :
    (parseOptions opts).buttonArg = (lastArg [.button] opts).getD 0 := by
  refine variable_parseOptions Vars.buttonArg rfl (fun v o => ?_) opts
  cases o <;> rfl

/-! ## The packets and their options -/

/-- The flags in the order in which `main` looks at them. -/
def Flag.order : List Flag :=
  [activateReg, deleteHset, pingHset, zwitch, radio, reloadConfig, getStatus, json, listHsets,
    ule, init, button]

/-- The command that a flag stands for. -/
def Flag.packetType : Flag → PacketType
  | activateReg => .registration
  | deleteHset => .deleteHset
  | pingHset => .pingHset
  | getStatus => .getStatus
  | json => .getStatus
  | listHsets => .listHandsets
  | ule => .uleStart
  | init => .init
  | zwitch => .zwitch
  | radio => .radio
  | reloadConfig => .reloadConfig
  | button => .button

/-- The flags whose option takes an argument. -/
def Flag.withArg : List Flag := [deleteHset, pingHset, zwitch, radio, button]

/-- The argument that `main` sends for a flag. -/
def Vars.arg (v : Vars) : Flag → ℤ
  | .deleteHset => v.handset
  | .pingHset => v.handset
  | .zwitch => v.switchOn
  | .radio => v.switchOn
  | .button => v.buttonArg
  | _ => 0

/-- `main` sends a packet for each flag that is set. -/
theorem dectMain_eq (opts : List Opt) :
    dectMain opts =
      (Flag.order.filter fun f => decide (Given f opts)).map fun f =>
        sendPacket f.packetType ((parseOptions opts).arg f) := by
  have hstep (f : Flag) (fs : List Flag) :
      (((f :: fs).filter fun f => decide (Given f opts)).map fun f =>
        sendPacket f.packetType ((parseOptions opts).arg f)) =
      (if (parseOptions opts).has f then
        [sendPacket f.packetType ((parseOptions opts).arg f)] else []) ++
      (fs.filter fun f => decide (Given f opts)).map fun f =>
        sendPacket f.packetType ((parseOptions opts).arg f) := by
    simp only [List.filter_cons, decide_eq_true_eq, has_parseOptions_iff]
    split_ifs <;> rfl
  unfold Flag.order dectMain
  simp only [hstep, List.filter_nil, List.map_nil, List.append_nil, List.append_assoc]
  rfl

/-- The packets of an option with an argument are its own. -/
theorem packetType_inj_of_withArg {f g : Flag} (hf : f ∈ Flag.withArg)
    (h : g.packetType = f.packetType) : g = f := by
  have hall : ∀ f ∈ Flag.withArg, ∀ g ∈ Flag.order, g.packetType = f.packetType → g = f := by
    decide
  have horder : g ∈ Flag.order := by cases g <;> decide
  exact hall f hf g horder h

/-- An option whose flag takes an argument has one. -/
theorem exists_optarg {o : Opt} (h : o.flag ∈ Flag.withArg) : ∃ arg, o.optarg? = some arg := by
  cases o with
  | d optarg | p optarg | z optarg | x optarg | b optarg => exact ⟨optarg, rfl⟩
  | r | s | j | l | u | i | c => exact absurd h (by decide)

/-- There is a last argument exactly when the option is given. -/
theorem given_iff_lastArg {f : Flag} (hf : f ∈ Flag.withArg) (opts : List Opt) :
    Given f opts ↔ ∃ arg, lastArg [f] opts = some arg := by
  induction opts using List.reverseRecOn with
  | nil => simp [Given, lastArg]
  | append_singleton opts o ih =>
      rw [given_concat_iff, lastArg_concat]
      simp only [List.mem_singleton]
      split_ifs with ho
      · exact iff_of_true (.inr ho) (exists_optarg (ho ▸ hf))
      · rw [or_iff_left ho, ih]

/-- A last argument is an argument of one of the options. -/
theorem mem_of_lastArg {fs : List Flag} {opts : List Opt} {arg : ℤ}
    (h : lastArg fs opts = some arg) : ∃ o ∈ opts, o.optarg? = some arg := by
  obtain ⟨o, ho, harg⟩ := Option.bind_eq_some_iff.mp h
  exact ⟨o, List.mem_reverse.mp (List.mem_of_find?_eq_some ho), harg⟩

/-- The last argument of two options is that of one of them. -/
theorem lastArg_pair {f g : Flag} (hg : g ∈ Flag.withArg) (opts : List Opt) :
    lastArg [f, g] opts = lastArg [f] opts ∨
      lastArg [f, g] opts = lastArg [g] opts ∧ ∃ arg, lastArg [g] opts = some arg := by
  induction opts using List.reverseRecOn with
  | nil => exact .inl rfl
  | append_singleton opts o ih =>
      simp only [lastArg_concat, List.mem_cons, List.not_mem_nil, or_false]
      by_cases hf : o.flag = f
      · exact .inl (by simp [hf])
      · by_cases hog : o.flag = g
        · obtain ⟨arg, harg⟩ := exists_optarg (hog ▸ hg)
          exact .inr ⟨by simp [hog], arg, by simp [hog, harg]⟩
        · simpa [hf, hog] using ih

/-- The order of the two does not matter. -/
theorem lastArg_swap (f g : Flag) (opts : List Opt) :
    lastArg [f, g] opts = lastArg [g, f] opts := by
  have hmem (o : Opt) : o.flag ∈ [f, g] ↔ o.flag ∈ [g, f] := by
    rw [List.mem_pair, List.mem_pair, or_comm]
  unfold lastArg
  simp only [hmem]

/-- If both options are given, their last arguments are the same. -/
def ShareArgument (f g : Flag) (opts : List Opt) : Prop :=
  ∀ a b, lastArg [f] opts = some a → lastArg [g] opts = some b → a = b

/-- Then the shared variable holds the argument of either. -/
theorem ShareArgument.lastArg_eq {f g : Flag} {opts : List Opt} (h : ShareArgument f g opts)
    (hg : g ∈ Flag.withArg) {a : ℤ} (ha : lastArg [f] opts = some a) :
    lastArg [f, g] opts = some a := by
  rcases lastArg_pair hg opts with hf | ⟨hpair, b, hb⟩
  · rw [hf, ha]
  · rw [hpair, hb, h a b ha hb]

theorem ShareArgument.symm {f g : Flag} {opts : List Opt} (h : ShareArgument f g opts) :
    ShareArgument g f opts :=
  fun a b ha hb => (h b a hb ha).symm

/-- What `main` sends for an option is its own argument, if those that share a variable
agree. -/
theorem arg_of_shareArgument {opts : List Opt} (hhandset : ShareArgument .deleteHset .pingHset opts)
    (hswitch : ShareArgument .zwitch .radio opts) {f : Flag} (hf : f ∈ Flag.withArg) {a : ℤ}
    (ha : lastArg [f] opts = some a) : (parseOptions opts).arg f = a := by
  cases f with
  | deleteHset =>
      show (parseOptions opts).handset = a
      rw [handset_parseOptions, hhandset.lastArg_eq (by decide) ha]
      rfl
  | pingHset =>
      show (parseOptions opts).handset = a
      rw [handset_parseOptions, lastArg_swap, hhandset.symm.lastArg_eq (by decide) ha]
      rfl
  | zwitch =>
      show (parseOptions opts).switchOn = a
      rw [switchOn_parseOptions, hswitch.lastArg_eq (by decide) ha]
      rfl
  | radio =>
      show (parseOptions opts).switchOn = a
      rw [switchOn_parseOptions, lastArg_swap, hswitch.symm.lastArg_eq (by decide) ha]
      rfl
  | button =>
      show (parseOptions opts).buttonArg = a
      rw [buttonArg_parseOptions, ha]
      rfl
  | _ => exact absurd hf (by decide)

/-- One packet is sent for each option that is given, repeated or not; and a packet
whose command takes an argument carries that of the last such option. -/
structure OwnArguments (opts : List Opt) : Prop where
  once : (dectMain opts).map Prod.fst =
    (Flag.order.filter fun f => decide (Given f opts)).map Flag.packetType
  own : ∀ q ∈ dectMain opts, ∀ f ∈ Flag.withArg, q.1 = f.packetType →
    ∃ arg, lastArg [f] opts = some arg ∧ (q.2.toNat : ℤ) = arg

/-- The packet of an option that is given is sent. -/
theorem mem_dectMain_of_given {f : Flag} {opts : List Opt} (h : Given f opts) :
    sendPacket f.packetType ((parseOptions opts).arg f) ∈ dectMain opts := by
  have horder : f ∈ Flag.order := by cases f <;> decide
  rw [dectMain_eq]
  exact List.mem_map_of_mem (List.mem_filter.mpr ⟨horder, decide_eq_true h⟩)

/-- A number of one byte survives the conversion to `uint8_t`. -/
theorem toNat_ofInt {a : ℤ} (h : 0 ≤ a ∧ a ≤ 255) : ((UInt8.ofInt a).toNat : ℤ) = a := by
  rw [UInt8.ofInt, UInt8.toNat_ofNat']
  omega

/-- If two options share a variable and each packet carries its own argument, the
arguments are the same. -/
theorem OwnArguments.shareArgument {opts : List Opt} (h : OwnArguments opts) {f g : Flag}
    (hf : f ∈ Flag.withArg) (hg : g ∈ Flag.withArg)
    (hfg : (parseOptions opts).arg f = (parseOptions opts).arg g) : ShareArgument f g opts := by
  intro a b ha hb
  have hown {f : Flag} (hf : f ∈ Flag.withArg) {a : ℤ} (ha : lastArg [f] opts = some a) :
      ((UInt8.ofInt ((parseOptions opts).arg f)).toNat : ℤ) = a := by
    have hgiven := (given_iff_lastArg hf opts).mpr ⟨a, ha⟩
    obtain ⟨arg, harg, hdata⟩ := h.own _ (mem_dectMain_of_given hgiven) f hf rfl
    obtain rfl : a = arg := Option.some.inj (ha.symm.trans harg)
    exact hdata
  rw [← hown hf ha, ← hown hg hb, hfg]

/-- **Each packet carries its own option's argument** exactly when `-d` and `-p`, if
both are given, were last given the same argument, and `-z` and `-x` too. -/
theorem own_arguments_iff {opts : List Opt}
    (hrange : ∀ o ∈ opts, ∀ arg, o.optarg? = some arg → 0 ≤ arg ∧ arg ≤ 255) :
    OwnArguments opts ↔
      ShareArgument .deleteHset .pingHset opts ∧ ShareArgument .zwitch .radio opts := by
  constructor
  · intro h
    exact ⟨h.shareArgument (by decide) (by decide) rfl, h.shareArgument (by decide) (by decide) rfl⟩
  · rintro ⟨hhandset, hswitch⟩
    constructor
    · rw [dectMain_eq, List.map_map]
      rfl
    · intro q hq f hf htype
      rw [dectMain_eq] at hq
      obtain ⟨g, hg, rfl⟩ := List.mem_map.mp hq
      obtain rfl : g = f := packetType_inj_of_withArg hf htype
      obtain ⟨a, ha⟩ := (given_iff_lastArg hf opts).mp (of_decide_eq_true (List.mem_filter.mp hg).2)
      obtain ⟨o, ho, harg⟩ := mem_of_lastArg ha
      refine ⟨a, ha, ?_⟩
      show ((UInt8.ofInt ((parseOptions opts).arg g)).toNat : ℤ) = a
      rw [arg_of_shareArgument hhandset hswitch hf ha]
      exact toNat_ofInt (hrange o ho a harg)

/-- The packets of "dect -d 4 -z 1 -p 3 -p 4" carry 4, 4 and 1. -/
theorem same_handset_own_arguments : OwnArguments [.d 4, .z 1, .p 3, .p 4] := by
  refine (own_arguments_iff (by simp [Opt.optarg?])).mpr ⟨fun a b ha hb => ?_, fun a b _ hb => ?_⟩
  · obtain rfl : 4 = a := Option.some.inj ha
    obtain rfl : 4 = b := Option.some.inj hb
    rfl
  · cases hb

/-- "dect -d 3 -p 5" deletes handset 5. -/
theorem delete_carries_ping_argument : ¬ OwnArguments [.d 3, .p 5] := by
  intro h
  have hsent : (PacketType.deleteHset, (5 : UInt8)) ∈ dectMain [.d 3, .p 5] := by decide
  obtain ⟨arg, harg, hdata⟩ := h.own _ hsent .deleteHset (by decide) rfl
  obtain rfl : 3 = arg := Option.some.inj harg
  exact absurd hdata (by decide)

end DectManager
