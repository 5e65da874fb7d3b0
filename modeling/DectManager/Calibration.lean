/-
# Test mode and the download: `dectcalib.c` and the manager

`dectcalib` sets or clears one bit of the NVS file, and the manager downloads the
file to the stack when it is started (`dect_testmode` runs one after the other).

* `dectcalib_eq`: a run of `dectcalib` changes the file only if it says so, and then
  it is `setTestmode` of what the options ask for.
* `says_iff`: it does exactly when no call fails and the words are a way of writing
  `-e` or `-d`, or both; `-e` wins.
* `testmode_download`: after any sequence of runs the download has the test mode of
  the last run that set one, and all the rest of the file as it was.
-/
import DectManager.FileBytes
import DectManager.Getopt
import DectManager.Writes

namespace DectManager

open Getopt FileBytes

/-! ## The program -/

/-- Which calls on the NVS file do not fail. -/
structure FileCalls where
  opened : Bool
  soughtToRead : Bool
  read : Bool
  soughtToWrite : Bool
  written : Bool

/-- `TESTMODE_OFFSET` -/
def testmodeOffset : ℕ := 0x80

/-- The characters that "ed" makes options. -/
def calibTakes : Char → Option Bool := takesArg ['e', 'd']

/-- The option loop: `enable` and `disable`, or the exit of the `default` case. -/
def calibOptions : Bool × Bool → List Found → Option (Bool × Bool)
  | (enable, disable), [] => some (enable, disable)
  | (enable, disable), f :: fs =>
    match f with
    | .option 'e' _ => calibOptions (true, disable) fs
    | .option 'd' _ => calibOptions (enable, true) fs
    | _ => none

/-- `test |= 1 << 0` or `test &= ~(1 << 0)` -/
def testBits (enable : Bool) (test : UInt8) : UInt8 := if enable then test ||| 1 else test &&& ~~~1

/-- `main`: the NVS file afterwards, and whether it says that test mode has been enabled or
disabled, if it does not exit before.  If `read` returns nothing, `test` stays 0. -/
def dectcalib (calls : FileCalls) (argv : List Word) (nvs : List UInt8) :
    List UInt8 × Option Bool :=
  match calibOptions (false, false) (scan calibTakes none argv) with
  | none => (nvs, none)
  | some (enable, disable) =>
    if !enable && !disable then (nvs, none)
    else if !calls.opened then (nvs, none)
    else if !calls.soughtToRead then (nvs, none)
    else if !calls.read then (nvs, none)
    else
      let test := testBits enable ((readAt nvs testmodeOffset 1).headD 0)
      if !calls.soughtToWrite then (nvs, none)
      else if !calls.written then (nvs, none)
      else (writeAt 0 nvs testmodeOffset [test], some enable)

/-! ## One run -/

/-- The NVS with test mode enabled or disabled. -/
def setTestmode (enable : Bool) (nvs : List UInt8) : List UInt8 :=
  writeAt 0 nvs testmodeOffset [testBits enable ((readAt nvs testmodeOffset 1).headD 0)]

/-- No call fails. -/
def FileCalls.AllWork (calls : FileCalls) : Prop :=
  calls.opened = true ∧ calls.soughtToRead = true ∧ calls.read = true ∧
    calls.soughtToWrite = true ∧ calls.written = true

/-- The words are a way of writing `-e` or `-d`, and ask for test mode or for none. -/
def Asks (argv : List Word) (enable : Bool) : Prop :=
  ∃ os, Writes calibTakes argv os ∧ os ≠ [] ∧ (enable = true ↔ ('e', none) ∈ os)

/-- Test mode is set by the run. -/
def Sets (run : FileCalls × List Word) (enable : Bool) : Prop :=
  run.1.AllWork ∧ Asks run.2 enable

/-- **A run** changes the file as it says. -/
theorem dectcalib_eq (calls : FileCalls) (argv : List Word) (nvs : List UInt8) :
    (dectcalib calls argv nvs).1 =
      match (dectcalib calls argv nvs).2 with
      | none => nvs
      | some enable => setTestmode enable nvs := by
  unfold dectcalib
  cases calibOptions (false, false) (scan calibTakes none argv) with
  | none => rfl
  | some options =>
      dsimp only
      split_ifs <;> rfl

/-- If no call fails, it depends on the options. -/
theorem dectcalib_of_allWork {calls : FileCalls} (h : calls.AllWork) (argv : List Word)
    (nvs : List UInt8) :
    (dectcalib calls argv nvs).2 =
      (calibOptions (false, false) (scan calibTakes none argv)).bind fun v =>
        if v.1 || v.2 then some v.1 else none := by
  obtain ⟨hopened, hsought, hread, hsought', hwritten⟩ := h
  unfold dectcalib
  cases calibOptions (false, false) (scan calibTakes none argv) with
  | none => rfl
  | some options =>
      obtain ⟨enable, disable⟩ := options
      simp only [hopened, hsought, hread, hsought', hwritten]
      cases enable <;> cases disable <;> rfl

/-- Nothing is said if a call fails. -/
theorem allWork_of_says {calls : FileCalls} {argv : List Word} {nvs : List UInt8} {enable : Bool}
    (h : (dectcalib calls argv nvs).2 = some enable) : calls.AllWork := by
  unfold dectcalib at h
  split at h
  · cases h
  · split_ifs at h
    all_goals simp_all [FileCalls.AllWork]

/-- The two options. -/
theorem eq_of_calibTakes {o : Getopt.Given} (h : calibTakes o.1 = some o.2.isSome) :
    o = ('e', none) ∨ o = ('d', none) := by
  obtain ⟨c, optarg⟩ := o
  have hmem : c ∈ ['e', 'd'] := mem_of_takesArg h
  have hflag : calibTakes c = some false := by
    rcases List.mem_pair.mp hmem with rfl | rfl <;> decide
  have hnone : optarg = none := by
    rw [hflag] at h
    exact Option.not_isSome_iff_eq_none.mp (by simp [← Option.some.inj h])
  subst hnone
  rcases List.mem_pair.mp hmem with rfl | rfl
  · exact .inl rfl
  · exact .inr rfl

/-- What the option loop makes of options. -/
theorem calibOptions_found {os : List Getopt.Given}
    (hos : ∀ o ∈ os, calibTakes o.1 = some o.2.isSome) (enable disable : Bool) :
    calibOptions (enable, disable) (found os) =
      some (enable || decide (('e', none) ∈ os), disable || decide (('d', none) ∈ os)) := by
  induction os generalizing enable disable with
  | nil => simp [found, calibOptions]
  | cons o os ih =>
      obtain ⟨ho, hrest⟩ := List.forall_mem_cons.mp hos
      rcases eq_of_calibTakes ho with rfl | rfl
      · rw [found_cons, calibOptions, ih hrest]
        simp
      · rw [found_cons, calibOptions, ih hrest]
        simp

/-- The option loop exits if something is unknown. -/
theorem not_mem_of_calibOptions {fs : List Found} {v v' : Bool × Bool}
    (h : calibOptions v fs = some v') (c : Char) : Found.unknown c ∉ fs := by
  induction fs generalizing v with
  | nil => exact List.not_mem_nil
  | cons f fs ih =>
      unfold calibOptions at h
      split at h
      · exact List.not_mem_cons_of_ne_of_not_mem (by simp) (ih h)
      · exact List.not_mem_cons_of_ne_of_not_mem (by simp) (ih h)
      · cases h

/-- **What a run says**: it sets test mode exactly when no call fails and the words are a way of
writing options that ask for it. -/
theorem says_iff {calls : FileCalls} {argv : List Word} {nvs : List UInt8} {enable : Bool} :
    (dectcalib calls argv nvs).2 = some enable ↔ Sets (calls, argv) enable := by
  have hdash : calibTakes '-' = none := by decide
  refine ⟨fun h => ?_, fun ⟨hworks, os, hos, hne, henable⟩ => ?_⟩
  · have hworks := allWork_of_says h
    rw [dectcalib_of_allWork hworks] at h
    obtain ⟨v, hoptions, hv⟩ := Option.bind_eq_some_iff.mp h
    obtain ⟨os, hos⟩ := (no_unknown_iff hdash).mp (not_mem_of_calibOptions hoptions)
    rw [scan_of_writes hdash hos, calibOptions_found (takes_eq_of_writes hos)] at hoptions
    obtain rfl := Option.some.inj hoptions
    split_ifs at hv with hgiven
    refine ⟨hworks, os, hos, ?_, ?_⟩
    · rintro rfl
      simp at hgiven
    · rw [← Option.some.inj hv, Bool.false_or, decide_eq_true_eq]
  · have hgiven : (decide (('e', none) ∈ os) || decide (('d', none) ∈ os)) = true := by
      obtain ⟨o, os, rfl⟩ := List.exists_cons_of_ne_nil hne
      rcases eq_of_calibTakes (takes_eq_of_writes hos o List.mem_cons_self) with rfl | rfl <;> simp
    rw [dectcalib_of_allWork hworks, scan_of_writes hdash hos,
      calibOptions_found (takes_eq_of_writes hos), Option.bind_some, Bool.false_or, Bool.false_or,
      if_pos hgiven]
    refine congrArg some (Bool.eq_iff_iff.mpr ?_)
    rw [decide_eq_true_eq, henable]

/-! ## Any sequence of runs -/

/-- The NVS after some runs. -/
def calibrations (runs : List (FileCalls × List Word)) (nvs : List UInt8) : List UInt8 :=
  runs.foldl (fun nvs run => (dectcalib run.1 run.2 nvs).1) nvs

/-- A run sets test mode to this, and no later run sets any. -/
def LastSets (runs : List (FileCalls × List Word)) (enable : Bool) : Prop :=
  ∃ pre run post, runs = pre ++ run :: post ∧ Sets run enable ∧
    ∀ run' ∈ post, ∀ enable', ¬ Sets run' enable'

/-- A bit of a file; behind its end there are none set. -/
def bit (file : List UInt8) (i k : ℕ) : Bool := (file.getD i 0).toBitVec.getLsbD k

/-- Only the last bit is set or cleared. -/
theorem getLsbD_testBits (enable : Bool) (test : UInt8) (k : ℕ) :
    (testBits enable test).toBitVec.getLsbD k =
      if k = 0 then enable else test.toBitVec.getLsbD k := by
  have hone : (1 : UInt8).toBitVec.getLsbD k = decide (k = 0) := by
    show (1#8).getLsbD k = _
    rw [BitVec.getLsbD_one, decide_eq_true (by decide), Bool.true_and]
  cases enable with
  | true =>
      show (test ||| 1).toBitVec.getLsbD k = _
      rw [UInt8.toBitVec_or, BitVec.getLsbD_or, hone]
      split_ifs with hk <;> simp [hk]
  | false =>
      show (test &&& ~~~1).toBitVec.getLsbD k = _
      rw [UInt8.toBitVec_and, BitVec.getLsbD_and, UInt8.toBitVec_not, BitVec.getLsbD_not, hone]
      by_cases hk : k < 8
      · split_ifs with h0 <;> simp [h0, hk]
      · rw [BitVec.getLsbD_of_ge _ _ (Nat.not_lt.mp hk), if_neg (by omega), Bool.false_and]

theorem readAt_setTestmode (enable : Bool) (nvs : List UInt8) :
    readAt (setTestmode enable nvs) testmodeOffset 1 =
      [testBits enable ((readAt nvs testmodeOffset 1).headD 0)] :=
  readAt_writeAt (List.cons_ne_nil _ _) nvs testmodeOffset

/-- Test mode is set once for all: what it was before does not matter. -/
theorem setTestmode_setTestmode (enable enable' : Bool) (nvs : List UInt8) :
    setTestmode enable (setTestmode enable' nvs) = setTestmode enable nvs := by
  have hbits (test : UInt8) : testBits enable (testBits enable' test) = testBits enable test := by
    refine UInt8.toBitVec_inj.mp (BitVec.eq_of_getLsbD_eq fun k _ => ?_)
    simp only [getLsbD_testBits]
    split_ifs <;> rfl
  rw [setTestmode, readAt_setTestmode, List.headD_cons, hbits, setTestmode,
    writeAt_writeAt (by rfl), setTestmode]

theorem dectcalib_of_sets {run : FileCalls × List Word} {enable : Bool} (h : Sets run enable)
    (nvs : List UInt8) : (dectcalib run.1 run.2 nvs).1 = setTestmode enable nvs := by
  rw [dectcalib_eq, says_iff.mpr h]

theorem dectcalib_of_not_sets {run : FileCalls × List Word} (h : ∀ enable, ¬ Sets run enable)
    (nvs : List UInt8) : (dectcalib run.1 run.2 nvs).1 = nvs := by
  have hsays : (dectcalib run.1 run.2 nvs).2 = none :=
    Option.eq_none_iff_forall_ne_some.mpr fun enable hsays => h enable (says_iff.mp hsays)
  rw [dectcalib_eq, hsays]

/-- What some runs have done is lost when test mode is set. -/
theorem setTestmode_calibrations (enable : Bool) (runs : List (FileCalls × List Word))
    (nvs : List UInt8) : setTestmode enable (calibrations runs nvs) = setTestmode enable nvs := by
  induction runs generalizing nvs with
  | nil => rfl
  | cons run runs ih =>
      show setTestmode enable (calibrations runs (dectcalib run.1 run.2 nvs).1) = _
      rw [ih]
      by_cases hrun : ∃ enable', Sets run enable'
      · obtain ⟨enable', hsets⟩ := hrun
        rw [dectcalib_of_sets hsets, setTestmode_setTestmode]
      · rw [dectcalib_of_not_sets (not_exists.mp hrun)]

/-- Runs that set no test mode leave the file alone. -/
theorem calibrations_of_not_sets {runs : List (FileCalls × List Word)}
    (h : ∀ run ∈ runs, ∀ enable, ¬ Sets run enable) (nvs : List UInt8) :
    calibrations runs nvs = nvs := by
  induction runs generalizing nvs with
  | nil => rfl
  | cons run runs ih =>
      obtain ⟨hrun, hruns⟩ := List.forall_mem_cons.mp h
      show calibrations runs (dectcalib run.1 run.2 nvs).1 = nvs
      rw [dectcalib_of_not_sets hrun, ih hruns]

/-- **The last run** that sets test mode decides. -/
theorem calibrations_of_lastSets {runs : List (FileCalls × List Word)} {enable : Bool}
    (h : LastSets runs enable) (nvs : List UInt8) :
    calibrations runs nvs = setTestmode enable nvs := by
  obtain ⟨pre, run, post, rfl, hrun, hpost⟩ := h
  rw [calibrations, List.foldl_append, List.foldl_cons]
  show calibrations post (dectcalib run.1 run.2 (calibrations pre nvs)).1 = _
  rw [calibrations_of_not_sets hpost, dectcalib_of_sets hrun, setTestmode_calibrations]

/-- Some run is the last that sets test mode, or none does. -/
theorem lastSets_or (runs : List (FileCalls × List Word)) :
    (∃ enable, LastSets runs enable) ∨ ∀ run ∈ runs, ∀ enable, ¬ Sets run enable := by
  induction runs with
  | nil => exact .inr (List.forall_mem_nil _)
  | cons run runs ih =>
      rcases ih with ⟨enable, pre, run', post, rfl, hlast⟩ | hnone
      · exact .inl ⟨enable, run :: pre, run', post, rfl, hlast⟩
      · by_cases hrun : ∃ enable, Sets run enable
        · obtain ⟨enable, hsets⟩ := hrun
          exact .inl ⟨enable, [], run, runs, rfl, hsets, hnone⟩
        · exact .inr (List.forall_mem_cons.mpr ⟨not_exists.mp hrun, hnone⟩)

/-! ## The download -/

/-- The bits of the file with test mode set. -/
theorem bit_setTestmode (enable : Bool) (nvs : List UInt8) (i k : ℕ) :
    bit (setTestmode enable nvs) i k =
      if i = testmodeOffset ∧ k = 0 then enable else bit nvs i k := by
  rw [bit, setTestmode, getD_writeAt, headD_readAt, List.length_singleton]
  by_cases hi : i = testmodeOffset
  · subst hi
    rw [if_pos (by omega), Nat.sub_self, List.getD_cons_zero, getLsbD_testBits]
    simp only [true_and]
    rfl
  · rw [if_neg (by omega), if_neg (fun h => hi h.1)]
    rfl

theorem length_setTestmode (enable : Bool) (nvs : List UInt8) :
    (setTestmode enable nvs).length = max nvs.length (testmodeOffset + 1) :=
  length_writeAt (List.cons_ne_nil _ _) nvs testmodeOffset

/-- The file does not get shorter. -/
theorem le_length_calibrations (runs : List (FileCalls × List Word)) (nvs : List UInt8) :
    nvs.length ≤ (calibrations runs nvs).length := by
  rcases lastSets_or runs with ⟨enable, hlast⟩ | hnone
  · rw [calibrations_of_lastSets hlast, length_setTestmode]
    exact le_max_left _ _
  · rw [calibrations_of_not_sets hnone]

/-- All but one bit are as they were. -/
theorem bit_calibrations (runs : List (FileCalls × List Word)) (nvs : List UInt8) {i k : ℕ}
    (h : i ≠ testmodeOffset ∨ k ≠ 0) : bit (calibrations runs nvs) i k = bit nvs i k := by
  rcases lastSets_or runs with ⟨enable, hlast⟩ | hnone
  · rw [calibrations_of_lastSets hlast, bit_setTestmode, if_neg]
    rintro ⟨rfl, rfl⟩
    exact h.elim (fun h => h rfl) fun h => h rfl
  · rw [calibrations_of_not_sets hnone]

/-- The one bit is as the last run that set it says. -/
theorem bit_testmode {runs : List (FileCalls × List Word)} {enable : Bool}
    (h : LastSets runs enable) (nvs : List UInt8) :
    bit (calibrations runs nvs) testmodeOffset 0 = enable := by
  rw [calibrations_of_lastSets h, bit_setTestmode, if_pos ⟨rfl, rfl⟩]

/-- A byte is its bits. -/
theorem getD_eq_iff_bit {file file' : List UInt8} {i : ℕ} :
    file.getD i 0 = file'.getD i 0 ↔ ∀ k, bit file i k = bit file' i k := by
  constructor
  · intro h k
    rw [bit, h, bit]
  · intro h
    exact UInt8.toBitVec_inj.mp (BitVec.eq_of_getLsbD_eq fun k _ => h k)

/-- The bits of the download are those of the file, as far as it goes. -/
theorem bit_download {env : Env} {file : List UInt8}
    (hnvs : env.nvs = some (readAt file 0 dectNvsSize)) :
    ∃ data, nvsGetData env = some data ∧
      ∀ i k, i < file.length → i < dectNvsSize → bit data i k = bit file i k := by
  refine ⟨_, congrArg (Option.map _) hnvs, fun i k hi hsize => ?_⟩
  have hread : (readAt file 0 dectNvsSize)[i]? = some file[i] := by
    rw [readAt, List.drop_zero, List.getElem?_take, if_pos hsize, List.getElem?_eq_getElem hi]
  rw [bit, bit, List.getD_eq_getElem?_getD, List.getElem?_map, List.getElem?_range hsize,
    Option.map_some, hread, List.getD_eq_getElem _ _ hi]
  rfl

/-- **The download after `dectcalib`**, however often and with whatever success it has run: test
mode is as the last run that set it says, and all the rest of the file is as it was. -/
theorem testmode_download {runs : List (FileCalls × List Word)} {nvs : List UInt8} {env : Env}
    (hshim : env.dectshim = true)
    (hnvs : env.nvs = some (readAt (calibrations runs nvs) 0 dectNvsSize)) (w : World)
    (arg : UInt8) :
    ∃ data, writes w (.client PacketType.init.code arg env) = [.linuxInitReq dectNvsSize data] ∧
      (∀ enable, LastSets runs enable → bit data testmodeOffset 0 = enable) ∧
      ∀ i k, i < nvs.length → i < dectNvsSize →
        (i ≠ testmodeOffset ∨ k ≠ 0 ∨ ∀ run ∈ runs, ∀ enable, ¬ Sets run enable) →
        bit data i k = bit nvs i k := by
  obtain ⟨data, hdata, hbits⟩ := bit_download hnvs
  refine ⟨data, ?_, ?_, ?_⟩
  · show initWrites env = _
    rw [initWrites, if_pos hshim, hdata]
    rfl
  · intro enable hlast
    have hlen : testmodeOffset < (calibrations runs nvs).length := by
      rw [calibrations_of_lastSets hlast, length_setTestmode]
      omega
    rw [hbits _ _ hlen (by decide), bit_testmode hlast]
  · intro i k hi hsize hother
    rw [hbits i k (hi.trans_le (le_length_calibrations runs nvs)) hsize]
    rcases hother with h | h | h
    · exact bit_calibrations runs nvs (.inl h)
    · exact bit_calibrations runs nvs (.inr h)
    · rw [calibrations_of_not_sets h]

/-- Test mode is enabled, the second run is given an option that does not exist, and the third
cannot open the file. -/
def testmodeRuns : List (FileCalls × List Word) :=
  [(⟨true, true, true, true, true⟩, [['-', 'e']]),
    (⟨true, true, true, true, true⟩, [['-', 'd', 'x']]),
    (⟨false, true, true, true, true⟩, [['-', 'd']])]

theorem lastSets_testmodeRuns : LastSets testmodeRuns true := by
  refine ⟨[], _, _, rfl, says_iff.mp (show (dectcalib _ _ []).2 = _ by decide), ?_⟩
  intro run hrun enable hsets
  have hnone : (dectcalib run.1 run.2 []).2 = none := by
    rcases List.mem_pair.mp hrun with rfl | rfl <;> decide
  rw [says_iff.mpr hsets] at hnone
  cases hnone

/-- The manager finds what they have left of a file of three bytes. -/
def testmodeEnv : Env :=
  { Env.none with
    dectshim := true
    nvs := some (readAt (calibrations testmodeRuns [1, 2, 3]) 0 dectNvsSize) }

/-- The file has grown, and the stack is told to start in test mode. -/
theorem testmode_downloaded :
    ∃ data, writes (initial ⟨.enabled, by decide⟩)
        (.client PacketType.init.code 0 testmodeEnv) = [.linuxInitReq dectNvsSize data] ∧
      bit data testmodeOffset 0 = true ∧ bit data 2 0 = true ∧ bit data 2 1 = true := by
  obtain ⟨data, hwrites, hset, hrest⟩ := @testmode_download testmodeRuns [1, 2, 3] testmodeEnv
    rfl rfl (initial ⟨.enabled, by decide⟩) 0
  refine ⟨data, hwrites, hset true lastSets_testmodeRuns, ?_, ?_⟩
  · rw [hrest 2 0 (by decide) (by decide) (.inl (by decide))]
    decide
  · rw [hrest 2 1 (by decide) (by decide) (.inl (by decide))]
    decide

end DectManager
