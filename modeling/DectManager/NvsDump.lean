/-
# The dump of the NVS: `nvsparse.c`

`nvsparse` reads a file into a buffer of its size and prints the bytes of each entry
of a table, without looking at how long the file is.  It opens the output file for
writing, and never writes to it.

* `nvsparse_of_names`: a run that works prints the dump of one file and empties the
  other.
* `prints_alike_iff`: two files print alike, whatever lies behind them in memory,
  exactly when both reach to the end of the table and have the same bytes wherever
  it has an entry.
* `dump_after_dectcalib`: `dectcalib` changes one line of the dump, or none.
-/
import DectManager.Calibration
import DectManager.TextParts

namespace DectManager

open Getopt FileBytes TextParts

/-! ## The table -/

/-- `nvs_entry` -/
structure NvsEntry where
  name : String
  offset : ℕ
  size : ℕ
  deriving DecidableEq, Repr

/-- `nvs_entry_table` -/
def nvsEntryTable : List NvsEntry :=
  [⟨"FixedEmc", 10, 2⟩,
   ⟨"Rfpi", 0, 5⟩,
   ⟨"BcmModulationDeviation", 5, 1⟩,
   ⟨"BcmDefaultFrequency", 6, 2⟩,
   ⟨"DiversityMode", 32, 1⟩,
   ⟨"DualSlotReleaseHysteresis", 33, 1⟩,
   ⟨"DualSlotReleaseOnDifference", 34, 1⟩,
   ⟨"PowerLowRssiLimit", 35, 1⟩,
   ⟨"PowerHighRssiLimit", 36, 1⟩,
   ⟨"PowerCrcLimit", 37, 1⟩,
   ⟨"PowerCrcHighCnt", 41, 1⟩,
   ⟨"bFreqBandOffset", 42, 1⟩,
   ⟨"bRssiLevel_UpperThreshold", 43, 1⟩,
   ⟨"bRssiScanType", 44, 1⟩,
   ⟨"AdaptivePowerCtrl", 57, 1⟩,
   ⟨"EepromUsedRfCarriers", 274, 2⟩,
   ⟨"UsedRfCarriers5g8", 294, 6⟩,
   ⟨"RepeaterControl", 276, 1⟩,
   ⟨"Default_BCM_CTRL_REG", 292, 1⟩,
   ⟨"Default_BCM_CTRL_REG", 293, 1⟩,
   ⟨"BcmConfigErr", 277, 1⟩,
   ⟨"BcmConfigSlideMask", 278, 1⟩,
   ⟨"BcmConfigVol", 279, 1⟩,
   ⟨"BcmConfigDac", 280, 1⟩,
   ⟨"BcmConfigWin", 281, 1⟩,
   ⟨"BcmConfigEnc", 282, 1⟩,
   ⟨"BandGap", 129, 1⟩,
   ⟨"AdvanceTimingEnable", 273, 1⟩,
   ⟨"bProtocolFeatures", 58, 1⟩,
   ⟨"bNoEmission_PreferredCarrier", 60, 1⟩,
   ⟨"ExtendedRfCarriers", 648, 3⟩,
   ⟨"bRssiLevel_LowerThreshold", 97, 1⟩,
   ⟨"ExtendedFpCap2", 98, 1⟩,
   ⟨"RfBandgap", 307, 1⟩,
   ⟨"RfPower4x1[0]", 61, 6⟩,
   ⟨"RfPower4x1[1]", 67, 6⟩,
   ⟨"RfPower4x1[2]", 73, 6⟩,
   ⟨"RfPower4x1[3]", 79, 6⟩,
   ⟨"RfPower4x1[4]", 85, 6⟩,
   ⟨"RfPower4x1[5]", 91, 6⟩,
   ⟨"RfLMX4x68Length", 8, 1⟩,
   ⟨"RfLMX4x68Data_patch[0]", 176, 4⟩,
   ⟨"RfLMX4x68Data_patch[1]", 180, 4⟩,
   ⟨"RfLMX4x68Data_patch[2]", 184, 4⟩,
   ⟨"RfLMX4x68Data_patch[3]", 188, 4⟩,
   ⟨"RfLMX4x68Data_patch[4]", 192, 4⟩,
   ⟨"RfLMX4x68Data_patch[5]", 196, 4⟩,
   ⟨"RfLMX4x68Data_patch[6]", 200, 4⟩,
   ⟨"RfLMX4x68Data_patch[7]", 204, 4⟩,
   ⟨"RfLMX4x68Data_patch[8]", 208, 4⟩,
   ⟨"RfLMX4x68Data_patch[9]", 212, 4⟩,
   ⟨"Ac", 267, 4⟩,
   ⟨"DeleteMmeiArr", 478, 16⟩,
   ⟨"DeleteIpui1", 494, 5⟩,
   ⟨"DeleteIpui2", 499, 5⟩,
   ⟨"Ipui1", 504, 5⟩,
   ⟨"Ipui2", 509, 5⟩,
   ⟨"Ipui3", 514, 5⟩,
   ⟨"Ipui4", 519, 5⟩,
   ⟨"Ipui5", 524, 5⟩,
   ⟨"Ipu6", 529, 5⟩,
   ⟨"Uak1", 534, 16⟩,
   ⟨"Uak2", 550, 16⟩,
   ⟨"Uak3", 566, 16⟩,
   ⟨"Uak4", 582, 16⟩,
   ⟨"Uak5", 598, 16⟩,
   ⟨"Uak6", 614, 16⟩,
   ⟨"PpCapability", 654, 16⟩,
   ⟨"InitialTestMode", 128, 1⟩,
   ⟨"Tbr_22", 272, 1⟩,
   ⟨"ClSelect", 271, 1⟩,
   ⟨"bNoEmissionEnable", 59, 1⟩,
   ⟨"AutoTest", 266, 1⟩]

/-- The table has an entry at this offset. -/
def Dumped (i : ℕ) : Prop := ∃ e ∈ nvsEntryTable, e.offset ≤ i ∧ i < e.offset + e.size

/-- Where the last entry ends. -/
def endofTable : ℕ := 670

/-! ## The text -/

/-- A digit of `%X`. -/
def upperDigit (n : ℕ) : Char := (Nat.digitChar n).toUpper

/-- `%-25s` -/
def nameText (name : String) : List Char := name.toList.rightpad 25 ' '

/-- `%04X` -/
def offsetText (n : ℕ) : List Char := ((Nat.toDigits 16 n).map Char.toUpper).leftpad 4 '0'

/-- `%2.2X ` -/
def byteText (b : UInt8) : List Char :=
  [upperDigit (b.toNat / 16), upperDigit (b.toNat % 16), ' ']

/-- `print_header` -/
def header : List Char := nameText "Name" ++ "\t\tOffset\tValue\n".toList

/-- The line about an entry, where `buf` is what lies in memory from the buffer on. -/
def dumpLine (buf : ℕ → UInt8) (e : NvsEntry) : List Char :=
  nameText e.name ++ "\t\t[".toList ++ offsetText e.offset ++ "]: ".toList ++
    (List.range e.size).flatMap (fun j => byteText (buf (e.offset + j))) ++ ['\n']

/-- What the program prints. -/
def dump (buf : ℕ → UInt8) : List Char := header ++ nvsEntryTable.flatMap (dumpLine buf)

/-! ## The program -/

/-- Which calls do not fail. -/
structure NvsCalls where
  /-- the copies of the file names are allocated -/
  named : Bool
  infileOpened : Bool
  sized : Bool
  allocated : Bool
  read : Bool
  outfileOpened : Bool

/-- How a run ends. -/
inductive NvsResult
  | failed
  | dumped (text : List Char)
  /-- `infile` or `outfile` is looked at and has not been set -/
  | undefined

/-- The characters that "i:o:" makes options. -/
def nvsTakes : Char → Option Bool := takesArg ['i', ':', 'o', ':']

/-- The option loop: `infile` and `outfile`, or an exit. -/
def nvsOptions (named : Bool) :
    Option Word × Option Word → List Found → Option (Option Word × Option Word)
  | v, [] => some v
  | (infile, outfile), f :: fs =>
    match f with
    | .option 'i' (some optarg) =>
      if named then nvsOptions named (some optarg, outfile) fs else none
    | .option 'o' (some optarg) =>
      if named then nvsOptions named (infile, some optarg) fs else none
    | _ => none

/-- The files by their names; there may be none. -/
abbrev Files := Word → Option (List UInt8)

/-- `main`: the files afterwards and what has become of the run.  `heap` is what lies in memory
behind the buffer. -/
def nvsparse (calls : NvsCalls) (heap : ℕ → UInt8) (argv : List Word) (files : Files) :
    Files × NvsResult :=
  match nvsOptions calls.named (none, none) (scan nvsTakes none argv) with
  | none => (files, .failed)
  | some (some infile, some outfile) =>
    match files infile with
    | none => (files, .failed)
    | some bytes =>
      if !calls.infileOpened then (files, .failed)
      else if !calls.sized then (files, .failed)
      else if !calls.allocated then (files, .failed)
      else if !calls.read then (files, .failed)
      else if !calls.outfileOpened then (files, .failed)
      -- `fopen` with "w+" empties the file, and nothing is written to it
      else (Function.update files outfile (some []), .dumped (dump (stored heap bytes)))
  | some _ => (files, .undefined)

/-! ## What the program prints of which file -/

/-- No call fails. -/
def NvsCalls.AllWork (calls : NvsCalls) : Prop :=
  calls.named = true ∧ calls.infileOpened = true ∧ calls.sized = true ∧
    calls.allocated = true ∧ calls.read = true ∧ calls.outfileOpened = true

/-- The argument of the last option of this character. -/
def lastGiven (c : Char) (os : List Getopt.Given) : Option Word :=
  (os.filterMap fun o => if o.1 = c then o.2 else none).getLast?

/-- The words are a way of writing options that name these files. -/
def Names (argv : List Word) (infile outfile : Word) : Prop :=
  ∃ os, Writes nvsTakes argv os ∧ lastGiven 'i' os = some infile ∧ lastGiven 'o' os = some outfile

/-- One more option is given first. -/
theorem lastGiven_cons (c : Char) (o : Getopt.Given) (os : List Getopt.Given) :
    lastGiven c (o :: os) = (lastGiven c os).or (if o.1 = c then o.2 else none) := by
  unfold lastGiven
  rw [List.filterMap_cons]
  split
  · next h => rw [h, Option.or_none]
  · next w h =>
      rw [h, List.getLast?_cons]
      cases (os.filterMap fun o => if o.1 = c then o.2 else none).getLast? <;> rfl

/-- The two options. -/
theorem eq_of_nvsTakes {o : Getopt.Given} (h : nvsTakes o.1 = some o.2.isSome) :
    ∃ w, o = ('i', some w) ∨ o = ('o', some w) := by
  obtain ⟨c, optarg⟩ := o
  have hmem : c ∈ ['i', ':', 'o', ':'] := mem_of_takesArg h
  have hletter : c = 'i' ∨ c = 'o' := by
    simp only [List.mem_cons, List.not_mem_nil, or_false] at hmem
    rcases hmem with rfl | rfl | rfl | rfl
    · exact .inl rfl
    · exact absurd h (by simp [nvsTakes, takesArg])
    · exact .inr rfl
    · exact absurd h (by simp [nvsTakes, takesArg])
  have harg : nvsTakes c = some true := by
    rcases hletter with rfl | rfl <;> decide
  rw [harg] at h
  obtain ⟨w, rfl⟩ := Option.isSome_iff_exists.mp (Option.some.inj h).symm
  exact ⟨w, hletter.imp (fun hc => by rw [hc]) (fun hc => by rw [hc])⟩

/-- What the option loop makes of options. -/
theorem nvsOptions_found {os : List Getopt.Given}
    (hos : ∀ o ∈ os, nvsTakes o.1 = some o.2.isSome) (infile outfile : Option Word) :
    nvsOptions true (infile, outfile) (found os) =
      some ((lastGiven 'i' os).or infile, (lastGiven 'o' os).or outfile) := by
  induction os generalizing infile outfile with
  | nil => rfl
  | cons o os ih =>
      obtain ⟨ho, hrest⟩ := List.forall_mem_cons.mp hos
      obtain ⟨w, rfl | rfl⟩ := eq_of_nvsTakes ho
      · rw [found_cons, nvsOptions, if_pos rfl, ih hrest, lastGiven_cons, lastGiven_cons]
        simp
      · rw [found_cons, nvsOptions, if_pos rfl, ih hrest, lastGiven_cons, lastGiven_cons]
        simp

/-- **A run that works** prints the dump of the file that is named, and empties the other. -/
theorem nvsparse_of_names {calls : NvsCalls} (hworks : calls.AllWork) {argv : List Word}
    {infile outfile : Word} (hnames : Names argv infile outfile) {files : Files}
    {bytes : List UInt8} (hfile : files infile = some bytes) (heap : ℕ → UInt8) :
    nvsparse calls heap argv files =
      (Function.update files outfile (some []), .dumped (dump (stored heap bytes))) := by
  obtain ⟨hnamed, hopened, hsized, hallocated, hread, hopened'⟩ := hworks
  obtain ⟨os, hos, hin, hout⟩ := hnames
  have hoptions : nvsOptions calls.named (none, none) (scan nvsTakes none argv) =
      some (some infile, some outfile) := by
    rw [hnamed, scan_of_writes (by decide) hos, nvsOptions_found (takes_eq_of_writes hos), hin,
      hout]
    rfl
  unfold nvsparse
  simp only [hoptions, hfile, hopened, hsized, hallocated, hread, hopened']
  rfl

/-! ## Which bytes are shown -/

theorem byteText_inj {a b : UInt8} (h : byteText a = byteText b) : a = b := by
  have hdigit : ∀ m < 16, ∀ n < 16, upperDigit m = upperDigit n → m = n := by decide
  obtain ⟨hhigh, htail⟩ := List.cons.inj h
  exact byte_inj hdigit hhigh (List.cons.inj htail).1

/-- A line shows the bytes of its entry. -/
theorem dumpLine_eq_iff {buf buf' : ℕ → UInt8} {e : NvsEntry} :
    dumpLine buf e = dumpLine buf' e ↔
      ∀ j < e.size, buf (e.offset + j) = buf' (e.offset + j) := by
  unfold dumpLine
  rw [List.append_cancel_right_eq, List.append_cancel_left_eq,
    flatMap_eq_flatMap_iff (by intros; rfl)]
  simp only [List.mem_range]
  exact forall₂_congr fun j _ => ⟨byteText_inj, fun h => by rw [h]⟩

theorem length_dumpLine (buf buf' : ℕ → UInt8) (e : NvsEntry) :
    (dumpLine buf e).length = (dumpLine buf' e).length := by
  unfold dumpLine
  simp only [List.length_append, List.length_flatMap]
  rfl

/-- The lines show the bytes that the table covers. -/
theorem lines_eq_iff {buf buf' : ℕ → UInt8} :
    nvsEntryTable.map (dumpLine buf) = nvsEntryTable.map (dumpLine buf') ↔
      ∀ i, Dumped i → buf i = buf' i := by
  rw [List.map_inj_left]
  constructor
  · rintro h i ⟨e, he, hlow, hhigh⟩
    have hbyte := dumpLine_eq_iff.mp (h e he) (i - e.offset) (by omega)
    rwa [Nat.add_sub_cancel' hlow] at hbyte
  · intro h e he
    exact dumpLine_eq_iff.mpr fun j hj => h _ ⟨e, he, Nat.le_add_right _ _, by omega⟩

/-- **The dump** shows the bytes that the table covers. -/
theorem dump_eq_iff {buf buf' : ℕ → UInt8} :
    dump buf = dump buf' ↔ ∀ i, Dumped i → buf i = buf' i := by
  rw [dump, dump, List.append_cancel_left_eq,
    flatMap_eq_flatMap_iff (fun e _ => length_dumpLine buf buf' e), ← List.map_inj_left,
    lines_eq_iff]

/-- The table ends where its last entry does. -/
theorem lt_endofTable {i : ℕ} (h : Dumped i) : i < endofTable := by
  have hall : ∀ e ∈ nvsEntryTable, e.offset + e.size ≤ endofTable := by decide
  obtain ⟨e, he, -, hi⟩ := h
  exact hi.trans_le (hall e he)

/-- The last entry ends there. -/
theorem dumped_last : Dumped (endofTable - 1) :=
  ⟨⟨"PpCapability", 654, 16⟩, by decide, by decide, by decide⟩

/-- What lies behind a shorter file is shown. -/
theorem endofTable_le_of_dump_eq {bytes : List UInt8} {text : List Char}
    (h : ∀ heap, dump (stored heap bytes) = text) : endofTable ≤ bytes.length := by
  by_contra hshort
  have hbehind : bytes.length ≤ endofTable - 1 := by
    unfold endofTable at hshort ⊢
    omega
  have hsame := (h fun _ => 0).trans (h fun _ => 1).symm
  have hlast := dump_eq_iff.mp hsame _ dumped_last
  rw [stored_of_le _ hbehind, stored_of_le _ hbehind] at hlast
  exact absurd hlast (by decide)

/-- **Two files print alike**, whatever lies behind them in memory, exactly when both reach to the
end of the table and have the same bytes wherever it has an entry. -/
theorem prints_alike_iff {calls : NvsCalls} (hworks : calls.AllWork) {argv : List Word}
    {infile outfile : Word} (hnames : Names argv infile outfile) {files files' : Files}
    {bytes bytes' : List UInt8} (hfile : files infile = some bytes)
    (hfile' : files' infile = some bytes') :
    (∀ heap heap', (nvsparse calls heap argv files).2 = (nvsparse calls heap' argv files').2) ↔
      endofTable ≤ bytes.length ∧ endofTable ≤ bytes'.length ∧
        ∀ i, Dumped i → bytes[i]? = bytes'[i]? := by
  simp only [nvsparse_of_names hworks hnames hfile, nvsparse_of_names hworks hnames hfile',
    NvsResult.dumped.injEq]
  constructor
  · intro h
    have hlen : endofTable ≤ bytes.length :=
      endofTable_le_of_dump_eq fun heap => h heap fun _ => 0
    have hlen' : endofTable ≤ bytes'.length :=
      endofTable_le_of_dump_eq fun heap' => (h (fun _ => 0) heap').symm
    refine ⟨hlen, hlen', fun i hi => ?_⟩
    have hlt := (lt_endofTable hi).trans_le hlen
    have hlt' := (lt_endofTable hi).trans_le hlen'
    have hbyte := dump_eq_iff.mp (h (fun _ => 0) fun _ => 0) i hi
    rw [stored_of_lt _ hlt, stored_of_lt _ hlt'] at hbyte
    rw [List.getElem?_eq_getElem hlt, List.getElem?_eq_getElem hlt', hbyte]
  · rintro ⟨hlen, hlen', h⟩ heap heap'
    refine dump_eq_iff.mpr fun i hi => ?_
    have hlt := (lt_endofTable hi).trans_le hlen
    have hbyte := (h i hi).symm.trans (List.getElem?_eq_getElem hlt)
    rw [stored_of_lt _ hlt, stored_of_getElem? hbyte]

/-- Files that all have this content. -/
def sameFiles (bytes : List UInt8) : Files := fun _ => some bytes

/-- "nvsparse -o out -i nvs" -/
def nvsLine : List Word := [['-', 'o'], ['o', 'u', 't'], ['-', 'i'], ['n', 'v', 's']]

theorem names_nvsLine : Names nvsLine ['n', 'v', 's'] ['o', 'u', 't'] := by
  have hi : Writes nvsTakes [['-', 'i'], ['n', 'v', 's']] [('i', some ['n', 'v', 's'])] :=
    .separate (List.forall_mem_nil _) (by decide) .nil
  exact ⟨_, .separate (List.forall_mem_nil _) (by decide) hi, by decide, by decide⟩

/-- What a file, and memory, has behind the end of the table is not shown. -/
theorem longer_file_prints_alike :
    (nvsparse ⟨true, true, true, true, true, true⟩ (fun _ => 1) nvsLine
        (sameFiles (List.replicate 670 0))).2 =
      (nvsparse ⟨true, true, true, true, true, true⟩ (fun _ => 2) nvsLine
        (sameFiles (List.replicate 700 0))).2 := by
  refine (prints_alike_iff ⟨rfl, rfl, rfl, rfl, rfl, rfl⟩ names_nvsLine rfl rfl).mpr
    ⟨?_, ?_, fun i hi => ?_⟩ _ _
  · rw [List.length_replicate, endofTable]
  · rw [List.length_replicate, endofTable]
    omega
  have hlt := lt_endofTable hi
  unfold endofTable at hlt
  rw [List.getElem?_replicate, List.getElem?_replicate, if_pos hlt, if_pos (by omega)]

/-! ## The dump after `dectcalib` -/

/-- The table has one entry for the byte of the test mode. -/
theorem name_of_testmode {e : NvsEntry} (he : e ∈ nvsEntryTable) (hlow : e.offset ≤ testmodeOffset)
    (hhigh : testmodeOffset < e.offset + e.size) : e.name = "InitialTestMode" := by
  have hall : ∀ e ∈ nvsEntryTable, e.offset ≤ testmodeOffset →
      testmodeOffset < e.offset + e.size → e.name = "InitialTestMode" := by
    decide
  exact hall e he hlow hhigh

theorem dumped_testmode : Dumped testmodeOffset :=
  ⟨⟨"InitialTestMode", 128, 1⟩, by decide, by decide, by decide⟩

/-- Two bytes are stored alike if their bits are the same. -/
theorem stored_eq_iff_bit {heap heap' : ℕ → UInt8} {file file' : List UInt8} {i : ℕ}
    (h : i < file.length) (h' : i < file'.length) :
    stored heap file i = stored heap' file' i ↔ ∀ k, bit file i k = bit file' i k := by
  rw [stored_of_lt heap h, stored_of_lt heap' h', ← getD_eq_iff_bit, List.getD_eq_getElem _ _ h,
    List.getD_eq_getElem _ _ h']

/-- **`dectcalib` changes one line** of what is printed, however often it runs; and it changes this
exactly when the last run that sets test mode sets it to something new. -/
theorem dump_after_dectcalib {calls : NvsCalls} (hworks : calls.AllWork) {argv : List Word}
    {infile outfile : Word} (hnames : Names argv infile outfile) {files : Files}
    {nvs : List UInt8} (hfile : files infile = some nvs) (hlen : endofTable ≤ nvs.length)
    (runs : List (FileCalls × List Word)) (heap heap' : ℕ → UInt8) :
    ∃ lines lines' : List (List Char),
      (nvsparse calls heap argv files).2 = .dumped (header ++ lines.flatten) ∧
      (nvsparse calls heap' argv
          (Function.update files infile (some (calibrations runs nvs)))).2 =
        .dumped (header ++ lines'.flatten) ∧
      (∀ (k : ℕ) e, nvsEntryTable[k]? = some e → e.name ≠ "InitialTestMode" →
        lines'[k]? = lines[k]?) ∧
      (lines' = lines ↔ ∀ enable, LastSets runs enable → bit nvs testmodeOffset 0 = enable) := by
  have hfile' : Function.update files infile (some (calibrations runs nvs)) infile =
      some (calibrations runs nvs) := Function.update_self _ _ _
  have hstored {i : ℕ} (hi : Dumped i) :
      stored heap' (calibrations runs nvs) i = stored heap nvs i ↔
        ∀ k, bit (calibrations runs nvs) i k = bit nvs i k := by
    have hlt := (lt_endofTable hi).trans_le hlen
    exact stored_eq_iff_bit (hlt.trans_le (le_length_calibrations runs nvs)) hlt
  refine ⟨nvsEntryTable.map (dumpLine (stored heap nvs)),
    nvsEntryTable.map (dumpLine (stored heap' (calibrations runs nvs))), ?_, ?_, ?_, ?_⟩
  · rw [nvsparse_of_names hworks hnames hfile, dump, List.flatMap_def]
  · rw [nvsparse_of_names hworks hnames hfile', dump, List.flatMap_def]
  · intro k e hk hname
    rw [List.getElem?_map, List.getElem?_map, hk, Option.map_some, Option.map_some]
    have he : e ∈ nvsEntryTable := List.mem_of_getElem? hk
    refine congrArg some (dumpLine_eq_iff.mpr fun j hj => ?_)
    have hin : Dumped (e.offset + j) := ⟨e, he, Nat.le_add_right _ _, by omega⟩
    have hother : e.offset + j ≠ testmodeOffset := fun h =>
      hname (name_of_testmode he (by omega) (by omega))
    exact (hstored hin).mpr fun k => bit_calibrations runs nvs (.inl hother)
  · rw [lines_eq_iff]
    constructor
    · intro h enable hlast
      have hbits := (hstored dumped_testmode).mp (h _ dumped_testmode)
      rw [← hbits 0, bit_testmode hlast]
    · intro h i hin
      refine (hstored hin).mpr fun k => ?_
      by_cases htest : i ≠ testmodeOffset ∨ k ≠ 0
      · exact bit_calibrations runs nvs htest
      · obtain ⟨rfl, rfl⟩ : i = testmodeOffset ∧ k = 0 := by omega
        rcases lastSets_or runs with ⟨enable, hlast⟩ | hnone
        · rw [bit_testmode hlast, h enable hlast]
        · rw [calibrations_of_not_sets hnone]

/-- Test mode is enabled in a file of zeros, and one line shows it. -/
theorem enabled_testmode_shown :
    ∃ lines lines' : List (List Char),
      (nvsparse ⟨true, true, true, true, true, true⟩ (fun _ => 1) nvsLine
        (sameFiles (List.replicate 670 0))).2 = .dumped (header ++ lines.flatten) ∧
      (nvsparse ⟨true, true, true, true, true, true⟩ (fun _ => 2) nvsLine
          (Function.update (sameFiles (List.replicate 670 0)) ['n', 'v', 's']
            (some (calibrations testmodeRuns (List.replicate 670 0))))).2 =
        .dumped (header ++ lines'.flatten) ∧
      lines' ≠ lines ∧ lines'[0]? = lines[0]? := by
  have hzero : bit (List.replicate 670 0) testmodeOffset 0 = false := by
    rw [bit, List.getD_replicate 0 (by decide)]
    decide
  have hlen : endofTable ≤ (List.replicate 670 (0 : UInt8)).length := by
    rw [List.length_replicate, endofTable]
  obtain ⟨lines, lines', hbefore, hafter, hsame, hchanged⟩ :=
    @dump_after_dectcalib ⟨true, true, true, true, true, true⟩ ⟨rfl, rfl, rfl, rfl, rfl, rfl⟩
      nvsLine ['n', 'v', 's'] ['o', 'u', 't'] names_nvsLine (sameFiles (List.replicate 670 0))
      (List.replicate 670 0) rfl hlen testmodeRuns (fun _ => 1) (fun _ => 2)
  refine ⟨lines, lines', hbefore, hafter, fun heq => ?_, hsame 0 _ rfl (by decide)⟩
  have htrue := hchanged.mp heq true lastSets_testmodeRuns
  rw [hzero] at htrue
  cases htrue

end DectManager
