/-
# The options of a command line

A command line is a list of words.  `scan` finds what successive calls of `getopt`
return for it: the options of each word that begins with a dash, an argument from
the rest of the word or, if nothing is left of it, from the next one.  Words that
are no options are passed over, and `--` ends the options.  `atoi` reads a number
from an argument.

* `Writes` says that some words are a way of writing some options: alone or
  several in a word, with the argument in the same word or in the next.
* `scan_eq_iff`: `getopt` finds some options, and complains about nothing, exactly
  when the words are a way of writing these.
* `atoi_decimal`: a number that is written in decimal is read back.
-/
import Mathlib.Data.List.Basic
import Mathlib.Data.Int.Notation
import Mathlib.Data.List.TakeWhile
import Mathlib.Tactic.Common

namespace Getopt

/-- A word of a command line. -/
abbrev Word := List Char

/-- What one call of `getopt` returns: an option, with `optarg` if it takes an argument, or `'?'`
for a character that is no option, or for an option whose argument is missing. -/
inductive Found
  | option (c : Char) (optarg : Option Word)
  | unknown (c : Char)
  deriving DecidableEq, Repr

/-- What an option string says of a character: whether it is an option, and whether this takes an
argument. -/
def takesArg (optstring : Word) (c : Char) : Option Bool :=
  if c = ':' then none
  else match optstring.dropWhile (fun d => decide (d ≠ c)) with
    | [] => none
    | _ :: rest => some (decide (rest.head? = some ':'))

variable (takes : Char → Option Bool)

/-- The characters of a word behind its dash: what they are, and the option that still wants an
argument. -/
def cluster : Word → List Found × Option Char
  | [] => ([], none)
  | c :: cs =>
    match takes c with
    | none => (.unknown c :: (cluster cs).1, (cluster cs).2)
    | some false => (.option c none :: (cluster cs).1, (cluster cs).2)
    | some true => if cs = [] then ([], some c) else ([.option c (some cs)], none)

/-- The word is no option: it does not begin with a dash, or it is nothing else. -/
def IsOperand (w : Word) : Prop := w = ['-'] ∨ w.head? ≠ some '-'

/-- What `getopt` returns for the words that are left, if an option wants an argument or none
does. -/
def scan : Option Char → List Word → List Found
  | none, [] => []
  | some c, [] => [.unknown c]
  | some c, w :: ws => .option c (some w) :: scan none ws
  | none, w :: ws =>
    match w with
    | ['-', '-'] => []
    | '-' :: c :: cs => (cluster takes (c :: cs)).1 ++ scan (cluster takes (c :: cs)).2 ws
    | _ => scan none ws

/-! ## Ways of writing options -/

/-- An option and its argument, if it takes one. -/
abbrev Given := Char × Option Word

/-- All characters are options without an argument. -/
def Flags (cs : Word) : Prop := ∀ c ∈ cs, takes c = some false

/-- What some flags are. -/
def flags (cs : Word) : List Given := cs.map fun c => (c, none)

/-- The words are a way of writing the options. -/
inductive Writes : List Word → List Given → Prop
  | nil : Writes [] []
  /-- nothing is an option behind `--` -/
  | ended (ws : List Word) : Writes (['-', '-'] :: ws) []
  | operand {w : Word} {ws : List Word} {os : List Given} (hw : IsOperand w) (h : Writes ws os) :
      Writes (w :: ws) os
  /-- flags, one or several in a word -/
  | flags {cs : Word} {ws : List Word} {os : List Given} (hne : cs ≠ []) (hcs : Flags takes cs)
      (h : Writes ws os) : Writes (('-' :: cs) :: ws) (flags cs ++ os)
  /-- an option with its argument in the same word, perhaps behind some flags -/
  | attached {cs : Word} {c : Char} {optarg : Word} {ws : List Word} {os : List Given}
      (hcs : Flags takes cs) (hc : takes c = some true) (hne : optarg ≠ []) (h : Writes ws os) :
      Writes (('-' :: (cs ++ c :: optarg)) :: ws) (flags cs ++ (c, some optarg) :: os)
  /-- an option with its argument in the next word, which may look like an option -/
  | separate {cs : Word} {c : Char} {optarg : Word} {ws : List Word} {os : List Given}
      (hcs : Flags takes cs) (hc : takes c = some true) (h : Writes ws os) :
      Writes (('-' :: (cs ++ [c])) :: optarg :: ws) (flags cs ++ (c, some optarg) :: os)

/-- What is found for some options. -/
def found (os : List Given) : List Found := os.map fun o => .option o.1 o.2

@[simp] theorem found_cons (o : Given) (os : List Given) :
    found (o :: os) = .option o.1 o.2 :: found os := rfl

@[simp] theorem found_append (os os' : List Given) : found (os ++ os') = found os ++ found os' :=
  List.map_append

@[simp] theorem flags_append (cs cs' : Word) : flags (cs ++ cs') = flags cs ++ flags cs' :=
  List.map_append

variable {takes}

/-! ## One word -/

/-- Flags come first. -/
theorem cluster_flags {cs : Word} (hcs : Flags takes cs) (rest : Word) :
    cluster takes (cs ++ rest) =
      (found (flags cs) ++ (cluster takes rest).1, (cluster takes rest).2) := by
  induction cs with
  | nil => rfl
  | cons c cs ih =>
      obtain ⟨hc, hrest⟩ := List.forall_mem_cons.mp hcs
      rw [List.cons_append, cluster, hc, ih hrest]
      rfl

/-- **One word** in which nothing is unknown: flags, and perhaps an option that takes the rest of
the word, or wants an argument. -/
theorem cluster_cases {cs : Word} {os : List Given} (h : (cluster takes cs).1 = found os) :
    (Flags takes cs ∧ os = flags cs ∧ (cluster takes cs).2 = none) ∨
      (∃ fs c optarg, cs = fs ++ c :: optarg ∧ Flags takes fs ∧ takes c = some true ∧
        optarg ≠ [] ∧ os = flags fs ++ [(c, some optarg)] ∧ (cluster takes cs).2 = none) ∨
      ∃ fs c, cs = fs ++ [c] ∧ Flags takes fs ∧ takes c = some true ∧ os = flags fs ∧
        (cluster takes cs).2 = some c := by
  induction cs generalizing os with
  | nil =>
      obtain rfl : os = [] := List.map_eq_nil_iff.mp h.symm
      exact .inl ⟨List.forall_mem_nil _, rfl, rfl⟩
  | cons c cs ih =>
      unfold cluster at h ⊢
      cases hc : takes c with
      | none =>
          -- an unknown character is no option
          simp only [hc] at h
          cases os with
          | nil => cases h
          | cons o os => cases (List.cons.inj h).1
      | some takesOne =>
          cases takesOne with
          | false =>
              simp only [hc] at h ⊢
              cases os with
              | nil => cases h
              | cons o os =>
                  obtain ⟨ho, hos⟩ := List.cons.inj h
                  obtain ⟨hchar, harg⟩ := Found.option.inj ho
                  obtain rfl : o = (c, none) := Prod.ext hchar.symm harg.symm
                  have hcons {fs : Word} (hfs : Flags takes fs) : Flags takes (c :: fs) :=
                    List.forall_mem_cons.mpr ⟨hc, hfs⟩
                  rcases ih hos with ⟨hfs, rfl, hnone⟩ |
                    ⟨fs, d, optarg, rfl, hfs, hd, hne, rfl, hnone⟩ |
                    ⟨fs, d, rfl, hfs, hd, rfl, hsome⟩
                  · exact .inl ⟨hcons hfs, rfl, hnone⟩
                  · exact .inr (.inl ⟨c :: fs, d, optarg, rfl, hcons hfs, hd, hne, rfl, hnone⟩)
                  · exact .inr (.inr ⟨c :: fs, d, rfl, hcons hfs, hd, rfl, hsome⟩)
          | true =>
              simp only [hc] at h ⊢
              split_ifs at h ⊢ with hcs
              · subst hcs
                obtain rfl : os = [] := List.map_eq_nil_iff.mp h.symm
                exact .inr (.inr ⟨[], c, rfl, List.forall_mem_nil _, hc, rfl, rfl⟩)
              · cases os with
                | nil => cases h
                | cons o os =>
                    obtain ⟨ho, hos⟩ := List.cons.inj h
                    obtain ⟨hchar, harg⟩ := Found.option.inj ho
                    obtain rfl : o = (c, some cs) := Prod.ext hchar.symm harg.symm
                    obtain rfl : os = [] := List.map_eq_nil_iff.mp hos.symm
                    exact .inr (.inl
                      ⟨[], c, cs, rfl, List.forall_mem_nil _, hc, hcs, rfl, rfl⟩)

/-! ## The whole line -/

/-- A word ends the options, is no option, or has some behind its dash. -/
theorem word_cases (w : Word) :
    w = ['-', '-'] ∨ IsOperand w ∨ ∃ c cs, w = '-' :: c :: cs ∧ c :: cs ≠ ['-'] := by
  match w with
  | [] => exact .inr (.inl (.inr (by simp)))
  | d :: cs =>
      by_cases hd : d = '-'
      · subst hd
        match cs with
        | [] => exact .inr (.inl (.inl rfl))
        | c :: cs =>
            by_cases hend : c :: cs = ['-']
            · exact .inl (by rw [hend])
            · exact .inr (.inr ⟨c, cs, rfl, hend⟩)
      · exact .inr (.inl (.inr (by simpa using hd)))

theorem scan_operand {w : Word} (hw : IsOperand w) (ws : List Word) :
    scan takes none (w :: ws) = scan takes none ws := by
  rcases hw with rfl | hw
  · rfl
  · match w with
    | [] => rfl
    | d :: cs =>
        have hd : d ≠ '-' := by simpa using hw
        rw [scan]
        all_goals simp [hd]

theorem scan_word {c : Char} {cs : Word} (h : c :: cs ≠ ['-']) (ws : List Word) :
    scan takes none (('-' :: c :: cs) :: ws) =
      (cluster takes (c :: cs)).1 ++ scan takes (cluster takes (c :: cs)).2 ws := by
  rw [scan]
  rintro rfl rfl
  exact h rfl

/-- A word of options does not end them, if a dash is no option. -/
theorem ne_dash (hdash : takes '-' = none) {c : Char} {b : Bool} (hc : takes c = some b) :
    c ≠ '-' := by
  rintro rfl
  rw [hdash] at hc
  cases hc

/-- The words behind a dash that begin with an option. -/
theorem scan_options (hdash : takes '-' = none) {cs : Word} {c : Char} {b : Bool} {rest : Word}
    (hcs : Flags takes cs) (hc : takes c = some b) (ws : List Word) :
    scan takes none (('-' :: (cs ++ c :: rest)) :: ws) =
      found (flags cs) ++
        ((cluster takes (c :: rest)).1 ++ scan takes (cluster takes (c :: rest)).2 ws) := by
  cases cs with
  | nil =>
      rw [List.nil_append, scan_word]
      · rfl
      · intro h
        exact ne_dash hdash hc (List.cons.inj h).1
  | cons d cs =>
      have hd : takes d = some false := hcs d List.mem_cons_self
      have hcluster := cluster_flags hcs (c :: rest)
      rw [List.cons_append] at hcluster ⊢
      rw [scan_word, hcluster, List.append_assoc]
      intro h
      exact ne_dash hdash hd (List.cons.inj h).1

/-- **What has been written is found.** -/
theorem scan_of_writes (hdash : takes '-' = none) {ws : List Word} {os : List Given}
    (h : Writes takes ws os) : scan takes none ws = found os := by
  induction h with
  | nil => rfl
  | ended ws => rfl
  | operand hw _ ih => rw [scan_operand hw, ih]
  | @flags cs ws os hne hcs _ ih =>
      -- the last of the flags
      obtain ⟨fs, c, rfl⟩ := List.eq_nil_or_concat' cs |>.resolve_left hne
      have hc : takes c = some false := hcs c (by simp)
      have hfs : Flags takes fs := fun d hd => hcs d (List.mem_append_left _ hd)
      rw [scan_options hdash hfs hc, found_append, ← ih, flags_append, found_append, cluster, hc,
        List.append_assoc]
      rfl
  | @attached cs c optarg ws os hcs hc hne _ ih =>
      rw [scan_options hdash hcs hc, found_append, found_cons, ← ih, cluster, hc]
      simp only [if_neg hne]
      rfl
  | @separate cs c optarg ws os hcs hc _ ih =>
      rw [scan_options hdash hcs hc, found_append, found_cons, ← ih, cluster, hc]
      rfl

/-- **What is found has been written**, whether an option wants an argument first or none does. -/
theorem writes_of_scan (ws : List Word) :
    (∀ os, scan takes none ws = found os → Writes takes ws os) ∧
      ∀ c os, scan takes (some c) ws = found os →
        ∃ optarg ws' os', ws = optarg :: ws' ∧ os = (c, some optarg) :: os' ∧
          Writes takes ws' os' := by
  induction ws with
  | nil =>
      constructor
      · intro os h
        obtain rfl : os = [] := List.map_eq_nil_iff.mp h.symm
        exact .nil
      · intro c os h
        cases os with
        | nil => cases h
        | cons o os => cases (List.cons.inj h).1
  | cons w ws ih =>
      obtain ⟨hnone, hsome⟩ := ih
      constructor
      · intro os h
        rcases word_cases w with rfl | hw | ⟨c, cs, rfl, hend⟩
        · obtain rfl : os = [] := List.map_eq_nil_iff.mp h.symm
          exact .ended ws
        · rw [scan_operand hw] at h
          exact .operand hw (hnone os h)
        · rw [scan_word hend] at h
          obtain ⟨os₁, os₂, rfl, hword, hrest⟩ := List.map_eq_append_iff.mp h.symm
          rcases cluster_cases hword.symm with ⟨hfs, rfl, hwant⟩ |
              ⟨fs, d, optarg, hcs, hfs, hd, hne, rfl, hwant⟩ |
              ⟨fs, d, hcs, hfs, hd, rfl, hwant⟩
          · rw [hwant] at hrest
            exact .flags (List.cons_ne_nil c cs) hfs (hnone os₂ hrest.symm)
          · rw [hwant] at hrest
            rw [hcs, List.append_assoc]
            exact .attached hfs hd hne (hnone os₂ hrest.symm)
          · rw [hwant] at hrest
            obtain ⟨optarg, ws', os', rfl, rfl, hws'⟩ := hsome d os₂ hrest.symm
            rw [hcs]
            exact .separate hfs hd hws'
      · intro c os h
        cases os with
        | nil => cases h
        | cons o os =>
            obtain ⟨ho, hos⟩ := List.cons.inj h
            obtain ⟨hchar, harg⟩ := Found.option.inj ho
            obtain rfl : o = (c, some w) := Prod.ext hchar.symm harg.symm
            exact ⟨w, ws, os, rfl, rfl, hnone os hos⟩

/-- Each option comes with an argument if it takes one. -/
theorem takes_eq_of_writes {ws : List Word} {os : List Given} (h : Writes takes ws os) :
    ∀ o ∈ os, takes o.1 = some o.2.isSome := by
  have hflags {cs : Word} (hcs : Flags takes cs) :
      ∀ o ∈ flags cs, takes o.1 = some o.2.isSome := by
    intro o ho
    obtain ⟨c, hc, rfl⟩ := List.mem_map.mp ho
    exact hcs c hc
  induction h with
  | nil | ended _ => exact List.forall_mem_nil _
  | operand _ _ ih => exact ih
  | flags _ hcs _ ih => exact List.forall_mem_append.mpr ⟨hflags hcs, ih⟩
  | attached hcs hc _ _ ih | separate hcs hc _ ih =>
      exact List.forall_mem_append.mpr ⟨hflags hcs, List.forall_mem_cons.mpr ⟨hc, ih⟩⟩

/-- What an option string does not contain is no option. -/
theorem mem_of_takesArg {optstring : Word} {c : Char} {b : Bool}
    (h : takesArg optstring c = some b) : c ∈ optstring := by
  by_contra hc
  have hdrop : optstring.dropWhile (fun d => decide (d ≠ c)) = [] := by
    refine List.dropWhile_eq_nil_iff.mpr fun d hd => decide_eq_true ?_
    rintro rfl
    exact hc hd
  unfold takesArg at h
  rw [hdrop] at h
  split_ifs at h

/-- **The options of a command line**: `getopt` finds these, and complains about nothing, exactly
when the words are a way of writing them. -/
theorem scan_eq_iff (hdash : takes '-' = none) {ws : List Word} {os : List Given} :
    scan takes none ws = found os ↔ Writes takes ws os :=
  ⟨(writes_of_scan ws).1 os, scan_of_writes hdash⟩

/-- There are such options if nothing is unknown. -/
theorem no_unknown_iff (hdash : takes '-' = none) {ws : List Word} :
    (∀ c, Found.unknown c ∉ scan takes none ws) ↔ ∃ os, Writes takes ws os := by
  constructor
  · intro h
    have hall (l : List Found) (hl : ∀ c, Found.unknown c ∉ l) : ∃ os, l = found os := by
      induction l with
      | nil => exact ⟨[], rfl⟩
      | cons f l ih =>
          obtain ⟨os, rfl⟩ := ih fun c hc => hl c (List.mem_cons_of_mem _ hc)
          cases f with
          | option c optarg => exact ⟨(c, optarg) :: os, rfl⟩
          | unknown c => exact absurd List.mem_cons_self (hl c)
    obtain ⟨os, hos⟩ := hall _ h
    exact ⟨os, (scan_eq_iff hdash).mp hos⟩
  · rintro ⟨os, hos⟩ c hc
    rw [scan_of_writes hdash hos] at hc
    obtain ⟨o, -, ho⟩ := List.mem_map.mp hc
    cases ho

/-! ## Numbers -/

/-- What `atoi` skips. -/
def isSpace (c : Char) : Bool := c = ' ' || ('\t' ≤ c && c ≤ '\r')

/-- The digits that a word begins with. -/
def digits (w : Word) : ℕ := Nat.ofDigitChars 10 (w.takeWhile Char.isDigit) 0

/-- The number that a word begins with: white space, a sign and digits. -/
def number (w : Word) : ℤ :=
  match w.dropWhile isSpace with
  | '-' :: rest => -(digits rest : ℤ)
  | '+' :: rest => digits rest
  | rest => digits rest

/-- The values of an `int`. -/
def IsInt (n : ℤ) : Prop := -0x80000000 ≤ n ∧ n < 0x80000000

instance (n : ℤ) : Decidable (IsInt n) := inferInstanceAs (Decidable (_ ∧ _))

/-- What `atoi` returns; `beyond` says what it makes of a number that is no `int`, which C leaves
undefined. -/
def atoi (beyond : Word → ℤ) (w : Word) : ℤ := if IsInt (number w) then number w else beyond w

/-- A number in decimal. -/
def decimal (n : ℤ) : Word :=
  if n < 0 then '-' :: Nat.toDigits 10 n.natAbs else Nat.toDigits 10 n.natAbs

/-- The digits of a number are read back. -/
theorem digits_toDigits (n : ℕ) : digits (Nat.toDigits 10 n) = n := by
  have hall : (Nat.toDigits 10 n).takeWhile Char.isDigit = Nat.toDigits 10 n :=
    List.takeWhile_eq_self_iff.mpr fun c hc =>
      Nat.isDigit_of_mem_toDigits (by decide) (by decide) hc
  rw [digits, hall, Nat.ofDigitChars_ten_toDigits]

/-- No white space and no sign stands before digits. -/
theorem number_of_isDigit {w : Word} (hne : w ≠ []) (hw : ∀ c ∈ w, c.isDigit = true) :
    number w = digits w := by
  obtain ⟨c, cs, rfl⟩ := List.exists_cons_of_ne_nil hne
  have hc : c.isDigit = true := hw c List.mem_cons_self
  have hspace : isSpace c = false := by
    have hlow : '0'.toNat ≤ c.toNat := (Char.isDigit_iff_toNat.mp hc).1
    refine Bool.eq_false_iff.mpr fun h => ?_
    rcases (Bool.or_eq_true _ _).mp h with hblank | htab
    · rw [of_decide_eq_true hblank] at hlow
      revert hlow
      decide
    · have hle : c ≤ '\r' := of_decide_eq_true ((Bool.and_eq_true _ _).mp htab).2
      have hle : c.toNat ≤ 13 := hle
      have hlow : 48 ≤ c.toNat := hlow
      omega
  rw [number, List.dropWhile_cons_of_neg (by simp [hspace])]
  split
  · next h => rw [(List.cons.inj h).1] at hc; cases hc
  · next h => rw [(List.cons.inj h).1] at hc; cases hc
  · rfl

/-- The number of a decimal. -/
theorem number_decimal (n : ℤ) : number (decimal n) = n := by
  unfold decimal
  split_ifs with hneg
  · show -(digits (Nat.toDigits 10 n.natAbs) : ℤ) = n
    rw [digits_toDigits]
    omega
  · have hne : Nat.toDigits 10 n.natAbs ≠ [] := Nat.toDigits_ne_nil
    rw [number_of_isDigit hne fun c hc => Nat.isDigit_of_mem_toDigits (by decide) (by decide) hc,
      digits_toDigits]
    omega

/-- **A number in decimal is read back.** -/
theorem atoi_decimal (beyond : Word → ℤ) {n : ℤ} (h : IsInt n) :
    atoi beyond (decimal n) = n := by
  rw [atoi, number_decimal, if_pos h]

end Getopt
