import TypedScript.Lexer.Numeral
import TypedScript.Proofs.Numeral.Written

/-! # The loop over digits and separators

The digits of a run are taken one at a time in 64 bits: the value wraps around, and a flag
stays set from the first multiplication or addition that overflows. What comes of it are the
low 64 bits of the number that the digits denote, and whether there are more. A separator is
judged by where the last one ended. It is at fault if no character of the run stands in
front of it, or another separator, or a lone zero, and the last one is if it ends the run.
-/

namespace TypedScript.Lexer

open Text Numeral

variable {r : Radix} {run : List Char} {n k : Nat}

def Digits.low (n : Nat) : Digits :=
  ⟨.ofNat n, UInt64.size ≤ n⟩

theorem toNat_ofNat_of_lt_base (h : k < r.base) : (UInt64.ofNat k).toNat = k := by
  have hsmall : k < 16 := Nat.lt_of_lt_of_le h r.base_le_sixteen
  exact UInt64.toNat_ofNat_of_lt' (Nat.lt_trans hsmall (by decide))

theorem toNat_ofNat_base (r : Radix) : (UInt64.ofNat r.base).toNat = r.base := by
  cases r <;> rfl

/-- A digit is checked by whether what comes of it fits. -/
theorem push_eq (d : Digits) (h : k < r.base) :
    d.push r k = ⟨d.value * .ofNat r.base + .ofNat k,
      d.overflowed || decide (UInt64.size ≤ d.value.toNat * r.base + k)⟩ := by
  have hbase := toNat_ofNat_base r
  have hdigit := toNat_ofNat_of_lt_base h
  by_cases hmul : d.value.toNat * r.base < UInt64.size
  · have hproduct : (d.value * .ofNat r.base).toNat = d.value.toNat * r.base := by
      rw [UInt64.toNat_mul, hbase]
      exact Nat.mod_eq_of_lt hmul
    have hchecked : checkedMul? d.value (.ofNat r.base) = some (d.value * .ofNat r.base) := by
      rw [checkedMul?, hbase, if_pos hmul]
    rw [Digits.push, hchecked, Option.bind_some, checkedAdd?, hproduct, hdigit]
    by_cases hadd : d.value.toNat * r.base + k < UInt64.size
    · simp only [if_pos hadd, decide_eq_false (Nat.not_le_of_lt hadd), Bool.or_false]
    · simp only [if_neg hadd, decide_eq_true (Nat.le_of_not_lt hadd), Bool.or_true]
  · have hchecked : checkedMul? d.value (.ofNat r.base) = none := by
      rw [checkedMul?, hbase, if_neg hmul]
    have hlarge : UInt64.size ≤ d.value.toNat * r.base + k :=
      Nat.le_add_right_of_le (Nat.le_of_not_lt hmul)
    simp only [Digits.push, hchecked, Option.bind_none, decide_eq_true hlarge, Bool.or_true]

/-- The low bits of a number with one more digit come from the low bits of the number. -/
theorem push_low (h : k < r.base) : (Digits.low n).push r k = .low (n * r.base + k) := by
  have hvalue : UInt64.ofNat n * .ofNat r.base + .ofNat k = .ofNat (n * r.base + k) := by
    rw [UInt64.ofNat_add, UInt64.ofNat_mul]
  have hgrows : n ≤ n * r.base + k :=
    Nat.le_add_right_of_le (Nat.le_mul_of_pos_right n (Nat.zero_lt_of_lt r.one_lt_base))
  -- A number that does not fit does not fit with a digit more; one that fits is its low bits.
  by_cases hn : UInt64.size ≤ n
  · simp only [push_eq _ h, Digits.low, hvalue, decide_eq_true hn, Bool.true_or,
      decide_eq_true (Nat.le_trans hn hgrows)]
  · simp only [push_eq _ h, Digits.low, hvalue, decide_eq_false hn, Bool.false_or,
      UInt64.toNat_ofNat_of_lt' (Nat.lt_of_not_le hn)]

def digitsOf (r : Radix) (run : List Char) : List Nat :=
  run.filterMap r.digit?

theorem lt_base_of_mem_digitsOf : ∀ k ∈ digitsOf r run, k < r.base := by
  intro k hk
  obtain ⟨ch, -, hch⟩ := List.mem_filterMap.mp hk
  exact of_decide_eq_true (Option.filter_eq_some_iff.mp hch).2

theorem foldl_push_low {digits : List Nat} (h : ∀ k ∈ digits, k < r.base) (n : Nat) :
    digits.foldl (Digits.push r) (.low n) =
      .low (digits.foldl (fun n k => n * r.base + k) n) := by
  induction digits generalizing n with
  | nil => rfl
  | cons k digits ih =>
    obtain ⟨hk, hmore⟩ := List.forall_mem_cons.mp h
    rw [List.foldl_cons, List.foldl_cons, push_low hk, ih hmore]

theorem foldl_push_digitsOf (r : Radix) (run : List Char) :
    (digitsOf r run).foldl (Digits.push r) (.low 0) = .low (r.value run) :=
  foldl_push_low lt_base_of_mem_digitsOf 0

/-- What is wrong with a separator at `pos`, given the character before it in the run that
begins at `start`. -/
def separatorFault? (strictZero : Bool) (start pos : Nat) : Option Char → Option Diagnostic.Code
  | none => some .separatorNotAllowed
  | some before =>
    if before = '_' then some .consecutiveSeparators
    else if strictZero && before = '0' && pos = start + 1 then some .separatorNotAllowed
    else none

def separatorReport? (strictZero : Bool) (start : Nat) : (Option Char × Char) × Nat → Option Report
  | ((before, ch), pos) =>
    if ch = '_' then (separatorFault? strictZero start pos before).map (.point · pos) else none

/-- What is reported of the separators of a run that began at `start`, from `pos` on, given
the character in front. -/
def separatorReportsFrom (strictZero : Bool) (start : Nat) (before : Option Char) (pos : Nat)
    (run : List Char) : List Report :=
  (((before :: run.map some).zip run).zipIdx pos).filterMap (separatorReport? strictZero start)

def separatorReports (strictZero : Bool) (start : Nat) (run : List Char) : List Report :=
  separatorReportsFrom strictZero start none start run

def trailingReports (start : Nat) (run : List Char) : List Report :=
  if run.getLast? = some '_' then [.point .separatorNotAllowed (start + run.length - 1)] else []

theorem separatorReportsFrom_cons (strictZero : Bool) (start : Nat) (before : Option Char)
    (pos : Nat) (ch : Char) (run : List Char) :
    separatorReportsFrom strictZero start before pos (ch :: run) =
      (separatorReport? strictZero start ((before, ch), pos)).toList ++
        separatorReportsFrom strictZero start (some ch) (pos + 1) run := by
  simp only [separatorReportsFrom, List.map_cons, List.zip_cons_cons, List.zipIdx_cons,
    List.filterMap_cons]
  cases separatorReport? strictZero start ((before, ch), pos) <;> rfl

namespace RunState

variable {start : Nat} {before : Option Char} {s : RunState}

/-- A run that began at `start` has been read up to a place behind `before`. -/
structure Behind (start : Nat) (before : Option Char) (s : RunState) : Prop where
  before_eq : s.before = before
  pos_le : start ≤ s.pos
  pos_eq_iff : s.pos = start ↔ before = none
  separatorEnd_eq_iff : s.separatorEnd = s.pos ↔ before = none ∨ before = some '_'
  separatorEnd_le : s.separatorEnd ≤ s.pos

theorem behind_new (start : Nat) : (new start).Behind start none :=
  ⟨rfl, Nat.le_refl _, by simp [new], by simp [new], Nat.le_refl _⟩

theorem Behind.push (h : s.Behind start before) (strictZero : Bool) (ch : Char) :
    (s.push strictZero start ch).Behind start (some ch) := by
  have hpos := h.pos_le
  have hend := h.separatorEnd_le
  unfold RunState.push
  split
  · rename_i hch
    exact ⟨rfl, by simp only; omega, by simp only [reduceCtorEq, iff_false]; omega,
      by simp [hch], Nat.le_refl _⟩
  · rename_i hch
    exact ⟨rfl, by simp only; omega, by simp only [reduceCtorEq, iff_false]; omega,
      by simp only [reduceCtorEq, Option.some.injEq, hch, or_self, iff_false]; omega,
      by simp only; omega⟩

/-- Where the last separator ended tells of a separator what the character in front does. -/
theorem Behind.fault?_eq (h : s.Behind start before) (strictZero : Bool) :
    s.fault? strictZero start = separatorFault? strictZero start s.pos before := by
  have hend := h.separatorEnd_eq_iff
  have hstart := h.pos_eq_iff
  rw [fault?, h.before_eq]
  cases before with
  | none =>
    have hpos : s.pos = start := hstart.mpr rfl
    have hreached : s.separatorEnd = s.pos := hend.mpr (.inl rfl)
    rw [if_pos hreached, if_pos (hreached.trans hpos), separatorFault?]
  | some last =>
    have hpos : s.pos ≠ start := fun heq => Option.some_ne_none last (hstart.mp heq)
    by_cases hlast : last = '_'
    · have hreached : s.separatorEnd = s.pos := hend.mpr (.inr (congrArg some hlast))
      rw [if_pos hreached, if_neg (hreached ▸ hpos), separatorFault?, if_pos hlast]
    · have hreached : s.separatorEnd ≠ s.pos := fun heq =>
        (hend.mp heq).elim (Option.some_ne_none last) fun hsome => hlast (Option.some.inj hsome)
      rw [if_neg hreached, separatorFault?, if_neg hlast]
      simp only [Option.some.injEq, Bool.and_right_comm]

theorem Behind.reports_push (h : s.Behind start before) (strictZero : Bool) (ch : Char) :
    (s.push strictZero start ch).reports =
      s.reports ++ (separatorReport? strictZero start ((before, ch), s.pos)).toList := by
  rw [RunState.push, separatorReport?]
  split
  · rw [h.fault?_eq]
  · exact (List.append_nil _).symm

theorem pos_push (s : RunState) (strictZero : Bool) (start : Nat) (ch : Char) :
    (s.push strictZero start ch).pos = s.pos + 1 := by
  unfold push
  split <;> rfl

/-- A run is read to its last character, and reported as it is character by character. -/
theorem Behind.foldl (h : s.Behind start before) (strictZero : Bool) (run : List Char) :
    let last := run.foldl (RunState.push strictZero start) s
    last.Behind start (run.getLast?.or before) ∧ last.pos = s.pos + run.length ∧
      last.reports = s.reports ++ separatorReportsFrom strictZero start before s.pos run := by
  induction run generalizing s before with
  | nil => exact ⟨h, rfl, (List.append_nil _).symm⟩
  | cons ch run ih =>
    obtain ⟨hlast, hpos, hreports⟩ := ih (h.push strictZero ch)
    refine ⟨?_, ?_, ?_⟩
    · rw [List.getLast?_cons]
      cases hend : run.getLast? with
      | none => rwa [hend] at hlast
      | some last => rwa [hend] at hlast
    · rw [List.foldl_cons, hpos, pos_push, List.length_cons]
      omega
    · rw [List.foldl_cons, hreports, h.reports_push, pos_push, separatorReportsFrom_cons,
        List.append_assoc]

end RunState

theorem reports_readRun (strictZero : Bool) (start : Nat) (run : List Char) :
    (readRun strictZero start run).reports = separatorReports strictZero start run :=
  ((RunState.behind_new start).foldl strictZero run).2.2

theorem isOpen_readRun (strictZero : Bool) (start : Nat) (run : List Char) :
    (readRun strictZero start run).isOpen start = decide (run.getLast? = some '_') := by
  obtain ⟨hlast, -, -⟩ := (RunState.behind_new start).foldl strictZero run
  change (readRun strictZero start run).Behind start (run.getLast?.or none) at hlast
  rw [Option.or_none] at hlast
  rw [RunState.isOpen, ← Bool.decide_and, decide_eq_decide, ne_eq, hlast.pos_eq_iff,
    hlast.separatorEnd_eq_iff]
  constructor
  · rintro ⟨hne, hnone | hlow⟩
    · exact absurd hnone hne
    · exact hlow
  · intro hlow
    exact ⟨by simp [hlow], .inr hlow⟩

theorem ending_readRun (strictZero : Bool) (start : Nat) (run : List Char) :
    (readRun strictZero start run).ending start = trailingReports start run := by
  rw [RunState.ending, isOpen_readRun, trailingReports]
  obtain ⟨hlast, hpos, -⟩ := (RunState.behind_new start).foldl strictZero run
  split
  · rename_i hlow
    have hlow := of_decide_eq_true hlow
    have hend : (readRun strictZero start run).separatorEnd = start + run.length :=
      (hlast.separatorEnd_eq_iff.mpr (.inr (by rw [Option.or_none, hlow]))).trans hpos
    rw [if_pos hlow, hend]
  · rename_i hlow
    rw [if_neg fun h => hlow (decide_eq_true h)]

/-- What is read of a run, said of the run as a whole. -/
theorem readDigits_eq (r : Radix) (literal c : Cursor) :
    readDigits r literal c =
      let run := c.chars.takeWhile (isDigitOrSeparator r)
      let stop := c.skipChars (isDigitOrSeparator r)
      let ending := if run = [] then [.point r.missingDigit c.pos] else trailingReports c.pos run
      let size :=
        if decide (UInt64.size ≤ r.value run) && (r = .hexadecimal || run.getLast? ≠ some '_') then
          [⟨.literalDoesNotFit, literal.pos, stop.pos, [literal.textTo stop.pos]⟩]
        else []
      ⟨.low (r.value run), stop, separatorReports (r = .decimal) c.pos run ++ ending ++ size⟩ := by
  have hdigits : ((c.chars.takeWhile (isDigitOrSeparator r)).filterMap r.digit?).foldl
      (Digits.push r) ⟨0, false⟩ = .low (r.value (c.chars.takeWhile (isDigitOrSeparator r))) :=
    foldl_push_digitsOf r _
  simp only [readDigits, reports_readRun, ending_readRun, isOpen_readRun, hdigits, Digits.low,
    decide_not]

theorem reports_skipFloatRun_eq (strictZero : Bool) (c : Cursor) :
    let run := c.chars.takeWhile fun ch => isDecimal ch || ch == '_'
    (skipFloatRun strictZero c).reports =
      separatorReports strictZero c.pos run ++ trailingReports c.pos run := by
  simp only [skipFloatRun, reports_readRun, ending_readRun]

end TypedScript.Lexer
