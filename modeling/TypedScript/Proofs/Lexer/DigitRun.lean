import TypedScript.Proofs.Lexer.Integer

/-! # Runs of digits with nothing to report

A run of digits and separators is at fault nowhere exactly if it is grouped: it begins and
ends with a digit, and each separator stands between two digits. In front of a decimal
number a lone zero must not be followed by a separator either. The reader of digits is
silent exactly if the run is at fault nowhere and its number fits.
-/

namespace TypedScript.Lexer

open Text Numeral

variable {c : Cursor} {ch : Char} {r : Radix} {run : List Char} {strictZero : Bool}
  {start pos : Nat} {before : Option Char}

theorem exists_digit_of_separatorReport?_eq_none
    (h : separatorReport? strictZero start ((before, '_'), pos) = none) :
    ∃ digit, before = some digit ∧ digit ≠ '_' := by
  rw [separatorReport?, if_pos rfl, Option.map_eq_none_iff] at h
  cases before with
  | none => cases h
  | some digit =>
    refine ⟨digit, rfl, ?_⟩
    rintro rfl
    cases h

theorem separatorReportsFrom_zero_separator (start : Nat) (run : List Char) :
    separatorReportsFrom true start none start ('0' :: '_' :: run) ≠ [] := by
  rw [separatorReportsFrom_cons, separatorReportsFrom_cons]
  simp [separatorReport?, separatorFault?]

/-- A run with no fault from its place on is grouped there, behind a separator perhaps if a
digit stands in front. -/
theorem isGrouped_of_separatorReportsFrom_eq_nil
    (hrun : ∀ ch ∈ run, isDigitOrSeparator r ch = true) (hlast : run.getLast? ≠ some '_')
    (h : separatorReportsFrom strictZero start before pos run = []) :
    run = [] ∨ IsGrouped r run ∨
      (∃ digit, before = some digit ∧ digit ≠ '_') ∧
        ∃ more, run = '_' :: more ∧ IsGrouped r more := by
  induction run generalizing before pos with
  | nil => exact .inl rfl
  | cons ch run ih =>
    obtain ⟨hch, hmore⟩ := List.forall_mem_cons.mp hrun
    rw [separatorReportsFrom_cons, List.append_eq_nil_iff] at h
    obtain ⟨hhead, htail⟩ := h
    have hlast' : run.getLast? ≠ some '_' := by
      cases run with
      | nil => exact fun hnone => nomatch hnone
      | cons next run => rwa [List.getLast?_cons_of_ne_nil (List.cons_ne_nil _ _)] at hlast
    have hrest := ih hmore hlast' htail
    rcases Bool.or_eq_true_iff.mp hch with hdigit | hseparator
    · refine .inr (.inl ?_)
      rcases hrest with rfl | hgrouped | ⟨-, more, rfl, hgrouped⟩
      · exact .single hdigit
      · exact .cons hdigit hgrouped
      · exact .separated hdigit hgrouped
    · obtain rfl := beq_iff_eq.mp hseparator
      have hbefore := exists_digit_of_separatorReport?_eq_none (Option.toList_eq_nil_iff.mp hhead)
      rcases hrest with rfl | hgrouped | ⟨⟨digit, hdigit, hne⟩, -⟩
      · exact absurd rfl hlast
      · exact .inr (.inr ⟨hbefore, run, rfl, hgrouped⟩)
      · exact absurd (Option.some.inj hdigit).symm hne

theorem trailingReports_eq_nil_iff : trailingReports start run = [] ↔ run.getLast? ≠ some '_' := by
  unfold trailingReports
  split
  · rename_i hlast
    simp [hlast]
  · rename_i hlast
    simp [hlast]

/-- The separators of a run are at fault nowhere exactly if the run is grouped, and does not
go on with a separator behind a lone zero where that is forbidden. -/
theorem runReports_eq_nil_iff (hrun : ∀ ch ∈ run, isDigitOrSeparator r ch = true) (hne : run ≠ []) :
    separatorReports strictZero start run ++ trailingReports start run = [] ↔
      IsGrouped r run ∧ (strictZero = true → ¬ ['0', '_'] <+: run) := by
  rw [List.append_eq_nil_iff, trailingReports_eq_nil_iff]
  constructor
  · rintro ⟨hseparators, hlast⟩
    constructor
    · rcases isGrouped_of_separatorReportsFrom_eq_nil hrun hlast hseparators with
        hnil | hgrouped | ⟨⟨digit, hdigit, -⟩, -⟩
      · exact absurd hnil hne
      · exact hgrouped
      · cases hdigit
    · rintro rfl ⟨more, rfl⟩
      exact separatorReportsFrom_zero_separator start more hseparators
  · rintro ⟨hgrouped, hzero⟩
    exact ⟨filterMap_separatorReport?_eq_nil hgrouped (Nat.le_refl _)
      (fun hstrict _ => hzero hstrict) none, hgrouped.getLast?_ne⟩

def digitRun (r : Radix) (c : Cursor) : List Char :=
  c.chars.takeWhile (isDigitOrSeparator r)

theorem digitRun_eq (r : Radix) (hc : c.inside = 0) :
    digitRun r c = c.rest.takeWhile (isDigitOrSeparator r) := by
  rw [digitRun, Cursor.chars, if_pos hc]

theorem isDigitOrSeparator_of_mem_digitRun : ∀ ch ∈ digitRun r c, isDigitOrSeparator r ch = true :=
  List.all_eq_true.mp List.all_takeWhile

/-- A run is the one at the cursor if what follows it does not belong to it. -/
theorem digitRun_of_isGrouped {after : List Char} (hc : c.inside = 0)
    (h : c.rest = run ++ after) (hrun : IsGrouped r run)
    (hafter : ∀ ch, after.head? = some ch → isDigitOrSeparator r ch = false) :
    digitRun r c = run := by
  rw [digitRun_eq r hc, h]
  exact (span_run_append (fun _ => isDigitOrSeparator_of_mem hrun) hafter).1

theorem passes_readDigits (r : Radix) (literal : Cursor) (hc : c.inside = 0) :
    c.Passes (digitRun r c) (readDigits r literal c).stop := by
  rw [digitRun_eq r hc]
  exact Cursor.passes_skipChars hc _

theorem value_readDigits (r : Radix) (literal c : Cursor) :
    (readDigits r literal c).value = .low (r.value (digitRun r c)) := by
  rw [readDigits_eq]
  rfl

theorem reports_readDigits (literal : Cursor) (hne : digitRun r c ≠ []) :
    let stop := (readDigits r literal c).stop.pos
    (readDigits r literal c).reports =
      separatorReports (r = .decimal) c.pos (digitRun r c) ++
        trailingReports c.pos (digitRun r c) ++
        if UInt64.size ≤ r.value (digitRun r c) ∧
            (r = .hexadecimal ∨ (digitRun r c).getLast? ≠ some '_') then
          [⟨.literalDoesNotFit, literal.pos, stop, [literal.textTo stop]⟩]
        else [] := by
  intro stop
  have hrun : c.chars.takeWhile (isDigitOrSeparator r) = digitRun r c := rfl
  simp only [readDigits_eq, hrun, if_neg hne, Bool.and_eq_true, Bool.or_eq_true, decide_eq_true_eq,
    stop]

/-- The reader of digits has nothing to report exactly if the run is grouped, no separator
follows a lone zero in front of a decimal number, and the number fits. -/
theorem reports_readDigits_eq_nil_iff (r : Radix) (literal c : Cursor) :
    (readDigits r literal c).reports = [] ↔
      IsGrouped r (digitRun r c) ∧ (r = .decimal → ¬ ['0', '_'] <+: digitRun r c) ∧
        r.value (digitRun r c) < UInt64.size := by
  by_cases hnil : digitRun r c = []
  · have hending : (readDigits r literal c).reports ≠ [] := by
      simp [readDigits_eq, show c.chars.takeWhile (isDigitOrSeparator r) = [] from hnil]
    exact ⟨fun h => absurd h hending, fun h => absurd hnil h.1.ne_nil⟩
  · rw [reports_readDigits literal hnil, List.append_eq_nil_iff, ite_eq_right_iff,
      runReports_eq_nil_iff isDigitOrSeparator_of_mem_digitRun hnil, decide_eq_true_eq]
    simp only [reduceCtorEq, imp_false]
    constructor
    · rintro ⟨⟨hgrouped, hzero⟩, hsize⟩
      refine ⟨hgrouped, hzero, Nat.lt_of_not_le fun hle => ?_⟩
      exact hsize ⟨hle, .inr hgrouped.getLast?_ne⟩
    · rintro ⟨hgrouped, hzero, hsize⟩
      exact ⟨⟨hgrouped, hzero⟩, fun hlarge => Nat.not_le_of_lt hsize hlarge.1⟩

end TypedScript.Lexer
