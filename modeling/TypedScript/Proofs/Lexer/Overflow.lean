import Mathlib.Data.Nat.Digits.Defs
import TypedScript.Proofs.Lexer.NumberExtent
import TypedScript.Proofs.Lexer.Place

/-! # Numbers of more than 64 bits

Of the number that the digits of a run denote the reader of digits keeps the low 64 bits, and
it tells whether there are more, whichever radix, place and start of a literal it is given. It
reports this at most once, with the text of the literal.
-/

namespace TypedScript.Lexer

open Text Numeral

variable {c literal : Cursor} {r : Radix} {run text : List Char} {n k : Nat}

theorem map_digit?_filter (hrun : ∀ ch ∈ run, isDigitOrSeparator r ch = true) :
    (run.filter (· ≠ '_')).map r.digit? = (digitsOf r run).map some := by
  induction run with
  | nil => rfl
  | cons ch run ih =>
    obtain ⟨hch, hmore⟩ := List.forall_mem_cons.mp hrun
    by_cases hseparator : ch = '_'
    · subst hseparator
      rw [digitsOf, List.filterMap_cons_none (digit?_separator r), List.filter_cons_of_neg (by simp)]
      exact ih hmore
    · obtain ⟨k, hk⟩ : ∃ k, r.digit? ch = some k := by
        rcases Bool.or_eq_true_iff.mp hch with hdigit | hlow
        · exact Option.isSome_iff_exists.mp hdigit
        · exact absurd (beq_iff_eq.mp hlow) hseparator
      rw [digitsOf, List.filterMap_cons_some hk, List.filter_cons_of_pos (by simpa), List.map_cons,
        hk, List.map_cons]
      exact congrArg (some k :: ·) (ih hmore)

/-- The number of a run has the digits of the run, the last of them the lowest. -/
theorem value_eq_ofDigits (r : Radix) (run : List Char) :
    r.value run = Nat.ofDigits r.base (digitsOf r run).reverse := by
  rw [Nat.ofDigits_eq_foldr, List.foldr_reverse, Radix.value, digitsOf]
  congr 1
  funext n k
  rw [Nat.cast_id, Nat.mul_comm, Nat.add_comm]

theorem chars_readDigits (r : Radix) (literal c : Cursor) :
    c.chars = digitRun r c ++ (readDigits r literal c).stop.chars ∧
      (readDigits r literal c).stop.pos = c.pos + (digitRun r c).length := by
  by_cases hc : c.inside = 0
  · have hpart := passes_readDigits r literal hc
    have hone : ∀ ch ∈ digitRun r c, ch.utf8Size = 1 := fun ch hch =>
      utf8Size_of_isDigitOrSeparator r ch (isDigitOrSeparator_of_mem_digitRun ch hch)
    rw [Cursor.chars, if_pos hc, Cursor.chars, if_pos hpart.inside_eq', hpart.pos_eq,
      byteSize_eq_length hone]
    exact ⟨hpart.rest_eq, rfl⟩
  · have hstay : (readDigits r literal c).stop = c := if_neg hc
    have hnone := (chars_of_inside_ne hc).1
    rw [hstay, digitRun, hnone]
    exact ⟨rfl, rfl⟩

theorem ne_literalDoesNotFit {code : Diagnostic.Code} (h : code.isOfSeparator = true) :
    code ≠ .literalDoesNotFit := by
  rintro rfl
  cases h

/-- Whether the number fits is reported once, and nothing else that is reported is about it. -/
theorem filter_reports_readDigits (r : Radix) (literal c : Cursor) :
    let read := readDigits r literal c
    read.reports.filter (·.code = .literalDoesNotFit) =
      if read.value.overflowed = true ∧
          (r = .hexadecimal ∨ (digitRun r c).getLast? ≠ some '_') then
        [⟨.literalDoesNotFit, literal.pos, read.stop.pos, [literal.textTo read.stop.pos]⟩]
      else [] := by
  intro read
  have hseparators : (separatorReports (r = .decimal) c.pos (digitRun r c)).filter
      (·.code = .literalDoesNotFit) = [] := by
    refine List.filter_eq_nil_iff.mpr fun x hx => ?_
    simpa using ne_literalDoesNotFit (isOfSeparator_of_mem_separatorReports x hx)
  have hending : (if digitRun r c = [] then [Report.point r.missingDigit c.pos]
      else trailingReports c.pos (digitRun r c)).filter (·.code = .literalDoesNotFit) = [] := by
    refine List.filter_eq_nil_iff.mpr fun x hx => ?_
    split at hx
    · obtain rfl := List.mem_singleton.mp hx
      have hcode : r.missingDigit ≠ .literalDoesNotFit := by cases r <;> decide
      exact fun h => hcode (of_decide_eq_true h)
    · simpa using ne_literalDoesNotFit (isOfSeparator_of_mem_trailingReports x hx)
  have hrun : c.chars.takeWhile (isDigitOrSeparator r) = digitRun r c := rfl
  simp only [read, readDigits_eq, hrun, List.filter_append, hseparators, hending, List.nil_append,
    Digits.low, Bool.and_eq_true, Bool.or_eq_true, decide_eq_true_eq]
  split
  · rfl
  · rfl

/-- At every place of a text, the digits of every radix are read up to the first character
that is neither a digit nor a separator. The value is the number of the digits modulo two to
the 64, as it is if they are taken one at a time in 64 bits. The flag says whether the number
is at least that, and then it is reported once, with the text of the literal, unless a
separator ends a run that is not hexadecimal. -/
theorem readDigits_lowBits (text : String) (start pos : Nat) (r : Radix) :
    let literal := Cursor.ofOffset text.toList start
    let c := Cursor.ofOffset text.toList pos
    let read := readDigits r literal c
    ∃ (run : List Char) (digits : List Nat),
      (c.chars = run ++ read.stop.chars ∧ read.stop.pos = c.pos + run.length ∧
        (∀ ch ∈ run, (r.digit? ch).isSome = true ∨ ch = '_') ∧
        ∀ ch, read.stop.char? = some ch → r.digit? ch = none ∧ ch ≠ '_') ∧
      ((run.filter (· ≠ '_')).map r.digit? = digits.map some ∧
        digits.foldl (Digits.push r) ⟨0, false⟩ = read.value ∧
        read.value.value.toNat = Nat.ofDigits r.base digits.reverse % 2 ^ 64 ∧
        (read.value.overflowed = true ↔ 2 ^ 64 ≤ Nat.ofDigits r.base digits.reverse)) ∧
      read.reports.filter (·.code = .literalDoesNotFit) =
        if read.value.overflowed = true ∧ (r = .hexadecimal ∨ run.getLast? ≠ some '_') then
          [⟨.literalDoesNotFit, literal.pos, read.stop.pos,
            [slice text.toList literal.pos read.stop.pos]⟩]
        else [] := by
  intro literal c read
  have hliteral : literal.Stands text.toList False := (Cursor.stands_into [] start text.toList).1
  have hrun := isDigitOrSeparator_of_mem_digitRun (r := r) (c := c)
  obtain ⟨hchars, hpos⟩ := chars_readDigits r literal c
  refine ⟨digitRun r c, digitsOf r (digitRun r c), ⟨hchars, hpos, fun ch hch => ?_, fun ch hch => ?_⟩,
    ⟨map_digit?_filter hrun, rfl, ?_, ?_⟩, ?_⟩
  · simpa [isDigitOrSeparator] using hrun ch hch
  · have hnone := eq_false_of_char?_skipChars hch
    simpa [isDigitOrSeparator] using hnone
  · rw [value_readDigits, ← value_eq_ofDigits]
    exact UInt64.toNat_ofNat'
  · rw [value_readDigits, ← value_eq_ofDigits]
    exact decide_eq_true_iff
  · rw [← Cursor.textTo_eq_slice hliteral (Cursor.proper_into _ _ _)]
    exact filter_reports_readDigits r literal c

end TypedScript.Lexer
