import Mathlib.Data.List.TakeWhile
import TypedScript.Proofs.Lexer.DigitRun

/-! # How far numbers are read

A number that names no radix is an integer unless a point or an exponent follows its run of
digits and separators. The whole run is read either way, and what is read behind it of a
float begins with the point or the mark of the exponent. An integer with a zero and an octal
digit in front is the exception: it is read up to its first digit that is no octal one, and
the next token begins there.
-/

namespace TypedScript.Lexer

open Text Numeral

variable {c d : Cursor} {ch : Char} {run after : List Char}

theorem isSome_digit?_decimal (ch : Char) : (Radix.decimal.digit? ch).isSome = isDecimal ch :=
  Bool.eq_iff_iff.mpr ⟨isDecimal_of_isSome, fun h => by rw [digit?_of_isDecimal h]; rfl⟩

theorem isDigitOrSeparator_decimal :
    isDigitOrSeparator .decimal = fun ch => isDecimal ch || ch == '_' := by
  funext ch
  rw [isDigitOrSeparator, isSome_digit?_decimal]

theorem stop_skipFloatRun (strictZero : Bool) (c : Cursor) :
    (skipFloatRun strictZero c).stop = c.skipChars (isDigitOrSeparator .decimal) := by
  rw [isDigitOrSeparator_decimal]
  rfl

theorem reports_skipFloatRun (strictZero : Bool) (c : Cursor) :
    (skipFloatRun strictZero c).reports =
      separatorReports strictZero c.pos (digitRun .decimal c) ++
        trailingReports c.pos (digitRun .decimal c) := by
  rw [digitRun, isDigitOrSeparator_decimal]
  exact reports_skipFloatRun_eq strictZero c

theorem isDigitOrSeparator_octal (h : isDigitOrSeparator .decimal ch = true) :
    isDigitOrSeparator .octal ch = true ↔ ch ≠ '8' ∧ ch ≠ '9' := by
  have hall : (['_', '0', '1', '2', '3', '4', '5', '6', '7', '8', '9'].all fun ch =>
      isDigitOrSeparator .octal ch == (ch != '8' && ch != '9')) = true := by
    decide
  have hmem : ch ∈ ['_', '0', '1', '2', '3', '4', '5', '6', '7', '8', '9'] := by
    rw [isDigitOrSeparator_decimal] at h
    rcases Bool.or_eq_true_iff.mp h with hdigit | hseparator
    · exact List.mem_cons_of_mem _ (mem_digits_of_isDecimal hdigit)
    · rw [beq_iff_eq.mp hseparator]
      exact List.mem_cons_self
  rw [beq_iff_eq.mp (List.all_eq_true.mp hall ch hmem), Bool.and_eq_true, bne_iff_ne, bne_iff_ne]

theorem isDigitOrSeparator_decimal_of_octal (h : isDigitOrSeparator .octal ch = true) :
    isDigitOrSeparator .decimal ch = true := by
  rcases Bool.or_eq_true_iff.mp h with hdigit | hseparator
  · obtain ⟨n, hn⟩ := Option.isSome_iff_exists.mp hdigit
    obtain ⟨hvalue, hsmall⟩ := Option.filter_eq_some_iff.mp hn
    have hten : n < 10 := Nat.lt_trans (of_decide_eq_true hsmall) (by decide)
    have hdecimal : Radix.decimal.digit? ch = some n :=
      Option.filter_eq_some_iff.mpr ⟨hvalue, decide_eq_true hten⟩
    rw [isDigitOrSeparator, hdecimal]
    rfl
  · rw [isDigitOrSeparator, hseparator, Bool.or_true]

theorem isDigitOrSeparator_of_isOctal (h : isOctal ch = true) :
    isDigitOrSeparator .octal ch = true := by
  have hdecimal := isDigitOrSeparator_of_isDecimal (isDecimal_of_isOctal h)
  refine (isDigitOrSeparator_octal hdecimal).mpr ⟨?_, ?_⟩
  · rintro rfl
    exact absurd h (by decide)
  · rintro rfl
    exact absurd h (by decide)

theorem takeWhile_octal_takeWhile_decimal (text : List Char) :
    (text.takeWhile (isDigitOrSeparator .decimal)).takeWhile (isDigitOrSeparator .octal) =
      text.takeWhile (isDigitOrSeparator .octal) := by
  rw [List.takeWhile_takeWhile]
  congr 1
  funext ch
  exact Bool.eq_iff_iff.mpr <| decide_eq_true_iff.trans <|
    and_iff_left_of_imp isDigitOrSeparator_decimal_of_octal

def EndsDigits (c : Cursor) : Prop :=
  ∀ ch, c.char? = some ch → isDigitOrSeparator .decimal ch = false

theorem endsDigits_skipFloatRun (strictZero : Bool) (c : Cursor) :
    EndsDigits (skipFloatRun strictZero c).stop := by
  intro ch hch
  rw [stop_skipFloatRun] at hch
  exact eq_false_of_char?_skipChars hch

theorem endsDigits_skipFraction (h : EndsDigits c) : EndsDigits (skipFraction c).stop := by
  unfold skipFraction
  split
  · exact endsDigits_skipFloatRun false _
  · exact h

theorem endsDigits_skipExponent (h : EndsDigits c) : EndsDigits (skipExponent c).stop := by
  unfold skipExponent
  split
  · exact endsDigits_skipFloatRun false _
  · exact h

theorem endsDigits_readFloat (c : Cursor) : EndsDigits (readFloat c).stop :=
  endsDigits_skipExponent (endsDigits_skipFraction (endsDigits_skipFloatRun true c))

def NamesRadix (text : List Char) : Prop :=
  ∃ letter rest, text = '0' :: letter :: rest ∧ (Radix.ofLetter? letter).isSome = true

def integerPart : List Char → List Char
  | '0' :: second :: rest =>
    if isOctal second then '0' :: (second :: rest).takeWhile (isDigitOrSeparator .octal)
    else '0' :: second :: rest
  | run => run

/-- A run that begins like an octal number and goes on with a digit that is no octal one. -/
def IsSplit (run : List Char) : Prop :=
  ∃ second more, run = '0' :: second :: more ∧ isOctal second = true ∧ ('8' ∈ more ∨ '9' ∈ more)

/-- What is left of a run begins with a digit that is no octal one. -/
theorem integerPart_append (run : List Char) :
    ∃ left, run = integerPart run ++ left ∧
      ∀ ch, left.head? = some ch → isDigitOrSeparator .octal ch = false := by
  unfold integerPart
  split
  · rename_i second rest
    split
    · refine ⟨(second :: rest).dropWhile (isDigitOrSeparator .octal), ?_, fun ch hch => ?_⟩
      · rw [List.cons_append, List.takeWhile_append_dropWhile]
      · have hnot := List.head?_dropWhile_not (isDigitOrSeparator .octal) (second :: rest)
        rw [hch] at hnot
        exact hnot
    · exact ⟨[], (List.append_nil _).symm, fun _ h => nomatch h⟩
  · exact ⟨[], (List.append_nil _).symm, fun _ h => nomatch h⟩

theorem integerPart_eq_self_iff (hrun : ∀ ch ∈ run, isDigitOrSeparator .decimal ch = true) :
    integerPart run = run ↔ ¬ IsSplit run := by
  unfold integerPart
  split
  · rename_i second rest
    have hrest : ∀ ch ∈ rest, isDigitOrSeparator .decimal ch = true := fun ch hch =>
      hrun ch (List.mem_cons_of_mem _ (List.mem_cons_of_mem _ hch))
    split
    · rename_i hoctal
      rw [List.cons.injEq, List.takeWhile_eq_self_iff, List.forall_mem_cons]
      constructor
      · rintro ⟨-, -, hall⟩ ⟨_, more, ⟨⟩, -, hmem⟩
        rcases hmem with hmem | hmem
        · exact absurd (hall _ hmem) (by decide)
        · exact absurd (hall _ hmem) (by decide)
      · intro hsplit
        refine ⟨rfl, isDigitOrSeparator_of_isOctal hoctal, fun ch hch => ?_⟩
        refine (isDigitOrSeparator_octal (hrest ch hch)).mpr ⟨?_, ?_⟩
        · rintro rfl
          exact hsplit ⟨_, _, rfl, hoctal, .inl hch⟩
        · rintro rfl
          exact hsplit ⟨_, _, rfl, hoctal, .inr hch⟩
    · rename_i hoctal
      refine iff_of_true rfl ?_
      rintro ⟨_, _, ⟨⟩, hsecond, -⟩
      exact hoctal hsecond
  · rename_i hne
    refine iff_of_true rfl ?_
    rintro ⟨second, more, rfl, -⟩
    exact hne _ _ rfl

theorem readInteger_of_isOctal {second third : Char} {rest : List Char} (hc : c.inside = 0)
    (h : c.rest = '0' :: second :: third :: rest) (hradix : Radix.ofLetter? second = none)
    (hoctal : isOctal second = true) :
    readInteger c =
      ⟨(readDigits .octal c (c.advance 1)).value.value, (readDigits .octal c (c.advance 1)).stop,
        (readDigits .octal c (c.advance 1)).reports ++
          [⟨.octalLiteral, c.pos, (readDigits .octal c (c.advance 1)).stop.pos, []⟩]⟩ := by
  rw [readInteger, Cursor.chars, if_pos hc, h]
  simp only [hradix, if_pos hoctal]

theorem passes_readInteger (hc : c.inside = 0) (hradix : ¬ NamesRadix c.rest) :
    c.Passes (integerPart (digitRun .decimal c)) (readInteger c).stop := by
  have hnone : ∀ {letter rest}, c.rest = '0' :: letter :: rest → Radix.ofLetter? letter = none :=
    fun hrest => Option.not_isSome_iff_eq_none.mp fun hsome => hradix ⟨_, _, hrest, hsome⟩
  by_cases hlegacy : ∃ second third more, c.rest = '0' :: second :: third :: more ∧
      isOctal second = true
  · obtain ⟨second, third, more, hrest, hoctal⟩ := hlegacy
    have hzero := Cursor.passes_advance_one (Cursor.char?_eq_some_iff.mpr ⟨hc, _, hrest⟩) rfl
    have hread : (readInteger c).stop = (readDigits .octal c (c.advance 1)).stop := by
      rw [readInteger_of_isOctal hc hrest (hnone hrest) hoctal]
    have hpart : integerPart (digitRun .decimal c) = '0' :: digitRun .octal (c.advance 1) := by
      have hsecond := isDigitOrSeparator_decimal_of_octal (isDigitOrSeparator_of_isOctal hoctal)
      rw [digitRun_eq _ hc, digitRun_eq _ hzero.inside_eq', hzero.rest_eq_of_append hrest, hrest,
        List.takeWhile_cons_of_pos (by decide), ← takeWhile_octal_takeWhile_decimal,
        List.takeWhile_cons_of_pos hsecond, integerPart, if_pos hoctal]
    rw [hread, hpart]
    exact hzero.trans (passes_readDigits .octal c hzero.inside_eq')
  · have hread : (readInteger c).stop = (readDigits .decimal c c).stop := by
      unfold readInteger
      split
      · rename_i second third more hchars
        rw [Cursor.chars, if_pos hc] at hchars
        have hoctal : ¬ isOctal second = true := fun hoctal =>
          hlegacy ⟨second, third, more, hchars, hoctal⟩
        simp only [hnone hchars, if_neg hoctal]
      · rfl
    have hpart : integerPart (digitRun .decimal c) = digitRun .decimal c := by
      refine (integerPart_eq_self_iff isDigitOrSeparator_of_mem_digitRun).mpr ?_
      rintro ⟨second, more, hrun, hoctal, hmem⟩
      have hne : more ≠ [] := by
        rintro rfl
        simp at hmem
      obtain ⟨third, more, rfl⟩ := List.exists_cons_of_ne_nil hne
      have hrest := (passes_readDigits .decimal c hc).rest_eq
      rw [hrun] at hrest
      exact hlegacy ⟨second, third, _, hrest, hoctal⟩
    rw [hread, hpart]
    exact passes_readDigits .decimal c hc

theorem isInteger_plain_iff (text : List Char) :
    isInteger.plain text = true ↔
      ∀ ch, (text.dropWhile (isDigitOrSeparator .decimal)).head? = some ch →
        ch ≠ '.' ∧ Decimal.isExponentMark ch = false := by
  rw [isInteger.plain, ← isDigitOrSeparator_decimal]
  cases text.dropWhile (isDigitOrSeparator .decimal) with
  | nil => simp
  | cons ch rest => simp

theorem isInteger_iff (hc : c.inside = 0) (hradix : ¬ NamesRadix c.rest) :
    isInteger c = true ↔ ∀ ch, (c.skipChars (isDigitOrSeparator .decimal)).char? = some ch →
      ch ≠ '.' ∧ Decimal.isExponentMark ch = false := by
  have hplain : isInteger c = isInteger.plain c.rest := by
    unfold isInteger
    rw [Cursor.chars, if_pos hc]
    split
    · rename_i letter rest hrest
      have hnone : (Radix.ofLetter? letter).isSome = false :=
        Bool.eq_false_iff.mpr fun hsome => hradix ⟨letter, rest, hrest, hsome⟩
      rw [hnone, Bool.false_or, hrest]
    · rfl
  rw [hplain, isInteger_plain_iff, Cursor.skipChars, if_pos hc, Cursor.char?, if_pos rfl]

theorem pos_lt_skipFraction (h : c.char? = some '.') : c.pos < (skipFraction c).stop.pos := by
  have hstep := Cursor.passes_advance_one h rfl
  rw [skipFraction, if_pos h]
  exact Nat.lt_of_lt_of_le (hstep.pos_lt (List.cons_ne_nil _ _))
    (beginsAt_skipFloatRun false hstep.inside_eq').reaches.pos_le

theorem pos_lt_skipExponent (h : c.char? = some ch) (hmark : Decimal.isExponentMark ch = true) :
    c.pos < (skipExponent c).stop.pos := by
  have hstep := Cursor.passes_advance_one h (utf8Size_of_isExponentMark hmark)
  refine Nat.lt_of_lt_of_le (hstep.pos_lt (List.cons_ne_nil _ _)) ?_
  rw [skipExponent, if_pos ((Option.any_eq_true _ _).mpr ⟨ch, h, hmark⟩)]
  simp only
  split
  · rename_i hsign
    obtain ⟨sign, hsign, hone⟩ : ∃ sign, (c.advance 1).char? = some sign ∧ sign.utf8Size = 1 := by
      rcases Bool.or_eq_true_iff.mp hsign with hplus | hminus
      · exact ⟨'+', of_decide_eq_true hplus, rfl⟩
      · exact ⟨'-', of_decide_eq_true hminus, rfl⟩
    have hboth := Cursor.passes_advance_one hsign hone
    exact Nat.le_trans hboth.pos_le (beginsAt_skipFloatRun false hboth.inside_eq').reaches.pos_le
  · exact (beginsAt_skipFloatRun false hstep.inside_eq').reaches.pos_le

/-- A point or the mark of an exponent is where the fraction or the exponent begins. -/
theorem exists_passes_skipExponent (h : c.char? = some ch)
    (hmark : ch = '.' ∨ Decimal.isExponentMark ch = true) :
    ∃ more, c.Passes (ch :: more) (skipExponent (skipFraction c).stop).stop := by
  obtain ⟨hc, rest, hrest⟩ := Cursor.char?_eq_some_iff.mp h
  have hfraction := (beginsAt_skipFraction hc).reaches
  have hexponent := (beginsAt_skipExponent hfraction.inside_eq).reaches
  have hlt : c.pos < (skipExponent (skipFraction c).stop).stop.pos := by
    by_cases hpoint : ch = '.'
    · subst hpoint
      exact Nat.lt_of_lt_of_le (pos_lt_skipFraction h) hexponent.pos_le
    · have hnone : (skipFraction c).stop = c := by
        rw [skipFraction, if_neg fun hsome => hpoint (Option.some.inj (h.symm.trans hsome))]
      rw [hnone]
      exact pos_lt_skipExponent h (hmark.resolve_left hpoint)
  obtain ⟨part, hpart⟩ := hfraction.trans hexponent
  obtain ⟨first, more, rfl⟩ := List.exists_cons_of_ne_nil (hpart.ne_nil_of_pos_lt hlt)
  have hfirst := hpart.rest_eq.symm.trans hrest
  rw [List.cons_append, List.cons.injEq] at hfirst
  exact ⟨more, hfirst.1 ▸ hpart⟩

theorem passes_readFloat (hc : c.inside = 0) (hradix : ¬ NamesRadix c.rest)
    (hfloat : isInteger c = false) : ∃ mark more, mark ∈ ['.', 'e', 'E'] ∧
      c.Passes (digitRun .decimal c ++ mark :: more) (readFloat c).stop := by
  have hrun : c.Passes (digitRun .decimal c) (c.skipChars (isDigitOrSeparator .decimal)) :=
    passes_readDigits .decimal c hc
  have hmark : ∃ ch, (c.skipChars (isDigitOrSeparator .decimal)).char? = some ch ∧
      (ch = '.' ∨ Decimal.isExponentMark ch = true) := by
    by_contra hnone
    rw [← Bool.not_eq_true, isInteger_iff hc hradix] at hfloat
    refine hfloat fun ch hch => ⟨fun hpoint => ?_, Bool.eq_false_iff.mpr fun hmark => ?_⟩
    · exact hnone ⟨ch, hch, .inl hpoint⟩
    · exact hnone ⟨ch, hch, .inr hmark⟩
  obtain ⟨ch, hch, hmark⟩ := hmark
  have hmem : ch ∈ ['.', 'e', 'E'] := by
    simpa [Decimal.isExponentMark] using hmark
  obtain ⟨more, hmore⟩ := exists_passes_skipExponent hch hmark
  rw [← stop_skipFloatRun true] at hrun hmore
  exact ⟨ch, more, hmem, hrun.trans hmore⟩

theorem next_number {l : Lexer} (handling : WordHandling) (h : l.cursor.char? = some ch)
    (hdigit : isDecimal ch = true) :
    (l.next handling).1 = (if l.atInteger then .integer else .float) ∧
      (l.next handling).2.cursor = l.cursor := by
  have hscan : scan handling noLimit l.cursor =
      ⟨if isInteger l.cursor then .integer else .float, l.cursor, l.cursor, []⟩ :=
    scanFrom_of_token (pieceAt_number handling noLimit h hdigit)
  exact ⟨congrArg Scan.token hscan, congrArg Scan.stop hscan⟩

/-- What is left of an integer that is split begins with a digit, so it is a number too. -/
theorem exists_char?_of_isSplit (hc : c.inside = 0) (hpart : c.Passes (integerPart run) d)
    (hrun : run = digitRun .decimal c) (hsplit : IsSplit run) :
    ∃ ch, d.char? = some ch ∧ (ch = '8' ∨ ch = '9') := by
  have hdigits : ∀ ch ∈ run, isDigitOrSeparator .decimal ch = true := by
    rw [hrun]
    exact isDigitOrSeparator_of_mem_digitRun
  obtain ⟨left, happend, hleft⟩ := integerPart_append run
  cases left with
  | nil =>
    rw [List.append_nil] at happend
    exact absurd hsplit ((integerPart_eq_self_iff hdigits).mp happend.symm)
  | cons ch left =>
    have hrest := (passes_readDigits .decimal c hc).rest_eq
    rw [← hrun, happend, List.append_assoc] at hrest
    have hstands : d.char? = some ch :=
      Cursor.char?_eq_some_iff.mpr ⟨hpart.inside_eq', _, hpart.rest_eq_of_append hrest⟩
    refine ⟨ch, hstands, ?_⟩
    have hch : isDigitOrSeparator .decimal ch = true :=
      hdigits ch (happend ▸ List.mem_append_right _ List.mem_cons_self)
    by_contra hne
    have hoctal := (isDigitOrSeparator_octal hch).mpr (not_or.mp hne)
    rw [hleft ch rfl] at hoctal
    cases hoctal

/-- At a decimal digit where no radix is named the next token is a number, and it is an
integer exactly if it is read as one. What is read begins with the whole run of digits and
separators, and a float goes on with its point or the mark of its exponent. An integer that
begins like an octal number but goes on with a digit that is no octal one is split there. -/
theorem number_extent (l : Lexer) (handling : WordHandling) {ch : Char}
    (hch : l.cursor.char? = some ch) (hdigit : isDecimal ch = true)
    (hradix : ¬ NamesRadix l.cursor.rest) :
    let run := digitRun .decimal l.cursor
    let found := l.next handling
    let afterInteger := l.takeInteger.2
    let afterFloat := l.takeFloat.2
    found.1 = (if l.atInteger then .integer else .float) ∧ found.2.cursor = l.cursor ∧
      (l.atInteger = true → l.cursor.Passes (integerPart run) afterInteger.cursor ∧
        (¬ IsSplit run → integerPart run = run ∧ ∀ ch, afterInteger.cursor.char? = some ch →
          isDigitOrSeparator .decimal ch = false ∧ ch ≠ '.' ∧ Decimal.isExponentMark ch = false) ∧
        (IsSplit run → ∃ ch, afterInteger.cursor.char? = some ch ∧ (ch = '8' ∨ ch = '9') ∧
          ((afterInteger.next handling).1 = .integer ∨ (afterInteger.next handling).1 = .float))) ∧
      (l.atInteger = false → EndsDigits afterFloat.cursor ∧ ∃ mark more, mark ∈ ['.', 'e', 'E'] ∧
        l.cursor.Passes (run ++ mark :: more) afterFloat.cursor) := by
  intro run found afterInteger afterFloat
  have hc := (Cursor.char?_eq_some_iff.mp hch).1
  obtain ⟨htoken, hcursor⟩ := next_number handling hch hdigit
  refine ⟨htoken, hcursor, fun hinteger => ?_, fun hfloat => ?_⟩
  · have hpart : l.cursor.Passes (integerPart run) afterInteger.cursor :=
      passes_readInteger hc hradix
    refine ⟨hpart, fun hsplit => ?_, fun hsplit => ?_⟩
    · have hwhole := (integerPart_eq_self_iff isDigitOrSeparator_of_mem_digitRun).mpr hsplit
      have hstop : afterInteger.cursor = l.cursor.skipChars (isDigitOrSeparator .decimal) := by
        rw [hwhole] at hpart
        exact hpart.unique (passes_readDigits .decimal l.cursor hc)
      rw [hstop]
      refine ⟨hwhole, fun ch hch => ⟨eq_false_of_char?_skipChars hch, ?_⟩⟩
      exact (isInteger_iff hc hradix).mp hinteger ch hch
    · obtain ⟨ch, hch, hdigit⟩ := exists_char?_of_isSplit hc hpart rfl hsplit
      refine ⟨ch, hch, hdigit, ?_⟩
      have hdecimal : isDecimal ch = true := by
        rcases hdigit with rfl | rfl <;> rfl
      rw [(next_number handling hch hdecimal).1]
      cases afterInteger.atInteger
      · exact .inr rfl
      · exact .inl rfl
  · exact ⟨endsDigits_readFloat l.cursor, passes_readFloat hc hradix hfloat⟩

theorem number_extent_thousand :
    let l := Lexer.new 0 "1_000;" .empty
    l.cursor.char? = some '1' ∧ isDecimal '1' = true ∧ ¬ NamesRadix l.cursor.rest ∧
      l.cursor.Passes ['1', '_', '0', '0', '0'] l.takeInteger.2.cursor := by
  intro l
  have hch : l.cursor.char? = some '1' := by decide +kernel
  have hrest : l.cursor.rest = ['1', '_', '0', '0', '0', ';'] := by decide +kernel
  have hradix : ¬ NamesRadix l.cursor.rest := by
    rw [hrest]
    rintro ⟨_, _, ⟨⟩, -⟩
  have hrun : digitRun .decimal l.cursor = ['1', '_', '0', '0', '0'] := by decide +kernel
  obtain ⟨-, -, hinteger, -⟩ := number_extent l .standard hch rfl hradix
  have hpart := (hinteger (by decide +kernel)).1
  rw [hrun] at hpart
  exact ⟨hch, rfl, hradix, hpart⟩

/-- The run of digits is read only up to the digit that is no octal one. -/
theorem integer_split_at_eight :
    let l := Lexer.new 0 "018;" .empty
    l.cursor.char? = some '0' ∧ ¬ NamesRadix l.cursor.rest ∧ l.atInteger = true ∧
      digitRun .decimal l.cursor = ['0', '1', '8'] ∧
      l.cursor.textTo l.takeInteger.2.pos = "01" ∧
      (l.takeInteger.2.next .standard).1 = .integer := by
  intro l
  have hrest : l.cursor.rest = ['0', '1', '8', ';'] := by decide +kernel
  refine ⟨by decide +kernel, ?_, by decide +kernel⟩
  rw [hrest]
  rintro ⟨_, _, ⟨⟩, hsome⟩
  exact absurd hsome (by decide)

end TypedScript.Lexer
