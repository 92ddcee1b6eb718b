import TypedScript.Proofs.Lexer.Maximal
import TypedScript.Proofs.Lexer.NumberExtent
import TypedScript.Proofs.Numeral.FloatNumber
import TypedScript.Proofs.Numeral.Rounding

/-! # Float literals

The reader of floats takes the longest form of a float at its place. Where a scan has found
a float there is a digit in the mantissa, so the text without its separators is read as a
number, if need be after an exponent without digits is dropped: no part of the mantissa is
lost, nor is an exponent that has digits.
-/

namespace TypedScript.Lexer

open Text Numeral FloatForm

variable {c d stop : Cursor} {ch : Char} {rest : List Char} {handling : WordHandling}
  {limit : Nat}

theorem utf8Size_of_isSign (h : isSign ch = true) : ch.utf8Size = 1 := by
  simp only [isSign, Bool.or_eq_true, beq_iff_eq] at h
  rcases h with rfl | rfl <;> rfl

theorem passes_skipFloatRun (strictZero : Bool) (hc : c.inside = 0) :
    c.Passes (c.rest.takeWhile inRun) (skipFloatRun strictZero c).stop :=
  Cursor.passes_skipChars hc inRun

theorem rest_skipFloatRun (strictZero : Bool) (hc : c.inside = 0) :
    (skipFloatRun strictZero c).stop.rest = c.rest.dropWhile inRun :=
  (passes_skipFloatRun strictZero hc).rest_eq_of_append List.takeWhile_append_dropWhile.symm

theorem skipFraction_of_point (hc : c.inside = 0) (h : c.rest = '.' :: rest) :
    c.Passes ['.'] (c.advance 1) ∧ (c.advance 1).rest = rest ∧
      skipFraction c = skipFloatRun false (c.advance 1) := by
  have hch := Cursor.char?_eq_some_iff.mpr ⟨hc, rest, h⟩
  have hpart := Cursor.passes_advance_one hch rfl
  exact ⟨hpart, hpart.rest_eq_of_append h, if_pos hch⟩

theorem skipFraction_of_none (h : fractionOf? c.rest = none) :
    skipFraction c = ⟨(), c, []⟩ := by
  refine if_neg fun hch => ?_
  obtain ⟨-, rest, hrest⟩ := Cursor.char?_eq_some_iff.mp hch
  rw [hrest] at h
  cases h

theorem exists_of_fractionOf? {text run : List Char} (h : fractionOf? text = some run) :
    ∃ rest, text = '.' :: rest ∧ run = rest.takeWhile inRun := by
  unfold fractionOf? at h
  split at h
  · exact ⟨_, rfl, (Option.some.inj h).symm⟩
  · cases h

theorem passes_skipFraction (hc : c.inside = 0) :
    c.Passes (fractionText (fractionOf? c.rest)) (skipFraction c).stop := by
  cases h : fractionOf? c.rest with
  | none =>
    rw [skipFraction_of_none h]
    exact .refl hc
  | some run =>
    obtain ⟨rest, hrest, rfl⟩ := exists_of_fractionOf? h
    obtain ⟨hpoint, hmore, hread⟩ := skipFraction_of_point hc hrest
    have hrun := passes_skipFloatRun false hpoint.inside_eq'
    rw [hmore] at hrun
    rw [hread]
    exact hpoint.trans hrun

theorem rest_skipFraction (hc : c.inside = 0) :
    (skipFraction c).stop.rest = behindFraction c.rest :=
  (passes_skipFraction hc).rest_eq_of_append (fractionOf?_append c.rest)

theorem passes_sign (hc : c.inside = 0) :
    c.Passes (signOf? c.rest).toList
      (if c.char? = some '+' || c.char? = some '-' then c.advance 1 else c) := by
  cases hrest : c.rest with
  | nil =>
    have hnone := (Cursor.char?_eq_none_iff hc).mpr hrest
    simp only [hnone, reduceCtorEq, decide_false, Bool.or_false, Bool.false_eq_true, if_false]
    exact .refl hc
  | cons ch rest =>
    have hch := Cursor.char?_eq_some_iff.mpr ⟨hc, rest, hrest⟩
    have hsign : (decide (c.char? = some '+') || decide (c.char? = some '-')) = isSign ch := by
      simp only [hch, Option.some.injEq]
      rfl
    rw [hsign, signOf?]
    split
    · rename_i hsign
      exact Cursor.passes_advance_one hch (utf8Size_of_isSign hsign)
    · exact .refl hc

theorem skipExponent_of_mark (hc : c.inside = 0) (h : c.rest = ch :: rest)
    (hmark : Decimal.isExponentMark ch = true) :
    ∃ d, c.Passes (ch :: (signOf? rest).toList) d ∧ skipExponent c = skipFloatRun false d := by
  have hch := Cursor.char?_eq_some_iff.mpr ⟨hc, rest, h⟩
  have hpart := Cursor.passes_advance_one hch (utf8Size_of_isExponentMark hmark)
  have hsign := passes_sign hpart.inside_eq'
  rw [hpart.rest_eq_of_append h] at hsign
  refine ⟨_, hpart.trans hsign, ?_⟩
  rw [skipExponent, if_pos ((Option.any_eq_true _ _).mpr ⟨ch, hch, hmark⟩)]

theorem skipExponent_of_none (h : exponentOf? c.rest = none) : skipExponent c = ⟨(), c, []⟩ := by
  refine if_neg fun hany => ?_
  obtain ⟨ch, hch, hmark⟩ := (Option.any_eq_true _ _).mp hany
  obtain ⟨-, rest, hrest⟩ := Cursor.char?_eq_some_iff.mp hch
  rw [hrest, exponentOf?, if_pos hmark] at h
  cases h

theorem exists_of_exponentOf? {text : List Char} {e : Exponent} (h : exponentOf? text = some e) :
    ∃ rest, text = e.mark :: rest ∧ Decimal.isExponentMark e.mark = true ∧ e.sign? = signOf? rest ∧
      e.digits = (rest.drop (signOf? rest).toList.length).takeWhile inRun := by
  unfold exponentOf? at h
  split at h
  · cases h
  · split at h
    · obtain rfl := Option.some.inj h
      exact ⟨_, rfl, ‹_›, rfl, rfl⟩
    · cases h

theorem skipExponent_of_some {e : Exponent} (hc : c.inside = 0) (h : exponentOf? c.rest = some e) :
    ∃ d, c.Passes (e.mark :: e.sign?.toList) d ∧ d.rest.takeWhile inRun = e.digits ∧
      skipExponent c = skipFloatRun false d := by
  obtain ⟨rest, hrest, hmark, hsign, hdigits⟩ := exists_of_exponentOf? h
  obtain ⟨d, hpart, hread⟩ := skipExponent_of_mark hc hrest hmark
  have hmore : d.rest = rest.drop (signOf? rest).toList.length := by
    refine hpart.rest_eq_of_append ?_
    rw [hrest, List.cons_append, ← signOf?_append]
  exact ⟨d, hsign ▸ hpart, by rw [hmore, hdigits], hread⟩

theorem passes_skipExponent (hc : c.inside = 0) :
    c.Passes (exponentText (exponentOf? c.rest)) (skipExponent c).stop := by
  cases h : exponentOf? c.rest with
  | none =>
    rw [skipExponent_of_none h]
    exact .refl hc
  | some e =>
    obtain ⟨d, hpart, hdigits, hread⟩ := skipExponent_of_some hc h
    have hrun := passes_skipFloatRun false hpart.inside_eq'
    rw [hdigits] at hrun
    rw [hread]
    exact hpart.trans hrun

theorem passes_readFloat_ofText (hc : c.inside = 0) :
    c.Passes (ofText c.rest).text (readFloat c).stop := by
  have hwhole := passes_skipFloatRun true hc
  have hfraction := passes_skipFraction hwhole.inside_eq'
  have hexponent := passes_skipExponent hfraction.inside_eq'
  rw [rest_skipFraction hwhole.inside_eq'] at hexponent
  rw [rest_skipFloatRun true hc] at hfraction hexponent
  exact hwhole.trans (hfraction.trans hexponent)

theorem wordAt_ne_float (handling : WordHandling) (c stop : Cursor) :
    wordAt handling c ≠ .token .float stop := by
  unfold wordAt
  simp only
  split
  · simp
  · split <;> simp
  · simp

/-- A float stands where it is found, and begins with a digit or with a point and a digit. -/
theorem float_pieceAt (h : pieceAt handling limit c = .token .float stop) :
    stop = c ∧ c.inside = 0 ∧
      ((∃ ch, c.char? = some ch ∧ isDecimal ch = true) ∨ isPointFloat c = true) := by
  obtain ⟨ch, hch⟩ := exists_char?_of_token h
  obtain ⟨hc, -⟩ := Cursor.char?_eq_some_iff.mp hch
  have harises := arises_pieceAt handling limit hch
  rw [h] at harises
  generalize hpiece : Piece.token .float stop = piece at harises
  cases harises with
  | word => exact absurd hpiece.symm (wordAt_ne_float handling c stop)
  | number hdigit =>
    injection hpiece with _ hstop
    exact ⟨hstop, hc, .inl ⟨ch, hch, hdigit⟩⟩
  | point hpoint =>
    cases hpiece
    exact ⟨rfl, hc, .inr hpoint⟩
  | punctuator =>
    obtain ⟨mark, hmark, -⟩ := passes_of_punctuatorAt hc hpiece.symm
    cases hmark
  | blockComment => exact absurd hpiece.symm ne_token_of_blockCommentAt
  | blank | lineComment | string | template => cases hpiece

theorem mem_takeWhile_inRun (h : isDecimal ch = true) (rest : List Char) :
    ch ∈ (ch :: rest).takeWhile inRun := by
  rw [List.takeWhile_cons_of_pos (by rw [inRun, h, Bool.true_or])]
  exact List.mem_cons_self

theorem exists_digit_mantissa
    (h : (∃ ch, c.char? = some ch ∧ isDecimal ch = true) ∨ isPointFloat c = true) :
    ∃ ch ∈ (ofText c.rest).mantissa, isDecimal ch = true := by
  rcases h with ⟨ch, hch, hdigit⟩ | hpoint
  · obtain ⟨-, rest, hrest⟩ := Cursor.char?_eq_some_iff.mp hch
    rw [hrest]
    exact ⟨ch, List.mem_append_left _ (mem_takeWhile_inRun hdigit rest), hdigit⟩
  · unfold isPointFloat at hpoint
    split at hpoint
    · rename_i digit rest hchars
      rw [(Cursor.rest_eq_of_chars_eq_cons hchars).2]
      exact ⟨digit, mem_takeWhile_inRun hpoint rest, hpoint⟩
    · cases hpoint

theorem float_scan (h : (scan handling limit c).token = .float) :
    let start := (scan handling limit c).stop
    start.inside = 0 ∧ ∃ ch ∈ (ofText start.rest).mantissa, isDecimal ch = true := by
  intro start
  rcases piece_scanFrom handling limit [] c with ⟨-, hend, -⟩ | hpiece
  · change (scan handling limit c).token = .endOfText at hend
    rw [h] at hend
    cases hend
  · change pieceAt handling limit (scan handling limit c).start =
      .token (scan handling limit c).token start at hpiece
    rw [h] at hpiece
    obtain ⟨hstop, hinside, hfirst⟩ := float_pieceAt hpiece
    rw [hstop]
    exact ⟨hinside, exists_digit_mantissa hfirst⟩

theorem value_readFloat (hc : c.inside = 0) :
    (readFloat c).value = floatValue (withoutSeparators (ofText c.rest).text) := by
  have hpart := passes_readFloat_ofText hc
  have htext : (c.textTo (readFloat c).stop.pos).toList = (ofText c.rest).text := by
    rw [hpart.textTo_eq, String.toList_ofList]
  exact congrArg (fun text => floatValue (withoutSeparators text)) htext

/-- Wherever a scan finds a float, the longest form of a float with which the text goes on is
read. Its text without separators is a number, or is one when an exponent without digits is
dropped, so that it has the value of its digits and never the one that stands for no number. -/
theorem readFloat_longest (c : Cursor) (handling : WordHandling) (limit : Nat)
    (h : (scan handling limit c).token = .float) :
    let start := (scan handling limit c).stop
    let read := readFloat start
    ∃ form : FloatForm,
      (form.IsSpelled ∧ start.Passes form.text read.stop ∧
        ∀ other : FloatForm, other.IsSpelled → other.text <+: start.rest →
          other.text.length ≤ form.text.length) ∧
      let text := form.text.filter (· ≠ '_')
      let number := form.stripped.closed
      number.IsNumber ∧ Decimal.ofText? number.text = some number.decimal ∧
        (Decimal.ofText? text = some number.decimal ∧ text = number.text ∨
          Decimal.ofText? text = none ∧ Decimal.dropOpenExponent text = number.text) ∧
        read.value = number.decimal.toFloat ∧ read.value.isNaN = false := by
  intro start read
  obtain ⟨hstart, hdigit⟩ := float_scan h
  have hspelled := isSpelled_ofText start.rest
  have hplain := isPlain_stripped hspelled
  have hne := mantissa_stripped_ne_nil hdigit
  obtain ⟨hattempts, hread, hvalue⟩ := floatValue_text hplain hne
  refine ⟨ofText start.rest, ⟨hspelled, passes_readFloat_ofText hstart, fun other hother hbegins =>
    length_text_le_ofText hother hbegins⟩, hplain.isNumber_closed hne, hread, ?_, ?_⟩
  · rw [text_stripped hspelled] at hattempts
    exact hattempts
  · have hwhole : read.value = (ofText start.rest).stripped.closed.decimal.toFloat := by
      rw [value_readFloat hstart, ← text_stripped hspelled]
      exact hvalue
    exact ⟨hwhole, hwhole ▸ isNaN_toFloat _⟩

theorem readFloat_longest_dangling :
    let c := Cursor.start " 1_2.5_0E+;".toList
    let start := (scan .standard noLimit c).stop
    (scan .standard noLimit c).token = .float ∧ (readFloat start).stop.pos = 10 ∧
      Decimal.ofText? "12.50E+".toList = none ∧
      (readFloat start).value = (⟨1250, -2⟩ : Decimal).toFloat ∧
      (readFloat start).value.isNaN = false := by
  intro c start
  have htoken : (scan .standard noLimit c).token = .float := by decide +kernel
  have hstop : (readFloat start).stop.pos = 10 := by decide +kernel
  obtain ⟨form, ⟨hspelled, hpart, -⟩, -, -, -, hvalue, hnumber⟩ :=
    readFloat_longest c .standard noLimit htoken
  have hform : form = ofText "1_2.5_0E+".toList := by
    have hread : start.textTo (readFloat start).stop.pos = "1_2.5_0E+" := by decide +kernel
    have htext : form.text = "1_2.5_0E+".toList := by
      rw [← hread, hpart.textTo_eq, String.toList_ofList]
    rw [← htext, ofText_text hspelled]
  refine ⟨htoken, hstop, by decide +kernel, ?_, hnumber⟩
  rw [hvalue, hform]
  exact congrArg Decimal.toFloat (by decide +kernel)

end TypedScript.Lexer
