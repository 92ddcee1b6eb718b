import TypedScript.Proofs.Lexer.FloatLiteral

/-! # Floats with nothing to report

A float is at fault nowhere exactly if each of its runs that is not empty is grouped and no
separator follows a lone zero in front. That an exponent has no digits is no fault to the
reader: it has nothing to report of a mark or a sign behind which no run stands.
-/

namespace TypedScript

namespace Numeral.FloatForm

/-- A float as it should be written: a digit in the mantissa, each separator between two
digits of one run and not behind a lone zero in front, and a digit in each exponent. -/
structure IsWellFormed (f : FloatForm) : Prop where
  mantissa : ∃ ch ∈ f.mantissa, Text.isDecimal ch = true
  whole : f.whole = [] ∨ IsGrouped .decimal f.whole
  zero : ¬ ['0', '_'] <+: f.whole
  fraction : ∀ run ∈ f.fraction?, run = [] ∨ IsGrouped .decimal run
  exponent : ∀ e ∈ f.exponent?, IsGrouped .decimal e.digits

def IsLiteral (text : List Char) : Prop :=
  ∃ f : FloatForm, f.IsSpelled ∧ f.text = text ∧ f.IsWellFormed

theorem isLiteral_text_iff {f : FloatForm} (h : f.IsSpelled) :
    IsLiteral f.text ↔ f.IsWellFormed := by
  constructor
  · rintro ⟨other, hother, htext, hformed⟩
    rwa [← ofText_text h, ← htext, ofText_text hother]
  · exact fun hformed => ⟨f, h, rfl, hformed⟩

/-- A float as it should be written has no exponent without digits, and all else is a matter
of what is left without one. -/
theorem isWellFormed_iff_closed {f : FloatForm} :
    f.IsWellFormed ↔ f.closed.IsWellFormed ∧ ∀ e ∈ f.exponent?, e.digits ≠ [] := by
  constructor
  · intro h
    have hdigits : ∀ e ∈ f.exponent?, e.digits ≠ [] := fun e he => (h.exponent e he).ne_nil
    rw [closed_eq_self hdigits]
    exact ⟨h, hdigits⟩
  · rintro ⟨h, hdigits⟩
    rwa [closed_eq_self hdigits] at h

end Numeral.FloatForm

namespace Lexer

open Text Numeral FloatForm

variable {c : Cursor} {handling : WordHandling} {limit : Nat} {run : List Char}
  {strictZero : Bool}

theorem isDigitOrSeparator_of_isRun (h : IsRun run) :
    ∀ ch ∈ run, isDigitOrSeparator .decimal ch = true := by
  rw [isDigitOrSeparator_decimal]
  exact h

theorem reports_skipFloatRun_eq_nil_iff (hc : c.inside = 0) :
    (skipFloatRun strictZero c).reports = [] ↔
      (c.rest.takeWhile inRun = [] ∨ IsGrouped .decimal (c.rest.takeWhile inRun)) ∧
        (strictZero = true → ¬ ['0', '_'] <+: c.rest.takeWhile inRun) := by
  have hreports : (skipFloatRun strictZero c).reports =
      separatorReports strictZero c.pos (c.rest.takeWhile inRun) ++
        trailingReports c.pos (c.rest.takeWhile inRun) := by
    rw [reports_skipFloatRun_eq, Cursor.chars, if_pos hc]
    rfl
  rw [hreports]
  by_cases hnil : c.rest.takeWhile inRun = []
  · rw [hnil]
    simp [separatorReports, separatorReportsFrom, trailingReports]
  · rw [runReports_eq_nil_iff (isDigitOrSeparator_of_isRun (List.all_eq_true.mp List.all_takeWhile))
      hnil]
    simp [hnil]

theorem reports_skipFraction_eq_nil_iff (hc : c.inside = 0) :
    (skipFraction c).reports = [] ↔
      ∀ run ∈ fractionOf? c.rest, run = [] ∨ IsGrouped .decimal run := by
  cases h : fractionOf? c.rest with
  | none => simp [skipFraction_of_none h]
  | some run =>
    obtain ⟨rest, hrest, rfl⟩ := exists_of_fractionOf? h
    obtain ⟨hpoint, hmore, hread⟩ := skipFraction_of_point hc hrest
    rw [hread, reports_skipFloatRun_eq_nil_iff hpoint.inside_eq', hmore]
    simp

theorem reports_skipExponent_eq_nil_iff (hc : c.inside = 0) :
    (skipExponent c).reports = [] ↔
      ∀ e ∈ exponentOf? c.rest, e.digits = [] ∨ IsGrouped .decimal e.digits := by
  cases h : exponentOf? c.rest with
  | none => simp [skipExponent_of_none h]
  | some e =>
    obtain ⟨d, hpart, hdigits, hread⟩ := skipExponent_of_some hc h
    rw [hread, reports_skipFloatRun_eq_nil_iff hpart.inside_eq', hdigits]
    simp

theorem reports_readFloat_eq_nil_iff (hc : c.inside = 0)
    (hdigit : ∃ ch ∈ (ofText c.rest).mantissa, isDecimal ch = true) :
    (readFloat c).reports = [] ↔ (ofText c.rest).closed.IsWellFormed := by
  have hwhole := passes_skipFloatRun true hc
  have hfraction := passes_skipFraction hwhole.inside_eq'
  have hrest := rest_skipFloatRun true hc
  have hreports : (readFloat c).reports =
      (skipFloatRun true c).reports ++ (skipFraction (skipFloatRun true c).stop).reports ++
        (skipExponent (skipFraction (skipFloatRun true c).stop).stop).reports := rfl
  rw [hreports, List.append_eq_nil_iff, List.append_eq_nil_iff, reports_skipFloatRun_eq_nil_iff hc,
    reports_skipFraction_eq_nil_iff hwhole.inside_eq',
    reports_skipExponent_eq_nil_iff hfraction.inside_eq', rest_skipFraction hwhole.inside_eq', hrest]
  constructor
  · rintro ⟨⟨⟨hgrouped, hzero⟩, hfractions⟩, hexponents⟩
    refine ⟨hdigit, hgrouped, hzero rfl, hfractions, fun e he => ?_⟩
    obtain ⟨hmem, hne⟩ := mem_closed_iff.mp he
    exact (hexponents e hmem).resolve_left hne
  · intro h
    refine ⟨⟨⟨h.whole, fun _ => h.zero⟩, h.fraction⟩, fun e he => ?_⟩
    by_cases hnil : e.digits = []
    · exact .inl hnil
    · exact .inr (h.exponent e (mem_closed_iff.mpr ⟨he, hnil⟩))

/-- Wherever a scan finds a float, its reader has nothing to report exactly if the float is
as it should be written but for an exponent that has no digits at all. So a float that is not
as it should be written is reported unless the text that is read ends with the mark of an
exponent, or with a sign behind it. -/
theorem readFloat_silent_iff (c : Cursor) (handling : WordHandling) (limit : Nat)
    (h : (scan handling limit c).token = .float) :
    let start := (scan handling limit c).stop
    let read := readFloat start
    ∃ form : FloatForm, form.IsSpelled ∧ start.Passes form.text read.stop ∧
      (read.reports = [] ↔ IsLiteral form.closed.text) ∧
      (IsLiteral form.text ↔ read.reports = [] ∧ ∀ e ∈ form.exponent?, e.digits ≠ []) := by
  intro start read
  obtain ⟨hstart, hdigit⟩ := float_scan h
  have hspelled := isSpelled_ofText start.rest
  have hsilent := reports_readFloat_eq_nil_iff hstart hdigit
  refine ⟨ofText start.rest, hspelled, passes_readFloat_ofText hstart, ?_, ?_⟩
  · rw [isLiteral_text_iff hspelled.closed, hsilent]
  · rw [isLiteral_text_iff hspelled, isWellFormed_iff_closed, hsilent]

theorem readFloat_silent_iff_grouped :
    let c := Cursor.start " 0.2_5E-0_7;".toList
    let start := (scan .standard noLimit c).stop
    (scan .standard noLimit c).token = .float ∧ (readFloat start).reports = [] ∧
      start.textTo (readFloat start).stop.pos = "0.2_5E-0_7" ∧ IsLiteral "0.2_5E-0_7".toList := by
  intro c start
  have htoken : (scan .standard noLimit c).token = .float := by decide +kernel
  have hreports : (readFloat start).reports = [] := by decide +kernel
  have hread : start.textTo (readFloat start).stop.pos = "0.2_5E-0_7" := by decide +kernel
  obtain ⟨form, hspelled, hpart, -, hliteral⟩ := readFloat_silent_iff c .standard noLimit htoken
  have htext : form.text = "0.2_5E-0_7".toList := by
    rw [← hread, hpart.textTo_eq, String.toList_ofList]
  have hdigits : ∀ e ∈ form.exponent?, e.digits ≠ [] := by
    rw [← ofText_text hspelled, htext]
    decide +kernel
  exact ⟨htoken, hreports, hread, htext ▸ hliteral.mpr ⟨hreports, hdigits⟩⟩

/-- Nothing is reported of a mark of an exponent without digits behind it. -/
theorem silent_at_open_exponent :
    let c := Cursor.start "1e;".toList
    let start := (scan .standard noLimit c).stop
    (scan .standard noLimit c).token = .float ∧ start.textTo (readFloat start).stop.pos = "1e" ∧
      (readFloat start).reports = [] ∧ ¬ IsLiteral "1e".toList := by
  refine ⟨by decide +kernel, by decide +kernel, by decide +kernel, fun hliteral => ?_⟩
  have hspelled := isSpelled_ofText "1e".toList
  have htext : (ofText "1e".toList).text = "1e".toList := by decide +kernel
  rw [← htext] at hliteral
  have hformed := (isLiteral_text_iff hspelled).mp hliteral
  have hopen : (⟨'e', none, []⟩ : Exponent) ∈ (ofText "1e".toList).exponent? := by decide +kernel
  exact (hformed.exponent _ hopen).ne_nil rfl

end Lexer

end TypedScript
