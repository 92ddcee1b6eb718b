import TypedScript.Proofs.Numeral.FloatForm

/-! # The number of a float

Without its separators a form is read as a decimal number if neither its mantissa nor an
exponent lacks a digit. An exponent without digits is dropped in a second attempt, which
leaves the rest of the form as it is.
-/

namespace TypedScript.Numeral

open Text

namespace FloatForm

def withoutSeparators (run : List Char) : List Char :=
  run.filter (· ≠ '_')

def stripped (f : FloatForm) : FloatForm where
  whole := withoutSeparators f.whole
  fraction? := f.fraction?.map withoutSeparators
  exponent? := f.exponent?.map fun e => { e with digits := withoutSeparators e.digits }

/-- The form without an exponent that has no digits. -/
def closed (f : FloatForm) : FloatForm :=
  { f with exponent? := f.exponent?.filter (·.digits ≠ []) }

structure IsPlain (f : FloatForm) : Prop where
  spelled : f.IsSpelled
  whole : ∀ ch ∈ f.whole, isDecimal ch = true
  fraction : ∀ run ∈ f.fraction?, ∀ ch ∈ run, isDecimal ch = true
  exponent : ∀ e ∈ f.exponent?, ∀ ch ∈ e.digits, isDecimal ch = true

/-- A form that is a decimal number: neither its mantissa nor an exponent lacks a digit. -/
structure IsNumber (f : FloatForm) : Prop extends f.IsPlain where
  mantissa_ne : f.mantissa ≠ []
  exponent_ne : ∀ e ∈ f.exponent?, e.digits ≠ []

def decimal (f : FloatForm) : Decimal where
  mantissa := Radix.decimal.value f.mantissa
  exponent := f.exponent?.elim 0 Exponent.value - (f.fraction?.getD []).length

end FloatForm

open FloatForm

variable {ch : Char} {run : List Char} {f : FloatForm} {e : Exponent}

theorem isDecimal_of_mem_withoutSeparators (hrun : IsRun run) :
    ∀ ch ∈ withoutSeparators run, isDecimal ch = true := by
  intro ch hch
  obtain ⟨hmem, hne⟩ := List.mem_filter.mp hch
  rcases Bool.or_eq_true_iff.mp (hrun ch hmem) with hdigit | hseparator
  · exact hdigit
  · exact absurd (beq_iff_eq.mp hseparator) (of_decide_eq_true hne)

theorem isRun_of_isDecimal (h : ∀ ch ∈ run, isDecimal ch = true) : IsRun run := by
  intro ch hch
  rw [inRun, h ch hch, Bool.true_or]

theorem withoutSeparators_append (run more : List Char) :
    withoutSeparators (run ++ more) = withoutSeparators run ++ withoutSeparators more :=
  List.filter_append ..

theorem withoutSeparators_cons (h : ch ≠ '_') (run : List Char) :
    withoutSeparators (ch :: run) = ch :: withoutSeparators run :=
  List.filter_cons_of_pos (by simpa)

theorem ne_separator_of_inRun_eq_false (h : inRun ch = false) : ch ≠ '_' := by
  rintro rfl
  cases h

theorem fractionText_stripped (f : FloatForm) :
    fractionText f.stripped.fraction? = withoutSeparators (fractionText f.fraction?) := by
  rw [stripped]
  cases f.fraction? with
  | none => rfl
  | some run => exact (withoutSeparators_cons (by decide) run).symm

theorem exponentText_stripped (h : f.IsSpelled) :
    exponentText f.stripped.exponent? = withoutSeparators (exponentText f.exponent?) := by
  rw [stripped]
  cases he : f.exponent? with
  | none => rfl
  | some e =>
    obtain ⟨hmark, hsign, -⟩ := h.exponent e he
    have hmark := ne_separator_of_inRun_eq_false (inRun_eq_false_of_isExponentMark hmark)
    simp only [exponentText, Option.map_some, Exponent.text]
    rw [withoutSeparators_cons hmark]
    cases hs : e.sign? with
    | none => rfl
    | some ch =>
      have hch := ne_separator_of_inRun_eq_false (inRun_eq_false_of_isSign (hsign ch hs))
      exact congrArg (e.mark :: ·) (withoutSeparators_cons hch e.digits).symm

theorem text_stripped (h : f.IsSpelled) : f.stripped.text = withoutSeparators f.text := by
  rw [FloatForm.text, FloatForm.text, withoutSeparators_append, withoutSeparators_append,
    fractionText_stripped, exponentText_stripped h]
  rfl

theorem isPlain_stripped (h : f.IsSpelled) : f.stripped.IsPlain := by
  have hwhole := isDecimal_of_mem_withoutSeparators h.whole
  have hfraction : ∀ run ∈ f.stripped.fraction?, ∀ ch ∈ run, isDecimal ch = true := by
    intro run hrun
    obtain ⟨more, hmore, rfl⟩ := Option.map_eq_some_iff.mp hrun
    exact isDecimal_of_mem_withoutSeparators (h.fraction more hmore)
  have hexponent : ∀ e ∈ f.stripped.exponent?, e.IsSpelled ∧ ∀ ch ∈ e.digits, isDecimal ch = true := by
    intro e he
    obtain ⟨e, hmem, rfl⟩ := Option.map_eq_some_iff.mp he
    obtain ⟨hmark, hsign, hdigits⟩ := h.exponent e hmem
    have hplain := isDecimal_of_mem_withoutSeparators hdigits
    exact ⟨⟨hmark, hsign, isRun_of_isDecimal hplain⟩, hplain⟩
  exact ⟨⟨isRun_of_isDecimal hwhole, fun run hrun => isRun_of_isDecimal (hfraction run hrun),
    fun e he => (hexponent e he).1⟩, hwhole, hfraction, fun e he => (hexponent e he).2⟩

theorem mem_closed_iff : e ∈ f.closed.exponent? ↔ e ∈ f.exponent? ∧ e.digits ≠ [] := by
  rw [closed, Option.mem_def, Option.filter_eq_some_iff, decide_eq_true_eq, Option.mem_def]

theorem FloatForm.IsSpelled.closed (h : f.IsSpelled) : f.closed.IsSpelled where
  whole := h.whole
  fraction := h.fraction
  exponent e he := h.exponent e (mem_closed_iff.mp he).1

theorem FloatForm.IsPlain.closed (h : f.IsPlain) : f.closed.IsPlain where
  spelled := h.spelled.closed
  whole := h.whole
  fraction := h.fraction
  exponent e he := h.exponent e (mem_closed_iff.mp he).1

theorem FloatForm.IsPlain.isNumber_closed (h : f.IsPlain) (hne : f.mantissa ≠ []) :
    f.closed.IsNumber where
  toIsPlain := h.closed
  mantissa_ne := hne
  exponent_ne _ he := (mem_closed_iff.mp he).2

theorem mantissa_stripped_ne_nil (h : ∃ ch ∈ f.mantissa, isDecimal ch = true) :
    f.stripped.mantissa ≠ [] := by
  obtain ⟨ch, hch, hdigit⟩ := h
  have hmantissa : f.stripped.mantissa = withoutSeparators f.mantissa := by
    rw [mantissa, mantissa, withoutSeparators_append, stripped]
    cases f.fraction? <;> rfl
  have hne : ch ≠ '_' := by
    rintro rfl
    exact absurd hdigit (by decide)
  rw [hmantissa]
  exact List.ne_nil_of_mem (List.mem_filter.mpr ⟨hch, by simpa⟩)

theorem exponent?_text (hspelled : e.IsSpelled) (hdigits : ∀ ch ∈ e.digits, isDecimal ch = true) :
    Decimal.exponent? e.text = if e.digits = [] then none else some e.value := by
  have hall : e.digits.all isDecimal = true := List.all_eq_true.mpr hdigits
  have hmark := hspelled.mark
  cases hsign : e.sign? with
  | some ch =>
    have hch := hspelled.sign ch hsign
    simp only [isSign, Bool.or_eq_true, beq_iff_eq] at hch
    rcases hch with rfl | rfl <;>
      simp [Exponent.text, Decimal.exponent?, Exponent.value, hmark, hsign, hall]
  | none =>
    cases hfirst : e.digits with
    | nil => simp [Exponent.text, Decimal.exponent?, hmark, hsign, hfirst]
    | cons first more =>
      have hne : first ≠ '-' ∧ first ≠ '+' := by
        have hdecimal := hdigits first (hfirst ▸ List.mem_cons_self)
        constructor <;> rintro rfl <;> exact absurd hdecimal (by decide)
      rw [hfirst] at hall
      simpa [Exponent.text, Decimal.exponent?, Exponent.value, hmark, hsign, hfirst, hne.1, hne.2]
        using hall

theorem ofText?_text (h : f.IsPlain) (hne : f.mantissa ≠ []) :
    Decimal.ofText? f.text =
      (Decimal.exponent? (exponentText f.exponent?)).map fun exponent =>
        ⟨Radix.decimal.value f.mantissa, exponent - (f.fraction?.getD []).length⟩ := by
  have hrun : ∀ {ch}, inRun ch = false → isDecimal ch = false := fun hch =>
    (Bool.or_eq_false_iff.mp hch).1
  have hend : ∀ ch, (exponentText f.exponent?).head? = some ch → isDecimal ch = false :=
    fun ch hch => hrun (Exponent.IsSpelled.inRun_head h.spelled.exponent ch hch)
  obtain ⟨hwhole, hrest⟩ := span_run_append h.whole fun ch hch =>
    hrun (inRun_head_tail f.fraction? h.spelled.exponent ch hch)
  simp only [Decimal.ofText?, FloatForm.text, hwhole, hrest]
  cases hf : f.fraction? with
  | some run =>
    obtain ⟨hfraction, hmore⟩ := span_run_append (h.fraction run hf) hend
    have hboth : ¬ (f.whole = [] ∧ run = []) := by
      rintro ⟨hnil, rfl⟩
      exact hne (by rw [mantissa, hnil, hf]; rfl)
    simp only [fractionText, List.cons_append, hfraction, hmore, if_neg hboth, mantissa, hf,
      Option.getD_some]
  | none =>
    have hnil : f.whole ≠ [] := fun hnil => hne (by rw [mantissa, hnil, hf]; rfl)
    cases he : f.exponent? with
    | none => simp [fractionText, exponentText, mantissa, hf, hnil]
    | some e =>
      have hpoint := ne_point_of_isExponentMark (h.spelled.exponent e he).mark
      simp [fractionText, exponentText, mantissa, hf, hnil, Exponent.text, hpoint]

theorem ofText?_of_isNumber (h : f.IsNumber) : Decimal.ofText? f.text = some f.decimal := by
  rw [ofText?_text h.toIsPlain h.mantissa_ne, decimal]
  cases he : f.exponent? with
  | none => rfl
  | some e =>
    rw [exponentText, exponent?_text (h.spelled.exponent e he) (h.exponent e he),
      if_neg (h.exponent_ne e he)]
    rfl

theorem closed_eq_self (h : ∀ e ∈ f.exponent?, e.digits ≠ []) : f.closed = f := by
  obtain ⟨whole, fraction?, exponent?⟩ := f
  cases exponent? with
  | none => rfl
  | some e => simp [closed, h e rfl]

theorem text_closed_of_open (he : f.exponent? = some e) (hopen : e.digits = []) :
    f.closed.text = f.whole ++ fractionText f.fraction? := by
  have hnone : f.closed.exponent? = none := by simp [closed, he, hopen]
  rw [FloatForm.text, hnone, exponentText, List.append_nil]
  rfl

/-- In front of its exponent a form without separators has only digits and a point. -/
theorem FloatForm.IsPlain.isDecimal_or_eq_point (h : f.IsPlain) :
    ∀ ch ∈ f.whole ++ fractionText f.fraction?, isDecimal ch = true ∨ ch = '.' := by
  intro ch hch
  rcases List.mem_append.mp hch with hch | hch
  · exact .inl (h.whole ch hch)
  · cases hf : f.fraction? with
    | none =>
      rw [hf] at hch
      cases hch
    | some run =>
      rw [hf] at hch
      rcases List.mem_cons.mp hch with rfl | hch
      · exact .inr rfl
      · exact .inl (h.fraction run hf ch hch)

theorem dropOpenExponent_text (h : f.IsPlain) (he : f.exponent? = some e)
    (hopen : e.digits = []) : Decimal.dropOpenExponent f.text = f.closed.text := by
  obtain ⟨hmark, hsign, -⟩ := h.spelled.exponent e he
  have htext : f.text.reverse =
      (e.mark :: e.sign?.toList).reverse ++ (f.whole ++ fractionText f.fraction?).reverse := by
    rw [← List.reverse_append, FloatForm.text, he, exponentText, Exponent.text, hopen,
      List.append_nil, List.append_assoc]
  have hdropped : ∀ ch ∈ (e.mark :: e.sign?.toList).reverse,
      (Decimal.isExponentMark ch || ch == '+' || ch == '-') = true := by
    intro ch hch
    rcases List.mem_cons.mp (List.mem_reverse.mp hch) with rfl | hch
    · rw [hmark, Bool.true_or, Bool.true_or]
    · rw [Bool.or_assoc]
      exact Bool.or_eq_true_iff.mpr (.inr (hsign ch (Option.mem_toList.mp hch)))
  have hstop : ∀ ch, (f.whole ++ fractionText f.fraction?).reverse.head? = some ch →
      (Decimal.isExponentMark ch || ch == '+' || ch == '-') = false := by
    intro ch hch
    have hmem := List.mem_reverse.mp (List.mem_of_mem_head? hch)
    refine Bool.eq_false_iff.mpr fun hdrop => ?_
    simp only [Decimal.isExponentMark, Bool.or_eq_true, beq_iff_eq] at hdrop
    rcases h.isDecimal_or_eq_point ch hmem with hdigit | rfl
    · rcases hdrop with ((rfl | rfl) | rfl) | rfl <;> exact absurd hdigit (by decide)
    · exact absurd hdrop (by decide)
  rw [Decimal.dropOpenExponent, htext, (span_run_append hdropped hstop).2, List.reverse_reverse,
    text_closed_of_open he hopen]

/-- Of a form without separators the text itself is read, or else what is left of it when an
exponent without digits is dropped. -/
theorem floatValue_text (h : f.IsPlain) (hne : f.mantissa ≠ []) :
    (Decimal.ofText? f.text = some f.closed.decimal ∧ f.text = f.closed.text ∨
      Decimal.ofText? f.text = none ∧ Decimal.dropOpenExponent f.text = f.closed.text) ∧
    Decimal.ofText? f.closed.text = some f.closed.decimal ∧
    floatValue f.text = f.closed.decimal.toFloat := by
  have hread := ofText?_of_isNumber (h.isNumber_closed hne)
  by_cases hclosed : ∀ e ∈ f.exponent?, e.digits ≠ []
  · rw [closed_eq_self hclosed] at hread ⊢
    exact ⟨.inl ⟨hread, rfl⟩, hread, by rw [floatValue, hread]; rfl⟩
  · simp only [not_forall, not_not] at hclosed
    obtain ⟨e, he, hopen⟩ := hclosed
    have hfirst : Decimal.ofText? f.text = none := by
      rw [ofText?_text h hne, he, exponentText,
        exponent?_text (h.spelled.exponent e he) (h.exponent e he), if_pos hopen]
      rfl
    have hdropped := dropOpenExponent_text h he hopen
    exact ⟨.inr ⟨hfirst, hdropped⟩, hread, by rw [floatValue, hfirst, hdropped, hread]; rfl⟩

end TypedScript.Numeral
