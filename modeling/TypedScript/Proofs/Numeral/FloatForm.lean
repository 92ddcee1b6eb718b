import Mathlib.Data.List.TakeWhile
import TypedScript.Numeral.Decimal
import TypedScript.Proofs.Text.Passage

/-! # The written form of floats

A float is written as a run of digits and separators, perhaps a point and a second run, and
perhaps the mark of an exponent with a sign and a third run. Every run may be empty. The
form with which a text begins is found by taking each part as far as it goes. No form with
which the text begins is longer, and a text that is a form is one in no other way.
-/

namespace TypedScript.Numeral

open Text

def inRun (ch : Char) : Bool :=
  isDecimal ch || ch == '_'

def IsRun (run : List Char) : Prop :=
  ∀ ch ∈ run, inRun ch = true

def isSign (ch : Char) : Bool :=
  ch == '+' || ch == '-'

structure Exponent where
  mark : Char
  sign? : Option Char
  digits : List Char
deriving DecidableEq

namespace Exponent

def text (e : Exponent) : List Char :=
  e.mark :: (e.sign?.toList ++ e.digits)

structure IsSpelled (e : Exponent) : Prop where
  mark : Decimal.isExponentMark e.mark = true
  sign : ∀ ch ∈ e.sign?, isSign ch = true
  digits : IsRun e.digits

def value (e : Exponent) : Int :=
  let n : Int := Radix.decimal.value e.digits
  if e.sign? = some '-' then -n else n

end Exponent

structure FloatForm where
  whole : List Char
  fraction? : Option (List Char)
  exponent? : Option Exponent
deriving DecidableEq

namespace FloatForm

def fractionText : Option (List Char) → List Char
  | none => []
  | some run => '.' :: run

def exponentText : Option Exponent → List Char
  | none => []
  | some e => e.text

def text (f : FloatForm) : List Char :=
  f.whole ++ (fractionText f.fraction? ++ exponentText f.exponent?)

def mantissa (f : FloatForm) : List Char :=
  f.whole ++ f.fraction?.getD []

structure IsSpelled (f : FloatForm) : Prop where
  whole : IsRun f.whole
  fraction : ∀ run ∈ f.fraction?, IsRun run
  exponent : ∀ e ∈ f.exponent?, e.IsSpelled

def signOf? : List Char → Option Char
  | [] => none
  | ch :: _ => if isSign ch then some ch else none

def exponentOf? : List Char → Option Exponent
  | [] => none
  | mark :: rest =>
    if Decimal.isExponentMark mark then
      some ⟨mark, signOf? rest, (rest.drop (signOf? rest).toList.length).takeWhile inRun⟩
    else none

def fractionOf? : List Char → Option (List Char)
  | '.' :: rest => some (rest.takeWhile inRun)
  | _ => none

def behindFraction : List Char → List Char
  | '.' :: rest => rest.dropWhile inRun
  | rest => rest

def ofText (text : List Char) : FloatForm :=
  let rest := text.dropWhile inRun
  ⟨text.takeWhile inRun, fractionOf? rest, exponentOf? (behindFraction rest)⟩

end FloatForm

open FloatForm

variable {ch : Char} {run tail text : List Char} {f : FloatForm} {e : Exponent}
  {fraction? : Option (List Char)} {exponent? : Option Exponent}

theorem inRun_eq_false_of_isExponentMark (h : Decimal.isExponentMark ch = true) :
    inRun ch = false := by
  simp only [Decimal.isExponentMark, Bool.or_eq_true, beq_iff_eq] at h
  rcases h with rfl | rfl <;> rfl

theorem inRun_eq_false_of_isSign (h : isSign ch = true) : inRun ch = false := by
  simp only [isSign, Bool.or_eq_true, beq_iff_eq] at h
  rcases h with rfl | rfl <;> rfl

theorem ne_point_of_isExponentMark (h : Decimal.isExponentMark ch = true) : ch ≠ '.' := by
  rintro rfl
  exact absurd h (by decide)

theorem fractionOf?_of_isExponentMark (h : Decimal.isExponentMark ch = true) (rest : List Char) :
    fractionOf? (ch :: rest) = none ∧ behindFraction (ch :: rest) = ch :: rest := by
  simp [fractionOf?, behindFraction, ne_point_of_isExponentMark h]

theorem Exponent.IsSpelled.inRun_head (h : ∀ e ∈ exponent?, e.IsSpelled) :
    ∀ ch, (exponentText exponent?).head? = some ch → inRun ch = false := by
  intro ch hch
  cases exponent? with
  | none => cases hch
  | some e =>
    obtain rfl := Option.some.inj hch
    exact inRun_eq_false_of_isExponentMark (h e rfl).mark

theorem inRun_head_tail (fraction? : Option (List Char)) (h : ∀ e ∈ exponent?, e.IsSpelled) :
    ∀ ch, (fractionText fraction? ++ exponentText exponent?).head? = some ch →
      inRun ch = false := by
  intro ch hch
  cases fraction? with
  | none => exact Exponent.IsSpelled.inRun_head h ch hch
  | some run =>
    obtain rfl := Option.some.inj hch
    rfl

theorem length_le_of_isRun (hrun : IsRun run) (h : run <+: text) :
    run.length ≤ (text.takeWhile inRun).length := by
  obtain ⟨after, rfl⟩ := h
  rw [List.takeWhile_append_of_pos hrun, List.length_append]
  exact Nat.le_add_right _ _

/-- A run that begins a text is the whole run there, unless nothing is said to follow it. -/
theorem run_of_prefix (hrun : IsRun run) (htail : ∀ ch, tail.head? = some ch → inRun ch = false)
    (h : run ++ tail <+: text) :
    tail = [] ∨ run = text.takeWhile inRun ∧ tail <+: text.dropWhile inRun := by
  cases tail with
  | nil => exact .inl rfl
  | cons ch tail =>
    obtain ⟨after, rfl⟩ := h
    have hafter : ∀ first, (ch :: tail ++ after).head? = some first → inRun first = false := htail
    have hsplit := span_run_append hrun hafter
    rw [List.append_assoc, hsplit.1, hsplit.2]
    exact .inr ⟨rfl, List.prefix_append _ _⟩

theorem signOf?_append (text : List Char) :
    text = (signOf? text).toList ++ text.drop (signOf? text).toList.length := by
  cases text with
  | nil => rfl
  | cons ch text =>
    by_cases hsign : isSign ch = true
    · simp [signOf?, hsign]
    · simp [signOf?, hsign]

theorem isSign_of_signOf? (h : signOf? text = some ch) : isSign ch = true := by
  unfold signOf? at h
  split at h
  · cases h
  · split at h
    · obtain rfl := Option.some.inj h
      assumption
    · cases h

theorem signOf?_of_isRun (hrun : IsRun run) (hne : run ≠ []) (h : run <+: text) :
    signOf? text = none := by
  obtain ⟨first, more, rfl⟩ := List.exists_cons_of_ne_nil hne
  obtain ⟨after, rfl⟩ := h
  refine if_neg fun hsign => ?_
  have hin := hrun first List.mem_cons_self
  rw [inRun_eq_false_of_isSign hsign] at hin
  cases hin

theorem fractionOf?_append (text : List Char) :
    text = fractionText (fractionOf? text) ++ behindFraction text := by
  unfold fractionOf? behindFraction
  split
  · exact congrArg ('.' :: ·) List.takeWhile_append_dropWhile.symm
  · rfl

theorem isSpelled_ofText (text : List Char) : (ofText text).IsSpelled where
  whole := List.all_eq_true.mp List.all_takeWhile
  fraction := by
    intro run hrun
    simp only [ofText, fractionOf?] at hrun
    split at hrun
    · obtain rfl := Option.some.inj hrun
      exact List.all_eq_true.mp List.all_takeWhile
    · cases hrun
  exponent := by
    intro e he
    simp only [ofText, exponentOf?] at he
    split at he
    · cases he
    · split at he
      · rename_i hmark
        obtain rfl := Option.some.inj he
        exact ⟨hmark, fun ch => isSign_of_signOf?, List.all_eq_true.mp List.all_takeWhile⟩
      · cases he

theorem length_exponentText_le (h : ∀ e ∈ exponent?, e.IsSpelled)
    (hbegins : exponentText exponent? <+: text) :
    (exponentText exponent?).length ≤ (exponentText (exponentOf? text)).length := by
  cases exponent? with
  | none => exact Nat.zero_le _
  | some e =>
    obtain ⟨hmark, hsign, hdigits⟩ := h e rfl
    obtain ⟨rest, rfl, hrest⟩ := List.cons_prefix_iff.mp hbegins
    simp only [exponentOf?, if_pos hmark, exponentText, Exponent.text, List.length_cons,
      List.length_append]
    refine Nat.succ_le_succ ?_
    cases hsigned : e.sign? with
    | some ch =>
      rw [hsigned] at hrest hsign
      obtain ⟨rest, rfl, hmore⟩ := List.cons_prefix_iff.mp hrest
      have hfound : signOf? (ch :: rest) = some ch := if_pos (hsign ch rfl)
      rw [hfound]
      exact Nat.add_le_add_left (length_le_of_isRun hdigits hmore) _
    | none =>
      rw [hsigned] at hrest
      by_cases hnil : e.digits = []
      · rw [hnil]
        exact Nat.zero_le _
      · -- The first digit is no sign, so the run is looked for where it stands.
        rw [signOf?_of_isRun hdigits hnil hrest]
        exact Nat.add_le_add_left (length_le_of_isRun hdigits hrest) _

theorem length_tail_le (hfraction : ∀ run ∈ fraction?, IsRun run)
    (hexponent : ∀ e ∈ exponent?, e.IsSpelled)
    (hbegins : fractionText fraction? ++ exponentText exponent? <+: text) :
    (fractionText fraction? ++ exponentText exponent?).length ≤
      (fractionText (fractionOf? text) ++ exponentText (exponentOf? (behindFraction text))).length := by
  cases fraction? with
  | none =>
    cases exponent? with
    | none => exact Nat.zero_le _
    | some e =>
      obtain ⟨rest, rfl, -⟩ := List.cons_prefix_iff.mp hbegins
      obtain ⟨hnone, hbehind⟩ := fractionOf?_of_isExponentMark (hexponent e rfl).mark rest
      rw [hnone, hbehind]
      exact length_exponentText_le hexponent hbegins
  | some run =>
    obtain ⟨rest, rfl, hrest⟩ : ∃ rest, text = '.' :: rest ∧ run ++ exponentText exponent? <+: rest :=
      List.cons_prefix_iff.mp hbegins
    have hrun := hfraction run rfl
    simp only [fractionOf?, behindFraction, fractionText, List.cons_append, List.length_cons,
      List.length_append]
    refine Nat.succ_le_succ ?_
    rcases run_of_prefix hrun (Exponent.IsSpelled.inRun_head hexponent) hrest with
      hnil | ⟨rfl, hmore⟩
    · rw [hnil, List.append_nil] at hrest
      rw [hnil]
      exact Nat.le_add_right_of_le (length_le_of_isRun hrun hrest)
    · exact Nat.add_le_add_left (length_exponentText_le hexponent hmore) _

theorem length_text_le_ofText (h : f.IsSpelled) (hbegins : f.text <+: text) :
    f.text.length ≤ (ofText text).text.length := by
  rcases run_of_prefix h.whole (inRun_head_tail f.fraction? h.exponent) hbegins with hnil | ⟨hwhole, hmore⟩
  · rw [FloatForm.text, hnil, List.append_nil] at hbegins ⊢
    rw [FloatForm.text, List.length_append]
    exact Nat.le_add_right_of_le (length_le_of_isRun h.whole hbegins)
  · have htail := length_tail_le h.fraction h.exponent hmore
    simp only [FloatForm.text, hwhole, List.length_append] at htail ⊢
    exact Nat.add_le_add_left htail _

theorem signOf?_sign_append {sign? : Option Char} (hsign : ∀ ch ∈ sign?, isSign ch = true)
    (hrun : IsRun run) : signOf? (sign?.toList ++ run) = sign? := by
  cases sign? with
  | some ch => exact if_pos (hsign ch rfl)
  | none =>
    by_cases hnil : run = []
    · rw [hnil]
      rfl
    · exact signOf?_of_isRun hrun hnil List.prefix_rfl

theorem exponentOf?_exponentText (h : ∀ e ∈ exponent?, e.IsSpelled) :
    exponentOf? (exponentText exponent?) = exponent? := by
  cases exponent? with
  | none => rfl
  | some e =>
    obtain ⟨hmark, hsign, hdigits⟩ := h e rfl
    have hrun : e.digits.takeWhile inRun = e.digits := List.takeWhile_eq_self_iff.mpr hdigits
    simp only [exponentText, Exponent.text, exponentOf?, if_pos hmark,
      signOf?_sign_append hsign hdigits, List.drop_left, hrun]

theorem fractionOf?_text (h : f.IsSpelled) :
    fractionOf? (fractionText f.fraction? ++ exponentText f.exponent?) = f.fraction? ∧
      behindFraction (fractionText f.fraction? ++ exponentText f.exponent?) =
        exponentText f.exponent? := by
  cases hf : f.fraction? with
  | none =>
    cases he : f.exponent? with
    | none => exact ⟨rfl, rfl⟩
    | some e => exact fractionOf?_of_isExponentMark (h.exponent e he).mark _
  | some run =>
    obtain ⟨hrun, hmore⟩ :=
      span_run_append (h.fraction run hf) (Exponent.IsSpelled.inRun_head h.exponent)
    simp only [fractionText, fractionOf?, behindFraction, List.cons_append, hrun, hmore, and_self]

theorem ofText_text (h : f.IsSpelled) : ofText f.text = f := by
  obtain ⟨hwhole, hrest⟩ := span_run_append h.whole (inRun_head_tail f.fraction? h.exponent)
  obtain ⟨hfraction, hbehind⟩ := fractionOf?_text h
  simp only [ofText, FloatForm.text, hwhole, hrest, hfraction, hbehind,
    exponentOf?_exponentText h.exponent]

end TypedScript.Numeral
