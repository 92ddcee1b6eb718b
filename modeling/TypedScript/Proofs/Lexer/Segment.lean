import TypedScript.Proofs.Lexer.Body

/-! # Segments of templates written out

Any text can stand as a segment of a template once each backslash, backtick and dollar
sign in it has a backslash in front. The reader gives back the text as the value of the
segment and what is written as its raw form, whatever the text and whether or not the
template is tagged, and it stops behind what closes the segment.
-/

namespace TypedScript.Lexer

open Text

variable {c d : Cursor} {ch : Char} {after : List Char}

def isSpecial (ch : Char) : Bool :=
  ch == '\\' || ch == '\x60' || ch == '$'

def escaped (text : List Char) : List Char :=
  text.flatMap fun ch => if isSpecial ch then ['\\', ch] else [ch]

def closing (interpolation : Bool) : List Char :=
  if interpolation then ['$', '\x7b'] else ['\x60']

def endingOf (interpolation : Bool) : BodyEnd :=
  if interpolation then .interpolation else .quote

theorem byte_eq_backtick_iff (h : c.char? = some ch) : c.byte = backtick ↔ ch = '\x60' := by
  have hmark : '\x60'.toNat < 128 := by decide
  exact Cursor.byte_eq_iff h hmark

theorem bodyEndAt?_of_char? (h : c.char? = some ch) : bodyEndAt? backtick c =
    if ch = '\x60' then some .quote
    else if ch = '\\' then none
    else if ['$', '\x7b'].isPrefixOf c.chars then some .interpolation else none := by
  unfold bodyEndAt?
  simp only [atEnd_of_char? h, byte_eq_backtick_iff h, h, Option.some.injEq, Bool.false_eq_true,
    if_false, if_true]

theorem bodyEndAt?_closing (interpolation : Bool) (hc : c.inside = 0)
    (h : c.rest = closing interpolation ++ after) :
    bodyEndAt? backtick c = some (endingOf interpolation) := by
  cases interpolation with
  | false => rw [bodyEndAt?_of_char? (Cursor.char?_eq_some_iff.mpr ⟨hc, _, h⟩), if_pos rfl]; rfl
  | true =>
    have hch : c.char? = some '$' := Cursor.char?_eq_some_iff.mpr ⟨hc, _, h⟩
    rw [bodyEndAt?_of_char? hch, if_neg (by decide), if_neg (by decide), Cursor.chars, if_pos hc, h]
    rfl

/-- No character ends a body if it is escaped or means nothing in a template. -/
theorem bodyEndAt?_eq_none (h : c.char? = some ch) (hch : ch = '\\' ∨ isSpecial ch = false) :
    bodyEndAt? backtick c = none := by
  obtain ⟨hc, rest, hrest⟩ := Cursor.char?_eq_some_iff.mp h
  rw [bodyEndAt?_of_char? h]
  rcases hch with rfl | hplain
  · rfl
  · simp only [isSpecial, Bool.or_eq_false_iff, beq_eq_false_iff_ne] at hplain
    obtain ⟨⟨hslash, hbacktick⟩, hdollar⟩ := hplain
    rw [if_neg hbacktick, if_neg hslash, Cursor.chars, if_pos hc, hrest]
    refine if_neg fun hprefix => hdollar ?_
    exact (List.cons_prefix_cons.mp (List.isPrefixOf_iff_prefix.mp hprefix)).1.symm

theorem readEscape_of_isSpecial (tagged : Bool) {rest : List Char} (hc : c.inside = 0)
    (h : c.rest = '\\' :: ch :: rest) (hch : isSpecial ch = true) :
    ∃ stop, readEscape tagged c = ⟨String.singleton ch, stop, []⟩ ∧ c.Passes ['\\', ch] stop := by
  obtain ⟨stop, hread, hpart⟩ := readEscape_of_rest tagged hc h
  refine ⟨stop, ?_, hpart⟩
  rw [hread]
  simp only [isSpecial, Bool.or_eq_true, beq_iff_eq] at hch
  rcases hch with (rfl | rfl) | rfl <;> rfl

theorem spells_escaped (tagged : Bool) {text : List Char} (hc : c.inside = 0)
    (h : c.rest = escaped text ++ after) : ∃ d, Spells backtick tagged c (escaped text) text d := by
  induction text generalizing c with
  | nil => exact ⟨c, .done hc⟩
  | cons ch text ih =>
    rw [escaped, List.flatMap_cons] at h ⊢
    by_cases hch : isSpecial ch = true
    · rw [if_pos hch] at h ⊢
      have hslash : c.char? = some '\\' := Cursor.char?_eq_some_iff.mpr ⟨hc, _, h⟩
      obtain ⟨stop, hread, hstop⟩ := readEscape_of_isSpecial tagged hc h hch
      obtain ⟨d, hmore⟩ := ih hstop.inside_eq' (hstop.rest_eq_of_append h)
      exact ⟨d, .escape (bodyEndAt?_eq_none hslash (.inl rfl)) hslash hread hstop hmore⟩
    · rw [if_neg hch] at h ⊢
      have hplain : c.char? = some ch := Cursor.char?_eq_some_iff.mpr ⟨hc, _, h⟩
      have hstep := Cursor.passes_skipChar hplain
      have hslash : ch ≠ '\\' := by
        rintro rfl
        exact hch rfl
      obtain ⟨d, hmore⟩ := ih hstep.inside_eq' (hstep.rest_eq_of_append h)
      exact ⟨d, .plain (bodyEndAt?_eq_none hplain (.inr (Bool.eq_false_iff.mpr hch))) hplain hslash
        hmore⟩

theorem passes_after (interpolation : Bool) (hc : c.inside = 0)
    (h : c.rest = closing interpolation ++ after) :
    c.Passes (closing interpolation) (Body.after ⟨[], c, endingOf interpolation⟩) := by
  cases interpolation with
  | true => exact Cursor.passes_advance_two hc h rfl rfl
  | false => exact Cursor.passes_advance_one (Cursor.char?_eq_some_iff.mpr ⟨hc, _, h⟩) rfl

theorem quote_of_passes (started : Bool) {start : Cursor}
    (hstart : c.Passes (if started then [] else ['\x60']) start) :
    let quote? := if started then some backtick else none
    quote?.getD c.byte = backtick ∧ (if quote?.isNone then c.advance 1 else c) = start := by
  cases started with
  | true => exact ⟨rfl, hstart.eq_of_nil.symm⟩
  | false =>
    have hch : c.char? = some '\x60' :=
      Cursor.char?_eq_some_iff.mpr ⟨hstart.inside_eq, _, hstart.rest_eq⟩
    exact ⟨(byte_eq_backtick_iff hch).mpr rfl, (Cursor.passes_advance_one hch rfl).unique hstart⟩

/-- A segment that is written out is taken as it is meant, the first one at its quote and a
later one right where it begins. -/
theorem takeSegment_escaped (t : Template) (interpolation : Bool) (text : String) {l : Lexer}
    {start : Cursor} (hstart : l.cursor.Passes (if t.started then [] else ['\x60']) start)
    (h : start.rest = escaped text.toList ++ (closing interpolation ++ after)) :
    ∃ next, t.takeSegment l = (⟨text, String.ofList (escaped text.toList), interpolation⟩,
        ⟨t.tagged, true, !interpolation⟩, next) ∧
      Silent l next ∧ start.Passes (escaped text.toList ++ closing interpolation) next.cursor := by
  obtain ⟨hquote, hbody⟩ := quote_of_passes t.started hstart
  obtain ⟨d, hspells⟩ := spells_escaped t.tagged hstart.inside_eq' h
  have hpart := hspells.passes
  have hrest := hpart.rest_eq_of_append h
  have hend := bodyEndAt?_closing interpolation hpart.inside_eq' hrest
  have hclosed : endingOf interpolation = .quote ∨ endingOf interpolation = .interpolation := by
    cases interpolation
    · exact .inl rfl
    · exact .inr rfl
  rw [← hquote] at hspells hend
  obtain ⟨next, htake, hsilent, hraw, htemplate, hcursor⟩ :=
    takeString_of_spells _ hbody hspells hend hclosed
  have hinterpolation : next.inTemplate = interpolation := by
    rw [htemplate]
    cases interpolation <;> rfl
  refine ⟨next, ?_, hsilent, ?_⟩
  · simp only [Template.takeSegment, htake, hraw, hinterpolation, String.ofList_toList]
  · rw [hcursor]
    exact hpart.trans (passes_after interpolation hpart.inside_eq' hrest)

end TypedScript.Lexer
