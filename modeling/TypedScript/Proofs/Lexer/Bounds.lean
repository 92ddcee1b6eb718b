import TypedScript.Lexer.Regexp
import TypedScript.Proofs.Lexer.Scanning
import TypedScript.Proofs.Text.Offset

/-! # Readings and scans stay in the text

A reader that stands in the text stops in it, not before its start, and what it reports
are stretches of the text. A scan does the same. This holds at any place, also inside a
character. For the edges of characters, the quote that opens a body has to be one of one
byte, and so has the one that closes it; an escape has to begin with its backslash.
-/

namespace TypedScript.Lexer

open Text Numeral

structure Report.Lies (text : List Char) (whole : Prop) (x : Report) : Prop where
  start_le : x.start ≤ x.stop
  start : InText text whole x.start
  stop : InText text whole x.stop

structure Reading.Keeps {α : Type} (text : List Char) (whole : Prop) (r : Reading α)
    (c : Cursor) : Prop where
  onward : c.Onward text whole r.stop
  lies : ∀ x ∈ r.reports, x.Lies text whole

variable {text : List Char} {whole : Prop} {c d literal : Cursor} {code : Diagnostic.Code}

theorem lies_point {pos : Nat} (h : InText text whole pos) :
    (Report.point code pos).Lies text whole :=
  ⟨Nat.le_refl _, h, h⟩

theorem lies_between {arguments : List String} (hc : c.Stands text whole)
    (h : c.Onward text whole d) : Report.Lies text whole ⟨code, c.pos, d.pos, arguments⟩ :=
  ⟨h.pos_le, hc.inText, h.stands.inText⟩

theorem Reading.Keeps.trans {α β : Type} {r : Reading α} {s : Reading β}
    (h : r.Keeps text whole d) (hcd : c.Onward text whole d) (hstop : s.stop = r.stop)
    (hlies : ∀ x ∈ s.reports, x ∈ r.reports ∨ x.Lies text whole) : s.Keeps text whole c where
  onward := hstop ▸ hcd.trans h.onward
  lies x hx := (hlies x hx).elim (h.lies x) id

theorem exists_point_of_mem_separatorReports {strictZero : Bool} {start : Nat} {run : List Char} :
    ∀ x ∈ separatorReports strictZero start run,
      ∃ code k, k ≤ run.length ∧ x = .point code (start + k) := by
  intro x hx
  obtain ⟨⟨⟨before, ch⟩, pos⟩, hmem, hx⟩ := List.mem_filterMap.mp hx
  rw [separatorReport?] at hx
  split at hx
  · obtain ⟨code, -, rfl⟩ := Option.map_eq_some_iff.mp hx
    obtain ⟨hge, hlt, -⟩ := List.mem_zipIdx hmem
    rw [List.length_zip] at hlt
    exact ⟨code, pos - start, by omega, by rw [Nat.add_sub_cancel' hge]⟩
  · cases hx

theorem exists_point_of_mem_trailingReports {start : Nat} {run : List Char} :
    ∀ x ∈ trailingReports start run,
      ∃ code k, k ≤ run.length ∧ x = .point code (start + k) := by
  intro x hx
  unfold trailingReports at hx
  split at hx
  · rename_i hlast
    obtain rfl := List.mem_singleton.mp hx
    have hpos : 0 < run.length := List.length_pos_iff.mpr fun hnil => by
      rw [hnil] at hlast
      cases hlast
    exact ⟨_, run.length - 1, Nat.sub_le _ _, by rw [Nat.add_sub_assoc hpos]⟩
  · cases hx

theorem lies_of_mem_runReports (hc : c.Stands text whole) {p : Char → Bool}
    (hone : ∀ ch, p ch = true → ch.utf8Size = 1) (strictZero : Bool) :
    ∀ x ∈ separatorReports strictZero c.pos (c.chars.takeWhile p) ++
        trailingReports c.pos (c.chars.takeWhile p), x.Lies text whole := by
  intro x hx
  have hpoint : ∃ code k, k ≤ (c.chars.takeWhile p).length ∧ x = .point code (c.pos + k) := by
    rcases List.mem_append.mp hx with hx | hx
    · exact exists_point_of_mem_separatorReports x hx
    · exact exists_point_of_mem_trailingReports x hx
  obtain ⟨code, k, hk, rfl⟩ := hpoint
  exact lies_point (Cursor.inText_add_of_le_length hc hone hk)

theorem utf8Size_of_isDigitOrSeparator (r : Radix) (ch : Char)
    (h : isDigitOrSeparator r ch = true) : ch.utf8Size = 1 := by
  unfold isDigitOrSeparator at h
  rcases Bool.or_eq_true_iff.mp h with hdigit | hseparator
  · obtain ⟨n, hn⟩ := Option.isSome_iff_exists.mp hdigit
    exact utf8Size_of_hexValue? (Option.filter_eq_some_iff.mp hn).1
  · obtain rfl := beq_iff_eq.mp hseparator
    rfl

theorem keeps_readDigits (r : Radix) (hliteral : literal.Stands text whole)
    (h : literal.Onward text whole c) : (readDigits r literal c).Keeps text whole c := by
  have hc := h.stands
  have hstop : c.Onward text whole (c.skipChars (isDigitOrSeparator r)) :=
    Cursor.onward_skipChars hc _
  refine ⟨hstop, fun x hx => ?_⟩
  have hrun := lies_of_mem_runReports hc (utf8Size_of_isDigitOrSeparator r) (r = .decimal)
  simp only [readDigits_eq, List.mem_append] at hx
  rcases hx with (hx | hx) | hx
  · exact hrun x (List.mem_append_left _ hx)
  · split at hx
    · obtain rfl := List.mem_singleton.mp hx
      exact lies_point hc.inText
    · exact hrun x (List.mem_append_right _ hx)
  · split at hx
    · obtain rfl := List.mem_singleton.mp hx
      exact lies_between hliteral (h.trans hstop)
    · cases hx

theorem keeps_readInteger (hc : c.Stands text whole) : (readInteger c).Keeps text whole c := by
  have hdecimal := keeps_readDigits .decimal hc (.refl hc)
  unfold readInteger
  split
  · rename_i letter _ _ hchars
    obtain ⟨hinside, hchars⟩ := Cursor.rest_eq_of_chars_eq_cons hchars
    split
    · rename_i r hr
      have hletter := utf8Size_of_ofLetter? (by rw [hr]; rfl)
      have hstep := Cursor.Onward.of_reaches hc
        (Cursor.passes_advance_two hinside hchars rfl hletter).reaches
      exact (keeps_readDigits r hc hstep).trans hstep rfl fun x hx => .inl hx
    · split
      · have hchar := Cursor.char?_eq_some_iff.mpr ⟨hinside, _, hchars⟩
        have hstep := Cursor.onward_advance_one hc hchar rfl
        have hdigits := keeps_readDigits .octal hc hstep
        refine hdigits.trans hstep rfl fun x hx => ?_
        rcases List.mem_append.mp hx with hx | hx
        · exact .inl hx
        · obtain rfl := List.mem_singleton.mp hx
          exact .inr (lies_between hc (hstep.trans hdigits.onward))
      · exact ⟨hdecimal.onward, hdecimal.lies⟩
  · exact ⟨hdecimal.onward, hdecimal.lies⟩

theorem utf8Size_of_isFloatPart (ch : Char) (h : (isDecimal ch || ch == '_') = true) :
    ch.utf8Size = 1 := by
  rcases Bool.or_eq_true_iff.mp h with hdigit | hseparator
  · exact Cursor.utf8Size_eq_one_of_isDecimal hdigit
  · obtain rfl := beq_iff_eq.mp hseparator
    rfl

theorem keeps_skipFloatRun (strictZero : Bool) (hc : c.Stands text whole) :
    (skipFloatRun strictZero c).Keeps text whole c := by
  refine ⟨Cursor.onward_skipChars hc _, fun x hx => ?_⟩
  rw [reports_skipFloatRun_eq] at hx
  exact lies_of_mem_runReports hc utf8Size_of_isFloatPart strictZero x hx

theorem keeps_skipFraction (hc : c.Stands text whole) : (skipFraction c).Keeps text whole c := by
  unfold skipFraction
  split
  · rename_i hpoint
    have hstep := Cursor.onward_advance_one hc hpoint rfl
    exact (keeps_skipFloatRun false hstep.stands).trans hstep rfl fun x hx => .inl hx
  · exact ⟨.refl hc, by simp⟩

theorem keeps_skipExponent (hc : c.Stands text whole) : (skipExponent c).Keeps text whole c := by
  unfold skipExponent
  split
  · rename_i hmark
    obtain ⟨ch, hch, hmark⟩ := (Option.any_eq_true _ _).mp hmark
    have hstep := Cursor.onward_advance_one hc hch (utf8Size_of_isExponentMark hmark)
    simp only
    split
    · rename_i hsign
      have hsign : (c.advance 1).Onward text whole ((c.advance 1).advance 1) := by
        rcases Bool.or_eq_true_iff.mp hsign with h | h
        · exact Cursor.onward_advance_one hstep.stands (of_decide_eq_true h) rfl
        · exact Cursor.onward_advance_one hstep.stands (of_decide_eq_true h) rfl
      have hboth := hstep.trans hsign
      exact (keeps_skipFloatRun false hboth.stands).trans hboth rfl fun x hx => .inl hx
    · exact (keeps_skipFloatRun false hstep.stands).trans hstep rfl fun x hx => .inl hx
  · exact ⟨.refl hc, by simp⟩

theorem keeps_readFloat (hc : c.Stands text whole) : (readFloat c).Keeps text whole c := by
  have hwhole := keeps_skipFloatRun true hc
  have hfraction := keeps_skipFraction hwhole.onward.stands
  have hexponent := keeps_skipExponent hfraction.onward.stands
  refine ⟨(hwhole.onward.trans hfraction.onward).trans hexponent.onward, fun x hx => ?_⟩
  simp only [readFloat, List.mem_append] at hx
  rcases hx with (hx | hx) | hx
  · exact hwhole.lies x hx
  · exact hfraction.lies x hx
  · exact hexponent.lies x hx

theorem lies_of_mem_wordAfterNumber (hc : c.Stands text whole) :
    ∀ x ∈ wordAfterNumber c, x.Lies text whole := by
  intro x hx
  unfold wordAfterNumber at hx
  split at hx
  · obtain rfl := List.mem_singleton.mp hx
    exact lies_point hc.inText
  · cases hx

theorem lies_badHexEscape {tagged : Bool} {start place stop : Cursor}
    (hplace : place.Stands text whole) (hstop : place.Onward text whole stop) :
    ∀ x ∈ (badHexEscape tagged start place code stop).reports, x.Lies text whole := by
  intro x hx
  unfold badHexEscape at hx
  split at hx
  · cases hx
  · obtain rfl := List.mem_singleton.mp hx
    exact lies_between hplace hstop

theorem lies_readHexEscape {tagged : Bool} {start : Cursor} {n : Nat}
    {continue_ : Nat → Cursor → Reading String} (hc : c.Stands text whole)
    (hinside : c.inside = 0) (hnone : ∀ value stop, (continue_ value stop).reports = []) :
    ∀ x ∈ (readHexEscape tagged start n c continue_).reports, x.Lies text whole := by
  intro x hx
  have hrow := Cursor.Onward.of_reaches hc (reaches_readHexRow n 0 hinside)
  unfold readHexEscape at hx
  split at hx <;> rename_i heq <;> rw [heq] at hrow
  · rw [hnone] at hx
    cases hx
  · exact lies_badHexEscape hrow.stands (Cursor.onward_skipChar hrow.stands) x hx
  · exact lies_badHexEscape hrow.stands (.refl hrow.stands) x hx

theorem lies_of_mem_bracedFaults {digits : Reading Digits} (hc : c.Stands text whole)
    (hdigits : c.Onward text whole digits.stop) :
    ∀ x ∈ bracedFaults c digits, x.Lies text whole := by
  intro x hx
  have hbetween : ∀ code, x = ⟨code, c.pos, digits.stop.pos, []⟩ → x.Lies text whole := by
    rintro code rfl
    exact lies_between hc hdigits
  simp only [bracedFaults, List.mem_append] at hx
  rcases hx with hx | hx
  · split at hx
    · exact hbetween _ (List.mem_singleton.mp hx)
    · cases hx
  · split at hx
    · exact hbetween _ (List.mem_singleton.mp hx)
    · split at hx
      · cases hx
      · exact hbetween _ (List.mem_singleton.mp hx)

theorem lies_readBracedEscape {tagged : Bool} (hliteral : literal.Stands text whole)
    (h : literal.Onward text whole c) :
    ∀ x ∈ (readBracedEscape tagged literal c).reports, x.Lies text whole := by
  intro x hx
  have hdigits := keeps_readDigits .hexadecimal hliteral h
  unfold readBracedEscape at hx
  simp only at hx
  split at hx
  · exact hdigits.lies x hx
  · split at hx
    · exact hdigits.lies x hx
    · rcases List.mem_append.mp hx with hx | hx
      · exact hdigits.lies x hx
      · exact lies_of_mem_bracedFaults h.stands hdigits.onward x hx

theorem lies_readEscapeAfter {tagged : Bool} {ch : Char} (hliteral : literal.Stands text whole)
    (h : literal.Onward text whole c) (hinside : c.inside = 0) :
    ∀ x ∈ (readEscapeAfter tagged literal ch c).reports, x.Lies text whole := by
  intro x hx
  unfold readEscapeAfter at hx
  split at hx
  · split at hx <;> cases hx
  · split at hx
    · exact lies_readBracedEscape hliteral
        (h.trans (Cursor.onward_advance_one h.stands ‹_› rfl)) x hx
    · exact lies_readHexEscape h.stands hinside reports_readPair x hx
  · exact lies_readHexEscape h.stands hinside (fun _ _ => rfl) x hx
  · cases hx
  · split at hx <;> cases hx

theorem keeps_readEscape (tagged : Bool) (hc : c.Stands text whole)
    (hslash : whole → c.char? = some '\\') : (readEscape tagged c).Keeps text whole c := by
  have hstep : c.Onward text whole (c.advance 1) := Cursor.onward_advance hc 1 fun hwhole =>
    (Cursor.passes_advance_one (hslash hwhole) rfl).inside_eq'
  unfold readEscape
  simp only
  split
  · refine ⟨hstep, fun x hx => ?_⟩
    obtain rfl := List.mem_singleton.mp hx
    rw [hstep.stands.endPos_eq]
    exact lies_point (OnEdge.last text).inText
  · rename_i ch hch
    -- A character follows, so the place behind the backslash is an edge in any case.
    have hskip := Cursor.passes_skipChar hch
    have hafter := hstep.trans (.of_reaches hstep.stands hskip.reaches)
    have hread := reaches_readEscapeAfter tagged c ch hskip.inside_eq'
    exact ⟨hafter.trans (.of_reaches hafter.stands hread),
      lies_readEscapeAfter hc hafter hskip.inside_eq'⟩

theorem keeps_readBody (quote : UInt8) (tagged : Bool) (pieces : List (Reading String))
    (run : Cursor) (hc : c.Stands text whole)
    (hpieces : ∀ piece ∈ pieces, ∀ x ∈ piece.reports, x.Lies text whole) :
    c.Onward text whole (readBody quote tagged pieces run c).stop ∧
      ∀ piece ∈ (readBody quote tagged pieces run c).pieces,
        ∀ x ∈ piece.reports, x.Lies text whole := by
  have hverbatim : ∀ a b, ∀ x ∈ (verbatim a b).reports, x.Lies text whole := by simp [verbatim]
  fun_induction readBody quote tagged pieces run c with
  | case1 pieces run c ending h =>
    exact ⟨.refl hc, List.forall_mem_cons.mpr ⟨hverbatim run c, hpieces⟩⟩
  | case2 pieces run c h hslash escape hlt ih =>
    have hescape := keeps_readEscape tagged hc fun _ => hslash
    have hall := List.forall_mem_cons.mpr
      ⟨hescape.lies, List.forall_mem_cons.mpr ⟨hverbatim run c, hpieces⟩⟩
    obtain ⟨hstop, hlies⟩ := ih hescape.onward.stands hall
    exact ⟨hescape.onward.trans hstop, hlies⟩
  | case3 pieces run c h hslash hlt ih =>
    have hskip := Cursor.onward_skipChar hc
    obtain ⟨hstop, hlies⟩ := ih hskip.stands hpieces
    exact ⟨hskip.trans hstop, hlies⟩

theorem onward_after {b : Body} {quote : UInt8} (hb : b.stop.Stands text whole)
    (hquote : whole → quote < 0x80) (h : bodyEndAt? quote b.stop = some b.ending) :
    b.stop.Onward text whole b.after := by
  have hedge : whole → b.after.inside = 0 := fun hwhole =>
    (reaches_after (hb.inside_eq hwhole) (hquote hwhole) h).1.inside_eq
  unfold Body.after at hedge ⊢
  cases hending : b.ending <;> simp only [hending] at hedge ⊢
  · exact Cursor.onward_advance hb 1 hedge
  · exact Cursor.onward_advance hb 2 hedge
  · exact .refl hb
  · exact .refl hb

/-- The offset in front of the body is that of its quote, and it is reported with a body
that has no end. -/
theorem lies_of_mem_openReports {b : Body} {start : Nat} (hstart : InText text whole (start - 1))
    (hle : start ≤ b.stop.pos) (hstop : b.stop.Stands text whole) :
    ∀ x ∈ b.openReports start, x.Lies text whole := by
  intro x hx
  have hlies : Report.Lies text whole ⟨.unterminatedString, start - 1, b.stop.pos, []⟩ :=
    ⟨Nat.le_trans (Nat.sub_le start 1) hle, hstart, hstop.inText⟩
  unfold Body.openReports at hx
  split at hx
  · cases hx
  · cases hx
  · obtain rfl := List.mem_singleton.mp hx
    exact hlies
  · obtain rfl := List.mem_singleton.mp hx
    exact hlies

/-- The quote in front of a body is of one byte, and so is the one that may end it. -/
structure Opens (text : List Char) (quote? : Option UInt8) (c start : Cursor) : Prop where
  inside_eq : start.inside = 0
  quote_lt : quote?.getD c.byte < 0x80
  onEdge : OnEdge text (start.pos - 1)

theorem keeps_readQuoted (quote? : Option UInt8) (tagged : Bool) (hc : c.Stands text whole)
    (hopens : whole → Opens text quote? c (readQuoted quote? tagged c).value.start) :
    (readQuoted quote? tagged c).Keeps text whole c ∧
      c.Onward text whole (readQuoted quote? tagged c).value.start ∧
      InText text whole (readQuoted quote? tagged c).value.stop ∧
      (readQuoted quote? tagged c).value.start.pos ≤ (readQuoted quote? tagged c).value.stop := by
  have hstart : c.Onward text whole (readQuoted quote? tagged c).value.start := by
    have hedge := fun hwhole => (hopens hwhole).inside_eq
    cases quote? with
    | none => exact Cursor.onward_advance hc 1 hedge
    | some quote => exact .refl hc
  obtain ⟨hstop, hpieces⟩ := keeps_readBody (quote?.getD c.byte) tagged []
    (readQuoted quote? tagged c).value.start hstart.stands (by simp)
  have hafter := onward_after hstop.stands (fun hwhole => (hopens hwhole).quote_lt)
    (bodyEndAt?_readBody _ _ _ _ _)
  refine ⟨⟨hstart.trans (hstop.trans hafter), fun x hx => ?_⟩, hstart, hstop.stands.inText,
    hstop.pos_le⟩
  rcases List.mem_append.mp hx with hx | hx
  · obtain ⟨piece, hpiece, hx⟩ := List.mem_flatMap.mp hx
    exact hpieces piece (List.mem_reverse.mp hpiece) x hx
  · refine lies_of_mem_openReports ⟨?_, fun hwhole => (hopens hwhole).onEdge⟩ hstop.pos_le
      hstop.stands x hx
    exact Nat.le_trans (Nat.sub_le _ 1) hstart.stands.inText.le_byteSize

theorem reaches_patternEnd (escaped : Bool) (pos : Nat) (rest : List Char) :
    (⟨pos, rest, 0⟩ : Cursor).Reaches (patternEnd escaped pos rest).1 := by
  induction rest generalizing escaped pos with
  | nil => exact .refl rfl
  | cons ch rest ih =>
    unfold patternEnd
    split
    · exact .refl rfl
    · split
      · exact .refl rfl
      · have hstep : (⟨pos, ch :: rest, 0⟩ : Cursor).Passes [ch] ⟨pos + ch.utf8Size, rest, 0⟩ :=
          ⟨rfl, rfl, rfl, rfl⟩
        exact hstep.reaches.trans (ih _ _)

theorem keeps_readPattern (hc : c.Stands text whole) : (readPattern c).Keeps text whole c := by
  have hedge := Cursor.onward_toEdge hc
  have hfrom : (⟨c.toEdge.pos, c.toEdge.rest, 0⟩ : Cursor) = c.toEdge := by
    rw [← c.inside_toEdge]
  have hreaches := reaches_patternEnd false c.toEdge.pos c.toEdge.rest
  rw [hfrom] at hreaches
  have hstop := hedge.trans (.of_reaches hedge.stands hreaches)
  refine ⟨hstop, fun x hx => ?_⟩
  simp only [readPattern] at hx
  split at hx
  · cases hx
  · obtain rfl := List.mem_singleton.mp hx
    exact lies_between hc hstop

theorem keeps_readRegexpFlags (hc : c.Stands text whole) :
    (readRegexpFlags c).Keeps text whole c := by
  have hstop := Cursor.onward_skipChars hc isIdentifierPart
  refine ⟨hstop, fun x hx => ?_⟩
  simp only [readRegexpFlags] at hx
  split at hx
  · obtain rfl := List.mem_singleton.mp hx
    exact lies_between hc hstop
  · cases hx

variable {handling : WordHandling} {limit : Nat}

theorem onward_of_skipped {what : Skipped} {next : Cursor} (hc : c.Stands text whole)
    (hend : c.atEnd = false) (h : pieceAt handling limit c = .skipped what next) :
    c.Onward text whole next ∧ what.start = c.pos ∧ what.stop = next.pos := by
  by_cases hinside : c.inside = 0
  · have hcovers := covers_pieceAt hinside hend h
    refine ⟨.of_reaches hc hcovers.reaches, ?_⟩
    cases hcovers with
    | cons _ _ hstart hstop _ hnil =>
      cases hnil
      exact ⟨hstart, hstop⟩
  · have hchar : c.char? = none := by rw [Cursor.char?, if_neg hinside]
    simp only [pieceAt, hchar, Piece.skipped.injEq] at h
    obtain ⟨rfl, rfl⟩ := h
    exact ⟨Cursor.onward_skipChar hc, rfl, rfl⟩

theorem onward_of_token {token : Token} {stop : Cursor} (hc : c.Stands text whole)
    (h : pieceAt handling limit c = .token token stop) : c.Onward text whole stop := by
  by_cases hinside : c.inside = 0
  · exact .of_reaches hc ((found_pieceAt hinside h).reaches hinside)
  · have hchar : c.char? = none := by rw [Cursor.char?, if_neg hinside]
    simp [pieceAt, hchar] at h

theorem lies_of_report? {what : Skipped} {x : Report} (hstart : InText text whole what.start)
    (hstop : InText text whole what.stop) (hle : what.start ≤ what.stop)
    (h : what.report? = some x) : x.Lies text whole := by
  cases what with
  | blank | comment => cases h
  | openComment =>
    obtain rfl := Option.some.inj h
    exact ⟨Nat.le_refl _, hstop, hstop⟩
  | stray =>
    obtain rfl := Option.some.inj h
    exact ⟨hle, hstart, hstop⟩

theorem onward_scanFrom (handling : WordHandling) (limit : Nat) (skipped : List Skipped)
    (hc : c.Stands text whole)
    (hskipped : ∀ what ∈ skipped, ∀ x, what.report? = some x → x.Lies text whole) :
    let s := scanFrom handling limit skipped c
    c.Onward text whole s.start ∧ s.start.Onward text whole s.stop ∧
      ∀ what ∈ s.skipped, ∀ x, what.report? = some x → x.Lies text whole := by
  have hreverse : ∀ what ∈ skipped.reverse, ∀ x, what.report? = some x → x.Lies text whole :=
    fun what hwhat => hskipped what (List.mem_reverse.mp hwhat)
  fun_induction scanFrom handling limit skipped c with
  | case1 skipped c hend => exact ⟨.refl hc, .refl hc, hreverse⟩
  | case2 skipped c hend token stop hpiece =>
    exact ⟨.refl hc, onward_of_token hc hpiece, hreverse⟩
  | case3 skipped c hend what next hpiece hlt ih =>
    obtain ⟨honward, hstart, hstop⟩ := onward_of_skipped hc (by simpa using hend) hpiece
    have hwhat : ∀ x, what.report? = some x → x.Lies text whole := fun x =>
      lies_of_report? (hstart ▸ hc.inText) (hstop ▸ honward.stands.inText)
        (hstart ▸ hstop ▸ honward.pos_le)
    have hall := List.forall_mem_cons.mpr ⟨hwhat, hskipped⟩
    obtain ⟨hfrom, hrest⟩ := ih honward.stands hall
      fun other hother => hall other (List.mem_reverse.mp hother)
    exact ⟨honward.trans hfrom, hrest⟩

theorem onward_scan (handling : WordHandling) (limit : Nat) (hc : c.Stands text whole) :
    c.Onward text whole (scan handling limit c).start ∧
      (scan handling limit c).start.Onward text whole (scan handling limit c).stop ∧
      ∀ x ∈ (scan handling limit c).skipped.filterMap Skipped.report?, x.Lies text whole := by
  obtain ⟨hstart, hstop, hlies⟩ := onward_scanFrom handling limit [] hc (by simp)
  refine ⟨hstart, hstop, fun x hx => ?_⟩
  obtain ⟨what, hwhat, hx⟩ := List.mem_filterMap.mp hx
  exact hlies what hwhat x hx

end TypedScript.Lexer
