import TypedScript.Lexer.Quoted
import TypedScript.Lexer.Scan
import TypedScript.Proofs.Lexer.DigitLoop
import TypedScript.Proofs.Text.Passage

/-! # What readers pass over

Each reader that starts on the edge of a character stops on one, and reports none of the
faults that a scan reports. A reader that starts where the scan has found its literal
moves forward.
-/

namespace TypedScript

def Diagnostic.Code.isOfScan : Diagnostic.Code → Bool
  | .invalidCharacter | .expected => true
  | _ => false

def Diagnostic.Code.isOfSeparator : Diagnostic.Code → Bool
  | .separatorNotAllowed | .consecutiveSeparators => true
  | _ => false

def Diagnostic.Code.isOfEscape : Diagnostic.Code → Bool
  | .separatorNotAllowed | .consecutiveSeparators | .literalDoesNotFit | .digitExpected
  | .binaryDigitExpected | .octalDigitExpected | .hexDigitExpected | .unexpectedEnd
  | .escapeOutOfRange | .unterminatedEscape => true
  | _ => false

namespace Lexer

open Text Numeral

variable {c d : Cursor} {ch : Char}

/-- The reading stops where a passage from `c` leads, and leaves the faults of a scan to the
scan. -/
structure Reading.BeginsAt {α : Type} (r : Reading α) (c : Cursor) : Prop where
  reaches : c.Reaches r.stop
  code : ∀ x ∈ r.reports, x.code.isOfScan = false

theorem eq_false_of_char?_skipChars {p : Char → Bool} (h : (c.skipChars p).char? = some ch) :
    p ch = false := by
  unfold Cursor.skipChars at h
  split at h
  · have hnot := List.head?_dropWhile_not p c.rest
    rw [show (c.rest.dropWhile p).head? = some ch from h] at hnot
    exact hnot
  · rename_i hinside
    exact absurd (Cursor.char?_eq_some_iff.mp h).1 hinside

theorem isOfScan_of_isOfEscape {code : Diagnostic.Code} (h : code.isOfEscape = true) :
    code.isOfScan = false := by
  cases code <;> first | rfl | cases h

theorem isOfEscape_of_isOfSeparator {code : Diagnostic.Code} (h : code.isOfSeparator = true) :
    code.isOfEscape = true := by
  cases code <;> first | rfl | cases h

theorem isOfSeparator_of_separatorFault? {strictZero : Bool} {start pos : Nat}
    {before : Option Char} {code : Diagnostic.Code}
    (h : separatorFault? strictZero start pos before = some code) : code.isOfSeparator = true := by
  unfold separatorFault? at h
  repeat' split at h
  all_goals cases h
  all_goals rfl

theorem isOfSeparator_of_mem_separatorReports {strictZero : Bool} {start : Nat}
    {run : List Char} : ∀ x ∈ separatorReports strictZero start run, x.code.isOfSeparator = true := by
  intro x hx
  obtain ⟨⟨⟨before, c⟩, pos⟩, -, hx⟩ := List.mem_filterMap.mp hx
  rw [separatorReport?] at hx
  split at hx
  · obtain ⟨code, hcode, rfl⟩ := Option.map_eq_some_iff.mp hx
    exact isOfSeparator_of_separatorFault? hcode
  · cases hx

theorem isOfSeparator_of_mem_trailingReports {start : Nat} {run : List Char} :
    ∀ x ∈ trailingReports start run, x.code.isOfSeparator = true := by
  intro x hx
  unfold trailingReports at hx
  split at hx
  · obtain rfl := List.mem_singleton.mp hx
    rfl
  · cases hx

theorem isOfEscape_of_mem_readDigits (r : Radix) (literal c : Cursor) :
    ∀ x ∈ (readDigits r literal c).reports, x.code.isOfEscape = true := by
  intro x hx
  simp only [readDigits_eq, List.mem_append] at hx
  rcases hx with (hx | hx) | hx
  · exact isOfEscape_of_isOfSeparator (isOfSeparator_of_mem_separatorReports x hx)
  · split at hx
    · obtain rfl := List.mem_singleton.mp hx
      cases r <;> rfl
    · exact isOfEscape_of_isOfSeparator (isOfSeparator_of_mem_trailingReports x hx)
  · split at hx
    · obtain rfl := List.mem_singleton.mp hx
      rfl
    · cases hx

theorem beginsAt_readDigits (r : Radix) (literal : Cursor) (hc : c.inside = 0) :
    (readDigits r literal c).BeginsAt c where
  reaches := (Cursor.passes_skipChars hc _).reaches
  code x hx := isOfScan_of_isOfEscape (isOfEscape_of_mem_readDigits r literal c x hx)

theorem Reading.BeginsAt.trans {α β : Type} {r : Reading α} {s : Reading β}
    (h : r.BeginsAt d) (hcd : c.Reaches d) (hstop : s.stop = r.stop)
    (hcode : ∀ x ∈ s.reports, x ∈ r.reports ∨ x.code.isOfScan = false) : s.BeginsAt c where
  reaches := hstop ▸ hcd.trans h.reaches
  code x hx := (hcode x hx).elim (h.code x) id

theorem utf8Size_of_ofLetter? {letter : Char} (h : (Radix.ofLetter? letter).isSome = true) :
    letter.utf8Size = 1 := by
  unfold Radix.ofLetter? at h
  split at h
  any_goals decide
  cases h

theorem exists_readDigits_of_readInteger (hc : c.inside = 0) :
    ∃ r d part, c.Passes part d ∧ (readInteger c).stop = (readDigits r c d).stop ∧
      (∀ x ∈ (readInteger c).reports,
        x ∈ (readDigits r c d).reports ∨ x.code.isOfScan = false) ∧
      (part ≠ [] ∨ d = c ∧ r = .decimal) := by
  have hchars : c.chars = c.rest := if_pos hc
  unfold readInteger
  split
  · rename_i letter _ _ hrest
    rw [hchars] at hrest
    split
    · rename_i r hr
      have hletter := utf8Size_of_ofLetter? (by rw [hr]; rfl)
      have hstep := Cursor.passes_advance_two hc hrest rfl hletter
      exact ⟨r, _, _, hstep, rfl, fun x hx => .inl hx, .inl (List.cons_ne_nil _ _)⟩
    · split
      · have hstep := Cursor.passes_advance_one
          (Cursor.char?_eq_some_iff.mpr ⟨hc, _, hrest⟩) rfl
        refine ⟨.octal, _, _, hstep, rfl, ?_, .inl (List.cons_ne_nil _ _)⟩
        intro x hx
        rcases List.mem_append.mp hx with hx | hx
        · exact .inl hx
        · obtain rfl := List.mem_singleton.mp hx
          exact .inr rfl
      · exact ⟨.decimal, c, [], .refl hc, rfl, fun x hx => .inl hx, .inr ⟨rfl, rfl⟩⟩
  · exact ⟨.decimal, c, [], .refl hc, rfl, fun x hx => .inl hx, .inr ⟨rfl, rfl⟩⟩

theorem beginsAt_readInteger (hc : c.inside = 0) : (readInteger c).BeginsAt c := by
  obtain ⟨r, d, part, hpart, hstop, hreports, -⟩ := exists_readDigits_of_readInteger hc
  exact (beginsAt_readDigits r c hpart.inside_eq').trans hpart.reaches hstop hreports

theorem beginsAt_skipFloatRun (strictZero : Bool) (hc : c.inside = 0) :
    (skipFloatRun strictZero c).BeginsAt c where
  reaches := (Cursor.passes_skipChars hc _).reaches
  code x hx := by
    rw [reports_skipFloatRun_eq] at hx
    exact isOfScan_of_isOfEscape <| isOfEscape_of_isOfSeparator <|
      (List.mem_append.mp hx).elim (isOfSeparator_of_mem_separatorReports x)
        (isOfSeparator_of_mem_trailingReports x)

theorem beginsAt_skipFraction (hc : c.inside = 0) : (skipFraction c).BeginsAt c := by
  unfold skipFraction
  split
  · rename_i hpoint
    have hstep := Cursor.passes_advance_one hpoint rfl
    exact (beginsAt_skipFloatRun false hstep.inside_eq').trans hstep.reaches rfl
      fun x hx => .inl hx
  · exact ⟨.refl hc, by simp⟩

theorem utf8Size_of_isExponentMark (h : Decimal.isExponentMark ch = true) : ch.utf8Size = 1 := by
  simp only [Decimal.isExponentMark, Bool.or_eq_true, beq_iff_eq] at h
  rcases h with rfl | rfl <;> rfl

theorem beginsAt_skipExponent (hc : c.inside = 0) : (skipExponent c).BeginsAt c := by
  unfold skipExponent
  split
  · rename_i hmark
    obtain ⟨ch, hch, hmark⟩ := (Option.any_eq_true _ _).mp hmark
    have hstep := (Cursor.passes_advance_one hch (utf8Size_of_isExponentMark hmark)).reaches
    simp only
    split
    · rename_i hsign
      have hsign : (c.advance 1).Reaches ((c.advance 1).advance 1) := by
        rcases Bool.or_eq_true _ _ ▸ hsign with h | h
        · exact (Cursor.passes_advance_one (of_decide_eq_true h) rfl).reaches
        · exact (Cursor.passes_advance_one (of_decide_eq_true h) rfl).reaches
      have hboth := hstep.trans hsign
      exact (beginsAt_skipFloatRun false hboth.inside_eq).trans hboth rfl fun x hx => .inl hx
    · exact (beginsAt_skipFloatRun false hstep.inside_eq).trans hstep rfl fun x hx => .inl hx
  · exact ⟨.refl hc, by simp⟩

theorem beginsAt_readFloat (hc : c.inside = 0) : (readFloat c).BeginsAt c := by
  have hwhole := beginsAt_skipFloatRun true hc
  have hfraction := beginsAt_skipFraction hwhole.reaches.inside_eq
  have hexponent := beginsAt_skipExponent hfraction.reaches.inside_eq
  refine ⟨(hwhole.reaches.trans hfraction.reaches).trans hexponent.reaches, fun x hx => ?_⟩
  simp only [readFloat, List.mem_append] at hx
  rcases hx with (hx | hx) | hx
  · exact hwhole.code x hx
  · exact hfraction.code x hx
  · exact hexponent.code x hx

theorem digit?_of_isDecimal (h : isDecimal ch = true) :
    Radix.decimal.digit? ch = some (ch.toNat - '0'.toNat) := by
  have hnine : ch ≤ '9' := by
    simp only [isDecimal, Bool.and_eq_true, decide_eq_true_eq] at h
    exact h.2
  have hlt : ch.toNat - 48 < 10 := by
    have hle : ch.toNat ≤ 57 := UInt32.le_iff_toNat_le.mp hnine
    omega
  simp [Radix.digit?, hexValue?, h, Radix.base, hlt]

theorem isDigitOrSeparator_of_isDecimal (h : isDecimal ch = true) :
    isDigitOrSeparator .decimal ch = true := by
  rw [isDigitOrSeparator, digit?_of_isDecimal h]
  rfl

theorem pos_lt_readInteger (h : c.char? = some ch) (hd : isDecimal ch = true) :
    c.pos < (readInteger c).stop.pos := by
  obtain ⟨hc, -⟩ := Cursor.char?_eq_some_iff.mp h
  obtain ⟨r, d, part, hpart, hstop, -, hpath⟩ := exists_readDigits_of_readInteger hc
  rw [hstop]
  rcases hpath with hne | ⟨rfl, rfl⟩
  · exact Nat.lt_of_lt_of_le (hpart.pos_lt hne)
      (beginsAt_readDigits r c hpart.inside_eq').reaches.pos_le
  · exact Cursor.pos_lt_skipChars h (isDigitOrSeparator_of_isDecimal hd)

theorem char?_of_isPointFloat (hc : c.inside = 0) (h : isPointFloat c = true) :
    c.char? = some '.' := by
  unfold isPointFloat at h
  split at h
  · rename_i hchars
    rw [Cursor.chars, if_pos hc] at hchars
    exact Cursor.char?_eq_some_iff.mpr ⟨hc, _, hchars⟩
  · cases h

theorem pos_lt_readFloat (h : c.char? = some ch) (hd : isDecimal ch = true ∨ ch = '.') :
    c.pos < (readFloat c).stop.pos := by
  obtain ⟨hc, -⟩ := Cursor.char?_eq_some_iff.mp h
  have hwhole := beginsAt_skipFloatRun true hc
  have hfraction := beginsAt_skipFraction hwhole.reaches.inside_eq
  have hexponent := beginsAt_skipExponent hfraction.reaches.inside_eq
  refine Nat.lt_of_lt_of_le ?_ hexponent.reaches.pos_le
  rcases hd with hd | rfl
  · refine Nat.lt_of_lt_of_le ?_ hfraction.reaches.pos_le
    exact Cursor.pos_lt_skipChars h (by simp [hd])
  · have hnone : (skipFloatRun true c).stop = c := Cursor.skipChars_eq_self h (by decide)
    rw [hnone] at hfraction ⊢
    have hstep := Cursor.passes_advance_one h rfl
    rw [skipFraction, if_pos h]
    exact Nat.lt_of_lt_of_le (hstep.pos_lt (by simp))
      (beginsAt_skipFloatRun false hstep.inside_eq').reaches.pos_le

theorem utf8Size_of_hexValue? {n : Nat} (h : hexValue? ch = some n) : ch.utf8Size = 1 := by
  unfold hexValue? at h
  split at h
  · exact Cursor.utf8Size_eq_one_of_isDecimal ‹_›
  · rename_i hdecimal
    split at h
    · rename_i hlower
      simp only [Bool.and_eq_true, decide_eq_true_eq] at hlower
      exact Cursor.utf8Size_eq_one_of_le (Char.le_trans hlower.2 (by decide))
    · split at h
      · rename_i hupper
        simp only [Bool.and_eq_true, decide_eq_true_eq] at hupper
        exact Cursor.utf8Size_eq_one_of_le (Char.le_trans hupper.2 (by decide))
      · cases h

theorem reaches_readHexRow (n value : Nat) (hc : c.inside = 0) :
    c.Reaches (readHexRow n value c).place := by
  induction n generalizing value c with
  | zero => exact .refl hc
  | succ n ih =>
    unfold readHexRow
    split
    · exact .refl hc
    · rename_i ch hch
      split
      · exact .refl hc
      · rename_i d hd
        have hstep := Cursor.passes_advance_one hch (utf8Size_of_hexValue? hd)
        exact hstep.reaches.trans (ih _ hstep.inside_eq')

theorem passes_readHexRow {n value unit : Nat} (hc : c.inside = 0)
    (h : readHexRow n value c = .complete unit d) :
    ∃ part, c.Passes part d ∧ byteSize part = n := by
  induction n generalizing value c with
  | zero =>
    cases h
    exact ⟨[], .refl hc, rfl⟩
  | succ n ih =>
    unfold readHexRow at h
    split at h
    · cases h
    · rename_i ch hch
      split at h
      · cases h
      · rename_i digit hd
        have hone := utf8Size_of_hexValue? hd
        have hstep := Cursor.passes_advance_one hch hone
        obtain ⟨part, hpart, hsize⟩ := ih hstep.inside_eq' h
        refine ⟨_, hstep.trans hpart, ?_⟩
        rw [byteSize_append, byteSize_cons, hone, hsize, byteSize_nil]
        omega

theorem reaches_readHexEscape (tagged : Bool) (start : Cursor) (n : Nat) (hc : c.inside = 0)
    {continue_ : Nat → Cursor → Reading String}
    (h : ∀ value (stop : Cursor), stop.inside = 0 → stop.Reaches (continue_ value stop).stop) :
    c.Reaches (readHexEscape tagged start n c continue_).stop := by
  have hrow := reaches_readHexRow n 0 hc
  unfold readHexEscape badHexEscape
  split <;> rename_i heq <;> rw [heq] at hrow
  · exact hrow.trans (h _ _ hrow.inside_eq)
  · split
    · exact hrow
    · exact hrow.trans (Cursor.reaches_skipChar hrow.inside_eq)
  · split <;> exact hrow

theorem isOfEscape_of_mem_readHexEscape {tagged : Bool} {start c : Cursor} {n : Nat}
    {continue_ : Nat → Cursor → Reading String}
    (h : ∀ value stop, (continue_ value stop).reports = []) :
    ∀ x ∈ (readHexEscape tagged start n c continue_).reports, x.code.isOfEscape = true := by
  intro x hx
  unfold readHexEscape badHexEscape at hx
  repeat' split at hx
  · rw [h] at hx
    cases hx
  · cases hx
  · obtain rfl := List.mem_singleton.mp hx
    rfl
  · cases hx
  · obtain rfl := List.mem_singleton.mp hx
    rfl

theorem reaches_advance_six {low : Nat} (hc : c.inside = 0) (h : lowSurrogate? c = some low) :
    c.Reaches (c.advance 6) := by
  unfold lowSurrogate? at h
  split at h
  · rename_i hprefix
    obtain ⟨rest, hrest⟩ := Cursor.isPrefixOf_chars hc hprefix
    have hletter := Cursor.passes_advance_two hc hrest rfl rfl
    split at h
    · rename_i unit d hrow
      obtain ⟨part, hpart, hsize⟩ := passes_readHexRow hletter.inside_eq' hrow
      have hboth := hletter.trans hpart
      have hsix := Cursor.passes_advance _ hc hboth.rest_eq
      rw [byteSize_append, hsize] at hsix
      exact hsix.reaches
    · cases h
  · cases h

theorem reaches_readPair (unit : Nat) (hc : c.inside = 0) : c.Reaches (readPair unit c).stop := by
  unfold readPair
  split
  · rename_i low hlow
    split at hlow
    · exact reaches_advance_six hc hlow
    · cases hlow
  · exact .refl hc

theorem reports_readPair (unit : Nat) (c : Cursor) : (readPair unit c).reports = [] := by
  unfold readPair
  split <;> rfl

theorem reaches_afterBrace (hc : c.inside = 0) : c.Reaches (afterBrace c) := by
  unfold afterBrace
  split
  · exact (Cursor.passes_advance_one ‹_› rfl).reaches
  · exact .refl hc

theorem reaches_readBracedEscape (tagged : Bool) (start : Cursor) (hc : c.inside = 0) :
    c.Reaches (readBracedEscape tagged start c).stop := by
  have hdigits := (beginsAt_readDigits .hexadecimal start hc).reaches
  have hstop := hdigits.trans (reaches_afterBrace hdigits.inside_eq)
  unfold readBracedEscape
  simp only
  split
  · exact hstop
  · split <;> exact hstop

theorem isOfEscape_of_mem_bracedFaults {digits : Reading Digits} :
    ∀ x ∈ bracedFaults c digits, x.code.isOfEscape = true := by
  intro x hx
  simp only [bracedFaults, List.mem_append] at hx
  rcases hx with hx | hx
  · split at hx
    · obtain rfl := List.mem_singleton.mp hx
      rfl
    · cases hx
  · split at hx
    · obtain rfl := List.mem_singleton.mp hx
      rfl
    · split at hx
      · cases hx
      · obtain rfl := List.mem_singleton.mp hx
        rfl

theorem isOfEscape_of_mem_readBracedEscape (tagged : Bool) (start c : Cursor) :
    ∀ x ∈ (readBracedEscape tagged start c).reports, x.code.isOfEscape = true := by
  have hdigits := isOfEscape_of_mem_readDigits .hexadecimal start c
  unfold readBracedEscape
  simp only
  split
  · exact hdigits
  · split
    · exact hdigits
    · exact List.forall_mem_append.mpr ⟨hdigits, isOfEscape_of_mem_bracedFaults⟩

theorem reaches_readEscapeAfter (tagged : Bool) (start : Cursor) (ch : Char) (hc : c.inside = 0) :
    c.Reaches (readEscapeAfter tagged start ch c).stop := by
  unfold readEscapeAfter
  split
  · split
    · rename_i hdigit
      obtain ⟨digit, hch, hd⟩ := (Option.any_eq_true _ _).mp (Bool.and_eq_true _ _ ▸ hdigit).2
      exact (Cursor.passes_advance_one hch (Cursor.utf8Size_eq_one_of_isDecimal hd)).reaches
    · exact .refl hc
  · split
    · have hstep := Cursor.passes_advance_one ‹_› rfl
      exact hstep.reaches.trans (reaches_readBracedEscape tagged start hstep.inside_eq')
    · exact reaches_readHexEscape _ _ _ hc fun value _ => reaches_readPair value
  · exact reaches_readHexEscape _ _ _ hc fun _ _ => .refl
  · simp only
    split
    · exact (Cursor.passes_advance_one ‹_› rfl).reaches
    · exact .refl hc
  · split <;> exact .refl hc

theorem isOfEscape_of_mem_readEscape (tagged : Bool) (c : Cursor) :
    ∀ x ∈ (readEscape tagged c).reports, x.code.isOfEscape = true := by
  unfold readEscape
  simp only
  split
  · exact List.forall_mem_singleton.mpr rfl
  · unfold readEscapeAfter
    split
    · split <;> exact List.forall_mem_nil _
    · split
      · exact isOfEscape_of_mem_readBracedEscape tagged c _
      · exact isOfEscape_of_mem_readHexEscape reports_readPair
    · exact isOfEscape_of_mem_readHexEscape fun _ _ => rfl
    · exact List.forall_mem_nil _
    · split <;> exact List.forall_mem_nil _

theorem reaches_readEscape (tagged : Bool) (h : c.char? = some '\\') :
    c.Reaches (readEscape tagged c).stop := by
  have hstep := Cursor.passes_advance_one h rfl
  unfold readEscape
  simp only
  split
  · exact hstep.reaches
  · have hskip := Cursor.reaches_skipChar hstep.inside_eq'
    exact (hstep.reaches.trans hskip).trans (reaches_readEscapeAfter _ _ _ hskip.inside_eq)

theorem bodyEndAt?_readBody (quote : UInt8) (tagged : Bool) (pieces : List (Reading String))
    (run c : Cursor) :
    bodyEndAt? quote (readBody quote tagged pieces run c).stop =
      some (readBody quote tagged pieces run c).ending := by
  fun_induction readBody quote tagged pieces run c with
  | case1 pieces run c ending h => exact h
  | case2 pieces run c h hslash escape hlt ih => exact ih
  | case3 pieces run c h hslash hlt ih => exact ih

theorem reaches_readBody (quote : UInt8) (tagged : Bool) (pieces : List (Reading String))
    (run : Cursor) (hc : c.inside = 0) : c.Reaches (readBody quote tagged pieces run c).stop := by
  fun_induction readBody quote tagged pieces run c with
  | case1 pieces run c ending h => exact .refl hc
  | case2 pieces run c h hslash escape hlt ih =>
    have hescape : c.Reaches escape.stop := reaches_readEscape tagged hslash
    exact hescape.trans (ih hescape.inside_eq)
  | case3 pieces run c h hslash hlt ih =>
    have hskip := Cursor.reaches_skipChar hc
    exact hskip.trans (ih hskip.inside_eq)

theorem isOfEscape_of_mem_readBody (quote : UInt8) (tagged : Bool)
    (pieces : List (Reading String)) (run c : Cursor)
    (h : ∀ piece ∈ pieces, ∀ x ∈ piece.reports, x.code.isOfEscape = true) :
    ∀ x ∈ (readBody quote tagged pieces run c).reports, x.code.isOfEscape = true := by
  fun_induction readBody quote tagged pieces run c with
  | case1 pieces run c ending hend =>
    intro x hx
    obtain ⟨piece, hpiece, hx⟩ := List.mem_flatMap.mp hx
    rcases List.mem_cons.mp (List.mem_reverse.mp hpiece) with rfl | hpiece
    · cases hx
    · exact h piece hpiece x hx
  | case2 pieces run c hend hslash escape hlt ih =>
    exact ih (List.forall_mem_cons.mpr ⟨isOfEscape_of_mem_readEscape tagged c,
      List.forall_mem_cons.mpr ⟨List.forall_mem_nil _, h⟩⟩)
  | case3 pieces run c hend hslash hlt ih => exact ih h

theorem exists_char?_of_bodyEndAt? {quote : UInt8} (hc : c.inside = 0) (hquote : quote < 0x80)
    (h : bodyEndAt? quote c = some .quote) : ∃ ch, c.char? = some ch ∧ ch.utf8Size = 1 := by
  unfold bodyEndAt? at h
  split at h
  · cases h
  · rename_i hend
    split at h
    · rename_i hbyte
      have hrest : c.rest ≠ [] := by simpa [Cursor.atEnd] using hend
      obtain ⟨ch, rest, hrest⟩ := List.exists_cons_of_ne_nil hrest
      have hch := Cursor.char?_eq_some_iff.mpr ⟨hc, rest, hrest⟩
      exact ⟨ch, hch, Cursor.utf8Size_eq_one_of_byte_lt hch (hbyte ▸ hquote)⟩
    · repeat' split at h
      all_goals cases h

theorem isPrefixOf_of_bodyEndAt? {quote : UInt8} (h : bodyEndAt? quote c = some .interpolation) :
    ['$', '\x7b'].isPrefixOf c.chars = true := by
  unfold bodyEndAt? at h
  repeat' split at h
  all_goals first | assumption | cases h

theorem reaches_after {b : Body} {quote : UInt8} (hb : b.stop.inside = 0) (hquote : quote < 0x80)
    (h : bodyEndAt? quote b.stop = some b.ending) :
    b.stop.Reaches b.after ∧ (b.ending = .interpolation → b.stop.pos + 2 ≤ b.after.pos) := by
  unfold Body.after
  split
  · rename_i hending
    obtain ⟨ch, hch, hone⟩ := exists_char?_of_bodyEndAt? hb hquote (hending ▸ h)
    exact ⟨(Cursor.passes_advance_one hch hone).reaches, by simp [hending]⟩
  · rename_i hending
    obtain ⟨rest, hrest⟩ := Cursor.isPrefixOf_chars hb (isPrefixOf_of_bodyEndAt? (hending ▸ h))
    have hstep := Cursor.passes_advance_two hb hrest rfl rfl
    exact ⟨hstep.reaches, fun _ => Nat.le_of_eq hstep.pos_eq.symm⟩
  · rename_i hending
    exact ⟨.refl hb, by simp [hending]⟩
  · rename_i hending
    exact ⟨.refl hb, by simp [hending]⟩

theorem isOfScan_of_mem_openReports {b : Body} {start : Nat} :
    ∀ x ∈ b.openReports start, x.code.isOfScan = false := by
  intro x hx
  unfold Body.openReports at hx
  split at hx
  · cases hx
  · cases hx
  · obtain rfl := List.mem_singleton.mp hx
    rfl
  · obtain rfl := List.mem_singleton.mp hx
    rfl

theorem beginsAt_readQuoted (quote? : Option UInt8) (tagged : Bool)
    (hstart : (readQuoted quote? tagged c).value.start.inside = 0)
    (hquote : quote?.getD c.byte < 0x80) :
    (readQuoted quote? tagged c).BeginsAt (readQuoted quote? tagged c).value.start := by
  have hstop := reaches_readBody (quote?.getD c.byte) tagged []
    (readQuoted quote? tagged c).value.start hstart
  obtain ⟨hafter, -⟩ := reaches_after hstop.inside_eq hquote (bodyEndAt?_readBody _ _ _ _ _)
  refine ⟨hstop.trans hafter, fun x hx => ?_⟩
  rcases List.mem_append.mp hx with hx | hx
  · exact isOfScan_of_isOfEscape
      (isOfEscape_of_mem_readBody _ _ [] _ _ (List.forall_mem_nil _) x hx)
  · exact isOfScan_of_mem_openReports x hx

theorem pos_add_two_le_readQuoted (quote? : Option UInt8) (tagged : Bool)
    (hstart : (readQuoted quote? tagged c).value.start.inside = 0)
    (hquote : quote?.getD c.byte < 0x80)
    (hending : (readQuoted quote? tagged c).value.ending = .interpolation) :
    (readQuoted quote? tagged c).value.start.pos + 2 ≤ (readQuoted quote? tagged c).stop.pos := by
  have hstop := reaches_readBody (quote?.getD c.byte) tagged []
    (readQuoted quote? tagged c).value.start hstart
  obtain ⟨-, hafter⟩ := reaches_after hstop.inside_eq hquote (bodyEndAt?_readBody _ _ _ _ _)
  exact Nat.le_trans (Nat.add_le_add_right hstop.pos_le 2) (hafter hending)

theorem beginsAt_readQuoted_none (tagged : Bool) (h : c.char? = some ch) (hone : ch.utf8Size = 1) :
    (readQuoted none tagged c).BeginsAt c ∧ c.pos < (readQuoted none tagged c).stop.pos := by
  have hstep := Cursor.passes_advance_one h hone
  have hbody := beginsAt_readQuoted none tagged hstep.inside_eq'
    (Cursor.byte_lt_of_utf8Size_eq_one h hone)
  exact ⟨hbody.trans hstep.reaches rfl fun x hx => .inl hx,
    Nat.lt_of_lt_of_le (hstep.pos_lt (by simp)) hbody.reaches.pos_le⟩

end Lexer

end TypedScript
