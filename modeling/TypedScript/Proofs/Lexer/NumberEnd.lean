import TypedScript.Proofs.Diagnostic.Distinct
import TypedScript.Proofs.Lexer.NumberExtent

/-! # Integers at the end of the text

What is read of an integer does not depend on what is behind it, if that cannot go on with a
number, nor on whether there is anything. Only the letter of a radix and an octal digit
behind a zero do not count at the very end of the text.
-/

namespace TypedScript.Lexer

open Text Numeral Diagnostic

variable {c d literal literal' : Cursor} {r : Radix} {mark after : List Char}

def Reading.Agrees {α : Type} (r s : Reading α) : Prop :=
  r.value = s.value ∧ r.stop.pos = s.stop.pos ∧ r.reports = s.reports

theorem digitRun_append (hc : c.inside = 0) (hd : d.inside = 0) (h : d.rest = c.rest ++ after)
    (hafter : ∀ ch, after.head? = some ch → isDigitOrSeparator r ch = false) :
    digitRun r d = digitRun r c := by
  rw [digitRun_eq r hc, digitRun_eq r hd, h, List.takeWhile_append]
  split
  · rename_i hlength
    rw [takeWhile_eq_nil hafter, List.append_nil]
    exact ((List.takeWhile_prefix _).eq_of_length hlength).symm
  · rfl

theorem agrees_readDigits (hmark : literal.Passes mark c) (hmark' : literal'.Passes mark d)
    (hpos : literal'.pos = literal.pos) (h : d.rest = c.rest ++ after)
    (hafter : ∀ ch, after.head? = some ch → isDigitOrSeparator r ch = false) :
    (readDigits r literal' d).Agrees (readDigits r literal c) := by
  have hrun : digitRun r d = digitRun r c :=
    digitRun_append hmark.inside_eq' hmark'.inside_eq' h hafter
  have hpart := passes_readDigits r literal hmark.inside_eq'
  have hpart' := passes_readDigits r literal' hmark'.inside_eq'
  have hstart : d.pos = c.pos := by rw [hmark.pos_eq, hmark'.pos_eq, hpos]
  have hstop : (readDigits r literal' d).stop.pos = (readDigits r literal c).stop.pos := by
    rw [hpart.pos_eq, hpart'.pos_eq, hstart, hrun]
  have htext : literal'.textTo (readDigits r literal' d).stop.pos =
      literal.textTo (readDigits r literal c).stop.pos := by
    rw [(hmark.trans hpart).textTo_eq, (hmark'.trans hpart').textTo_eq, hrun]
  have hchars : d.chars.takeWhile (isDigitOrSeparator r) =
      c.chars.takeWhile (isDigitOrSeparator r) := hrun
  refine ⟨?_, hstop, ?_⟩
  · simp only [readDigits, hchars]
  · rw [hstop] at htext
    simp only [readDigits] at hstop htext
    simp only [readDigits, hchars, hstart, hpos, hstop, htext]

def IsCutOff (text : List Char) : Prop :=
  ∃ letter, text = ['0', letter] ∧
    ((Radix.ofLetter? letter).isSome = true ∨ isOctal letter = true)

def IsDecimalText (text : List Char) : Prop :=
  ∀ letter rest, text = '0' :: letter :: rest →
    Radix.ofLetter? letter = none ∧ isOctal letter = false

theorem IsDecimalText.append {text : List Char} (h : IsDecimalText text)
    (hafter : EndsNumber after) : IsDecimalText (text ++ after) := by
  intro letter rest hrest
  match text, h with
  | [], _ =>
    have hzero : after = '0' :: letter :: rest := hrest
    exact absurd (hafter '0' (by rw [hzero]; rfl)).1 (by decide)
  | [first], _ =>
    have hletter : after = letter :: rest := (List.cons.inj hrest).2
    exact not_octal_of_isIdentifierPart (hafter letter (by rw [hletter]; rfl)).1
  | first :: second :: more, h =>
    obtain ⟨rfl, hmore⟩ := List.cons.inj hrest
    obtain ⟨rfl, -⟩ := List.cons.inj hmore
    exact h _ _ rfl

theorem agrees_readInteger_of_isDecimalText (hc : c.inside = 0) (hd : d.inside = 0)
    (hpos : d.pos = c.pos) (h : d.rest = c.rest ++ after) (hafter : EndsNumber after)
    (hdecimal : IsDecimalText c.rest) : (readInteger d).Agrees (readInteger c) := by
  have hdecimal' : IsDecimalText d.rest := h ▸ hdecimal.append hafter
  obtain ⟨hvalue, hstop, hreports⟩ := agrees_readDigits (r := .decimal) (.refl hc) (.refl hd) hpos h
    fun ch hch => isDigitOrSeparator_eq_false .decimal (hafter ch hch).1
  rw [readInteger_of_decimal (c := c) (by rwa [Cursor.chars, if_pos hc]),
    readInteger_of_decimal (c := d) (by rwa [Cursor.chars, if_pos hd])]
  exact ⟨congrArg Digits.value hvalue, hstop, hreports⟩

section Marked

variable {letter third : Char} {rest : List Char}

theorem agrees_readInteger_of_ofLetter? (hc : c.inside = 0) (hd : d.inside = 0)
    (hpos : d.pos = c.pos) (hrest : c.rest = '0' :: letter :: third :: rest)
    (hrest' : d.rest = '0' :: letter :: third :: (rest ++ after)) (hafter : EndsNumber after)
    (hradix : Radix.ofLetter? letter = some r) : (readInteger d).Agrees (readInteger c) := by
  have hone := utf8Size_of_ofLetter? (Option.isSome_of_eq_some hradix)
  have hmark := Cursor.passes_advance_two hc hrest rfl hone
  have hmark' := Cursor.passes_advance_two hd hrest' rfl hone
  have hmore : (d.advance 2).rest = (c.advance 2).rest ++ after := by
    rw [hmark.rest_eq_of_append hrest, hmark'.rest_eq_of_append hrest']
    rfl
  obtain ⟨hvalue, hstop, hreports⟩ := agrees_readDigits hmark hmark' hpos hmore
    fun ch hch => isDigitOrSeparator_eq_false r (hafter ch hch).1
  rw [readInteger_of_ofLetter? hc hrest hradix, readInteger_of_ofLetter? hd hrest' hradix]
  exact ⟨congrArg Digits.value hvalue, hstop, hreports⟩

theorem agrees_readInteger_of_isOctal (hc : c.inside = 0) (hd : d.inside = 0)
    (hpos : d.pos = c.pos) (hrest : c.rest = '0' :: letter :: third :: rest)
    (hrest' : d.rest = '0' :: letter :: third :: (rest ++ after)) (hafter : EndsNumber after)
    (hradix : Radix.ofLetter? letter = none) (hoctal : isOctal letter = true) :
    (readInteger d).Agrees (readInteger c) := by
  have hzero := Cursor.passes_advance_one (Cursor.char?_eq_some_iff.mpr ⟨hc, _, hrest⟩) rfl
  have hzero' := Cursor.passes_advance_one (Cursor.char?_eq_some_iff.mpr ⟨hd, _, hrest'⟩) rfl
  have hmore : (d.advance 1).rest = (c.advance 1).rest ++ after := by
    rw [hzero.rest_eq_of_append hrest, hzero'.rest_eq_of_append hrest']
    rfl
  obtain ⟨hvalue, hstop, hreports⟩ := agrees_readDigits hzero hzero' hpos hmore
    fun ch hch => isDigitOrSeparator_eq_false .octal (hafter ch hch).1
  rw [readInteger_of_isOctal hc hrest hradix hoctal, readInteger_of_isOctal hd hrest' hradix hoctal]
  refine ⟨congrArg Digits.value hvalue, hstop, ?_⟩
  simp only [hreports, hstop, hpos]

end Marked

/-- An integer is read the same whether its text ends or goes on with something else. -/
theorem agrees_readInteger (hc : c.inside = 0) (hd : d.inside = 0) (hpos : d.pos = c.pos)
    (h : d.rest = c.rest ++ after) (hafter : EndsNumber after) (hcut : ¬ IsCutOff c.rest) :
    (readInteger d).Agrees (readInteger c) := by
  by_cases hdecimal : IsDecimalText c.rest
  · exact agrees_readInteger_of_isDecimalText hc hd hpos h hafter hdecimal
  · simp only [IsDecimalText, not_forall] at hdecimal
    obtain ⟨letter, rest, hrest, hspecial⟩ := hdecimal
    -- The text goes on behind the letter, since it is not cut off there.
    cases rest with
    | nil =>
      refine absurd ⟨letter, hrest, ?_⟩ hcut
      by_contra hneither
      rw [not_or, Option.not_isSome_iff_eq_none, Bool.not_eq_true] at hneither
      exact hspecial hneither
    | cons third rest =>
      have hrest' : d.rest = '0' :: letter :: third :: (rest ++ after) := by
        rw [h, hrest]
        rfl
      cases hradix : Radix.ofLetter? letter with
      | some r => exact agrees_readInteger_of_ofLetter? hc hd hpos hrest hrest' hafter hradix
      | none =>
        have hoctal : isOctal letter = true := by
          by_contra hno
          exact hspecial ⟨hradix, Bool.not_eq_true _ ▸ hno⟩
        exact agrees_readInteger_of_isOctal hc hd hpos hrest hrest' hafter hradix hoctal

theorem isInteger_append (hc : c.inside = 0) (hd : d.inside = 0) (h : d.rest = c.rest ++ after)
    (hafter : EndsNumber after) (hinteger : isInteger c = true) : isInteger d = true := by
  by_cases hradix : NamesRadix d.rest
  · obtain ⟨letter, rest, hrest, hletter⟩ := hradix
    obtain ⟨r, hr⟩ := Option.isSome_iff_exists.mp hletter
    exact isInteger_of_ofLetter? hd hrest hr
  · have hradix' : ¬ NamesRadix c.rest := by
      rintro ⟨letter, rest, hrest, hletter⟩
      exact hradix ⟨letter, rest ++ after, by rw [h, hrest]; rfl, hletter⟩
    rw [isInteger_iff hc hradix'] at hinteger
    rw [isInteger_iff hd hradix]
    intro ch hch
    have hrun : digitRun .decimal d = digitRun .decimal c :=
      digitRun_append hc hd h fun ch hch => isDigitOrSeparator_eq_false .decimal (hafter ch hch).1
    have hpart := passes_readDigits .decimal c hc
    have hpart' := passes_readDigits .decimal d hd
    have hleft : (readDigits .decimal d d).stop.rest =
        (readDigits .decimal c c).stop.rest ++ after :=
      hpart'.rest_eq_of_append (by rw [h, hrun, ← List.append_assoc, ← hpart.rest_eq])
    obtain ⟨-, rest, hrest⟩ := Cursor.char?_eq_some_iff.mp hch
    rw [show (d.skipChars _).rest = _ from hleft] at hrest
    cases hstop : (readDigits .decimal c c).stop.rest with
    | nil =>
      rw [hstop, List.nil_append] at hrest
      obtain ⟨hword, hpoint⟩ := hafter ch (by rw [hrest]; rfl)
      exact ⟨hpoint, isExponentMark_eq_false hword⟩
    | cons first more =>
      rw [hstop, List.cons_append, List.cons.injEq] at hrest
      rw [← hrest.1]
      exact hinteger first (Cursor.char?_eq_some_iff.mpr ⟨hpart.inside_eq', more, hstop⟩)

/-- At the end of the text the character behind a zero is not looked at. -/
theorem readInteger_of_pair {first second : Char} (hc : c.inside = 0)
    (h : c.rest = [first, second]) :
    readInteger c = ⟨(readDigits .decimal c c).value.value, (readDigits .decimal c c).stop,
      (readDigits .decimal c c).reports⟩ := by
  unfold readInteger
  split
  · rename_i hchars
    rw [Cursor.chars, if_pos hc, h] at hchars
    cases hchars
  · rfl

/-- So the letter of a radix is left behind there, and an octal digit is taken for a decimal
one. -/
theorem readInteger_of_isCutOff {stop : Char} {more : List Char} (hc : c.inside = 0)
    (hd : d.inside = 0) (hpos : d.pos = c.pos) (h : d.rest = c.rest ++ stop :: more)
    (hcut : IsCutOff c.rest) :
    (readInteger c).stop.pos < (readInteger d).stop.pos ∨
      (∃ x ∈ (readInteger d).reports, x.code = .octalLiteral) ∧
        ∀ x ∈ (readInteger c).reports, x.code ≠ .octalLiteral := by
  obtain ⟨letter, hrest, hspecial⟩ := hcut
  have hrest' : d.rest = '0' :: letter :: stop :: more := by
    rw [h, hrest]
    rfl
  rw [readInteger_of_pair hc hrest]
  cases hradix : Radix.ofLetter? letter with
  | some r =>
    have hsome := Option.isSome_of_eq_some hradix
    have hletter : isDigitOrSeparator .decimal letter = false := by
      unfold Radix.ofLetter? at hsome
      split at hsome <;> first | rfl | cases hsome
    have hrun : digitRun .decimal c = ['0'] := by
      rw [digitRun_eq .decimal hc, hrest, List.takeWhile_cons_of_pos (by decide),
        List.takeWhile_cons_of_neg (by simp [hletter])]
    have hpart := passes_readDigits .decimal c hc
    have hmark := Cursor.passes_advance_two hd hrest' rfl (utf8Size_of_ofLetter? hsome)
    have hpart' := passes_readDigits r d hmark.inside_eq'
    rw [readInteger_of_ofLetter? hd hrest' hradix]
    left
    rw [hpart.pos_eq, hrun]
    refine Nat.lt_of_lt_of_le ?_ hpart'.pos_le
    have htwo : byteSize ['0', letter] = 2 := by
      rw [byteSize_cons, byteSize_cons, byteSize_nil, utf8Size_of_ofLetter? hsome]
      rfl
    rw [hmark.pos_eq, hpos, htwo]
    exact Nat.add_lt_add_left (by decide) _
  | none =>
    have hoctal : isOctal letter = true := by
      rw [hradix] at hspecial
      exact hspecial.resolve_left (by decide)
    rw [readInteger_of_isOctal hd hrest' hradix hoctal]
    refine .inr ⟨⟨_, List.mem_append_right _ List.mem_cons_self, rfl⟩, fun x hx hcode => ?_⟩
    have hescape := isOfEscape_of_mem_readDigits .decimal c c x hx
    rw [hcode] at hescape
    cases hescape

/-- What comes of a text when its first token is read as an integer: the token, the value, the
place behind it and the messages. -/
def firstInteger (source : SourceId) (handling : WordHandling) (text : String) :
    Token × UInt64 × Nat × List Message :=
  let found := (Lexer.new source text .empty).next handling
  let taken := found.2.takeInteger
  (found.1, taken.1, taken.2.pos, taken.2.log.messages.toList)

theorem firstInteger_eq (source : SourceId) (handling : WordHandling) {text : String} {ch : Char}
    (hch : text.toList.head? = some ch) (hdigit : isDecimal ch = true) :
    let read := readInteger (.start text.toList)
    firstInteger source handling text =
      (if isInteger (.start text.toList) then .integer else .float, read.value, read.stop.pos,
        Log.distinct (read.reports.map (·.message source))) := by
  intro read
  let l := Lexer.new source text .empty
  have hcursor : l.cursor = .start text.toList := by
    refine cursor_new_of_head source .empty fun first hfirst => ?_
    obtain rfl := Option.some.inj (hch.symm.trans hfirst)
    constructor <;> rintro rfl <;> exact absurd hdigit (by decide)
  have hchar : l.cursor.char? = some ch := by rw [hcursor]; exact hch
  have hinside := (Cursor.char?_eq_some_iff.mp hchar).1
  obtain ⟨htoken, hstay⟩ := next_number handling hchar hdigit
  have hsilent := (silent_next (.refl hinside) (List.forall_mem_nil _)
    (pieceAt_number handling noLimit hchar hdigit)).2.2
  have hread : readInteger (l.next handling).2.cursor = read := by rw [hstay, hcursor]
  have hlog : (l.next handling).2.takeInteger.2.log =
      Log.empty.pushAll (read.reports.map (·.message source)) := by
    rw [takeInteger, hread, log_take, hsilent.log_eq, hsilent.source_eq]
    rfl
  rw [atInteger, hcursor] at htoken
  refine Prod.ext htoken (Prod.ext (congrArg Reading.value hread) (Prod.ext ?_ ?_))
  · exact congrArg (fun reading : Reading UInt64 => reading.stop.pos) hread
  · exact (congrArg (fun log : Log => log.messages.toList) hlog).trans
      (Log.messages_pushAll_empty _)

/-- An integer at the end of the text is read as it is in front of anything that cannot go on
with a number, unless the text is a zero and the letter of a radix or an octal digit. -/
theorem firstInteger_append (source : SourceId) (handling : WordHandling) {text : String}
    {ch stop : Char} (more : List Char) (hch : text.toList.head? = some ch)
    (hdigit : isDecimal ch = true) (htoken : (firstInteger source handling text).1 = .integer)
    (hstop : isIdentifierPart stop = false ∧ stop ≠ '.') :
    firstInteger source handling (text ++ String.ofList (stop :: more)) =
      firstInteger source handling text ↔ ¬ IsCutOff text.toList := by
  have htext : (text ++ String.ofList (stop :: more)).toList = text.toList ++ stop :: more := by
    rw [String.toList_append, String.toList_ofList]
  have hch' : (text ++ String.ofList (stop :: more)).toList.head? = some ch := by
    rw [htext, List.head?_append, hch]
    rfl
  have hafter : EndsNumber (stop :: more) := by
    rintro _ ⟨⟩
    exact hstop
  rw [firstInteger_eq source handling hch hdigit] at htoken
  have hinteger : isInteger (.start text.toList) = true := by
    by_contra hno
    rw [if_neg hno] at htoken
    cases htoken
  rw [firstInteger_eq source handling hch' hdigit, firstInteger_eq source handling hch hdigit,
    htext, hinteger, isInteger_append (c := .start text.toList) rfl rfl rfl hafter hinteger]
  constructor
  · intro heq hcut
    simp only [Prod.mk.injEq] at heq
    obtain ⟨-, -, hpos, hmessages⟩ := heq
    have hdiffer := readInteger_of_isCutOff (c := .start text.toList)
      (d := .start (text.toList ++ stop :: more)) rfl rfl rfl rfl hcut
    rcases hdiffer with hlt | ⟨⟨x, hx, hcode⟩, hnone⟩
    · exact absurd hpos (Nat.ne_of_gt hlt)
    · obtain ⟨m, hm, hagrees⟩ := Log.exists_agrees_of_mem (x.message source)
        (List.mem_map_of_mem hx) rfl
      rw [hmessages] at hm
      obtain ⟨y, hy, rfl⟩ := List.mem_map.mp ((Log.sublist_distinct _).subset hm)
      exact hnone y hy (hagrees.1.trans hcode)
  · intro hcut
    obtain ⟨hvalue, hpos, hreports⟩ := agrees_readInteger (c := .start text.toList)
      (d := .start (text.toList ++ stop :: more)) rfl rfl rfl rfl hafter hcut
    rw [hvalue, hpos, hreports]

theorem firstInteger_append_hexadecimal :
    "0x1F".toList.head? = some '0' ∧ isDecimal '0' = true ∧
      (firstInteger 0 .standard "0x1F").1 = .integer ∧
      (isIdentifierPart ';' = false ∧ ';' ≠ '.') ∧
      firstInteger 0 .standard "0x1F;" = firstInteger 0 .standard "0x1F" := by
  have hch : "0x1F".toList.head? = some '0' := by decide +kernel
  have htoken : (firstInteger 0 .standard "0x1F").1 = .integer := by decide +kernel
  have hstop : isIdentifierPart ';' = false ∧ ';' ≠ '.' := by decide
  have hcut : ¬ IsCutOff "0x1F".toList := by
    rw [show "0x1F".toList = ['0', 'x', '1', 'F'] by decide +kernel]
    rintro ⟨_, ⟨⟩, -⟩
  exact ⟨hch, rfl, htoken, hstop,
    (firstInteger_append 0 .standard [] hch rfl htoken hstop).mpr hcut⟩

/-- The mark of a radix at the end of the text is read as the decimal number zero, which leaves
the letter behind. -/
theorem firstInteger_cut_off :
    (firstInteger 0 .standard "0x").1 = .integer ∧
      (firstInteger 0 .standard "0x").2.2.1 = 1 ∧ (firstInteger 0 .standard "0x;").2.2.1 = 2 ∧
      firstInteger 0 .standard "0x;" ≠ firstInteger 0 .standard "0x" := by
  have hpos : (firstInteger 0 .standard "0x").2.2.1 = 1 := by decide +kernel
  have hpos' : (firstInteger 0 .standard "0x;").2.2.1 = 2 := by decide +kernel
  refine ⟨by decide +kernel, hpos, hpos', fun heq => ?_⟩
  rw [heq, hpos] at hpos'
  cases hpos'

end TypedScript.Lexer
