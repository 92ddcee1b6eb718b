import TypedScript.Proofs.Lexer.Body
import TypedScript.Proofs.Lexer.Integer

/-! # Escapes

The escapes a character can be written as. Each of them is read as the character, without
complaint, and no further than it goes: the two units of a surrogate pair are read
together, and a line continuation takes in a whole line end.
-/

namespace TypedScript.Lexer

open Text Numeral

variable {c d : Cursor} {ch : Char} {row after : List Char}

def letterEscapes : List (Char × Char) :=
  [('0', '\x00'), ('b', '\x08'), ('t', '\t'), ('n', '\n'), ('v', '\x0B'), ('f', '\x0C'),
    ('r', '\r'), ('\x27', '\x27'), ('\x22', '\x22')]

def lineEnds : List (List Char) :=
  [['\n'], ['\r'], ['\r', '\n'], ['\u2028'], ['\u2029']]

def isEscapeLetter (ch : Char) : Bool :=
  ['0', 'b', 't', 'n', 'v', 'f', 'r', 'u', 'x'].contains ch

inductive Escape where
  | letter (entry : Char × Char) (h : entry ∈ letterEscapes)
  | itself (ch : Char) (h : isEscapeLetter ch = false ∧ isLineBreak ch = false)
  | hex (ch : Char) (upper : Nat → Bool) (h : ch.toNat ≤ 0xFF)
  | unit (ch : Char) (upper : Nat → Bool) (h : ch.toNat ≤ 0xFFFF)
  | pair (ch : Char) (upper upper' : Nat → Bool) (h : 0xFFFF < ch.toNat)
  | braced (ch : Char) (zeros : Nat) (upper : Nat → Bool)
  | continuation (lineEnd : List Char) (h : lineEnd ∈ lineEnds)

def highUnit (n : Nat) : Nat :=
  0xD800 + (n - 0x10000) / 0x400

def lowUnit (n : Nat) : Nat :=
  0xDC00 + (n - 0x10000) % 0x400

def hexRow (upper : Nat → Bool) (width n : Nat) : List Char :=
  write upper (fun _ => false) 0 (padded .hexadecimal width n)

namespace Escape

def text : Escape → List Char
  | .letter entry _ => ['\\', entry.1]
  | .itself ch _ => ['\\', ch]
  | .hex ch upper _ => '\\' :: 'x' :: hexRow upper 2 ch.toNat
  | .unit ch upper _ => '\\' :: 'u' :: hexRow upper 4 ch.toNat
  | .pair ch upper upper' _ =>
    '\\' :: 'u' :: (hexRow upper 4 (highUnit ch.toNat) ++
      '\\' :: 'u' :: hexRow upper' 4 (lowUnit ch.toNat))
  | .braced ch zeros upper =>
    '\\' :: 'u' :: '\x7b' ::
      (write upper (fun _ => false) 0 (zerosAndDigits .hexadecimal zeros ch.toNat) ++ ['\x7d'])
  | .continuation lineEnd _ => '\\' :: lineEnd

def meant : Escape → List Char
  | .letter entry _ => [entry.2]
  | .itself ch _ | .hex ch .. | .unit ch .. | .pair ch .. | .braced ch .. => [ch]
  | .continuation .. => []

theorem head?_text (e : Escape) : e.text.head? = some '\\' := by
  cases e <;> rfl

end Escape

theorem readHexRow_of_digits (value : Nat) (hc : c.inside = 0) (h : c.rest = row ++ after)
    (hrow : ∀ ch ∈ row, (Radix.hexadecimal.digit? ch).isSome = true) :
    ∃ stop, readHexRow row.length value c = .complete
        ((row.filterMap Radix.hexadecimal.digit?).foldl (fun n d => n * 16 + d) value) stop ∧
      c.Passes row stop := by
  induction row generalizing value c with
  | nil => exact ⟨c, rfl, .refl hc⟩
  | cons ch row ih =>
    obtain ⟨hch, hmore⟩ := List.forall_mem_cons.mp hrow
    obtain ⟨digit, hdigit⟩ := Option.isSome_iff_exists.mp hch
    have hvalue : hexValue? ch = some digit := (Option.filter_eq_some_iff.mp hdigit).1
    have hchar : c.char? = some ch := Cursor.char?_eq_some_iff.mpr ⟨hc, _, h⟩
    have hstep := Cursor.passes_advance_one hchar (utf8Size_of_hexValue? hvalue)
    obtain ⟨stop, hread, hpart⟩ :=
      ih (value * 16 + digit) hstep.inside_eq' (hstep.rest_eq_of_append h) hmore
    refine ⟨stop, ?_, hstep.trans hpart⟩
    rw [List.length_cons, readHexRow, hchar]
    simp only [hvalue, hread, List.filterMap_cons_some hdigit, List.foldl_cons]

theorem isSome_of_mem_hexRow {upper : Nat → Bool} {width n : Nat} (h : ch ∈ hexRow upper width n) :
    (Radix.hexadecimal.digit? ch).isSome = true :=
  isSome_of_mem_write_unseparated (fun _ => isDigit_of_mem_zerosAndDigits) h

theorem length_hexRow (upper : Nat → Bool) {width n : Nat} (hwidth : 0 < width)
    (hn : n < 16 ^ width) : (hexRow upper width n).length = width := by
  rw [hexRow, length_write_unseparated, length_padded hwidth hn]

theorem readHexRow_hexRow {upper : Nat → Bool} {width n : Nat} (hwidth : 0 < width)
    (hn : n < 16 ^ width) (hc : c.inside = 0) (h : c.rest = hexRow upper width n ++ after) :
    ∃ stop, readHexRow width 0 c = .complete n stop ∧ c.Passes (hexRow upper width n) stop := by
  obtain ⟨stop, hread, hpart⟩ := readHexRow_of_digits 0 hc h fun _ => isSome_of_mem_hexRow
  have hvalue : Radix.hexadecimal.value (hexRow upper width n) = n :=
    (value_write upper _ 0 fun _ => isDigit_of_mem_zerosAndDigits).trans
      (value_zerosAndDigits .hexadecimal _ n)
  refine ⟨stop, ?_, hpart⟩
  rw [length_hexRow upper hwidth hn] at hread
  exact hread.trans (congrArg (HexRow.complete · stop) hvalue)

theorem charOfCode_toNat (ch : Char) : charOfCode ch.toNat = ch := by
  have hvalid : ch.toNat.isValidChar := ch.valid
  rw [charOfCode, if_pos hvalid, Char.ofNat_toNat]

theorem toNat_bounds (ch : Char) : ch.toNat < 0xD800 ∨ 0xDFFF < ch.toNat ∧ ch.toNat ≤ 0x10FFFF := by
  rcases ch.valid with h | ⟨hlow, hhigh⟩
  · exact .inl h
  · exact .inr ⟨hlow, Nat.le_of_lt_succ hhigh⟩

theorem isHighSurrogate_iff {unit : Nat} :
    isHighSurrogate unit = true ↔ 0xD800 ≤ unit ∧ unit ≤ 0xDBFF := by
  simp only [isHighSurrogate, Bool.and_eq_true, decide_eq_true_eq]

theorem isLowSurrogate_iff {unit : Nat} :
    isLowSurrogate unit = true ↔ 0xDC00 ≤ unit ∧ unit ≤ 0xDFFF := by
  simp only [isLowSurrogate, Bool.and_eq_true, decide_eq_true_eq]

theorem isHighSurrogate_toNat (ch : Char) : isHighSurrogate ch.toNat = false := by
  refine Bool.eq_false_iff.mpr fun h => ?_
  have hhigh := isHighSurrogate_iff.mp h
  have hbounds := toNat_bounds ch
  omega

theorem readPair_toNat (ch : Char) (c : Cursor) :
    readPair ch.toNat c = ⟨String.singleton ch, c, []⟩ := by
  simp only [readPair, isHighSurrogate_toNat, Bool.false_eq_true, if_false, charOfCode_toNat]

theorem readPair_of_low {unit low : Nat} (hhigh : isHighSurrogate unit = true)
    (hlow : lowSurrogate? c = some low) :
    readPair unit c =
      ⟨String.singleton (charOfCode (0x10000 + (unit - 0xD800) * 0x400 + (low - 0xDC00))),
        c.advance 6, []⟩ := by
  rw [readPair, if_pos hhigh, hlow]

/-- The units of a surrogate pair give the code back. -/
theorem surrogates_of_toNat (h : 0xFFFF < ch.toNat) :
    isHighSurrogate (highUnit ch.toNat) = true ∧ isLowSurrogate (lowUnit ch.toNat) = true ∧
      0x10000 + (highUnit ch.toNat - 0xD800) * 0x400 + (lowUnit ch.toNat - 0xDC00) =
        ch.toNat := by
  have hbounds := toNat_bounds ch
  rw [isHighSurrogate_iff, isLowSurrogate_iff, highUnit, lowUnit]
  omega

theorem lowSurrogate?_of_hexRow {upper : Nat → Bool} {unit : Nat}
    (hunit : isLowSurrogate unit = true) (hc : c.inside = 0) (h : c.rest = '\\' :: 'u' :: hexRow upper 4 unit ++ after) :
    lowSurrogate? c = some unit := by
  have hfits : unit < 16 ^ 4 := by
    have hlow := isLowSurrogate_iff.mp hunit
    omega
  have hmark := Cursor.passes_advance_two hc h rfl rfl
  obtain ⟨stop, hread, -⟩ := readHexRow_hexRow (by decide) hfits hmark.inside_eq'
    (hmark.rest_eq_of_append h)
  have hprefix : ['\\', 'u'].isPrefixOf c.chars = true := by
    rw [Cursor.chars, if_pos hc, h]
    rfl
  rw [lowSurrogate?, if_pos hprefix, hread]
  exact if_pos hunit

theorem byteSize_of_digits (h : ∀ ch ∈ row, (Radix.hexadecimal.digit? ch).isSome = true) :
    byteSize row = row.length := by
  induction row with
  | nil => rfl
  | cons ch row ih =>
    obtain ⟨hch, hmore⟩ := List.forall_mem_cons.mp h
    obtain ⟨digit, hdigit⟩ := Option.isSome_iff_exists.mp hch
    rw [byteSize_cons, ih hmore, List.length_cons,
      utf8Size_of_hexValue? (Option.filter_eq_some_iff.mp hdigit).1, Nat.add_comm]

section Reading

variable (start : Cursor)

theorem readEscapeAfter_letter {entry : Char × Char} (h : entry ∈ letterEscapes) :
    readEscapeAfter false start entry.1 c = ⟨String.singleton entry.2, c, []⟩ := by
  have hall : ∀ entry ∈ letterEscapes,
      readEscapeAfter false start entry.1 c = ⟨String.singleton entry.2, c, []⟩ := by
    simp only [letterEscapes, List.forall_mem_cons]
    exact ⟨rfl, rfl, rfl, rfl, rfl, rfl, rfl, rfl, rfl, List.forall_mem_nil _⟩
  exact hall entry h

theorem readEscapeAfter_itself (hletter : isEscapeLetter ch = false)
    (hbreak : isLineBreak ch = false) :
    readEscapeAfter false start ch c = ⟨String.singleton ch, c, []⟩ := by
  have hnone : letterEscape? ch = none := by
    unfold letterEscape?
    split <;> first | rfl | exact absurd hletter (by decide)
  unfold readEscapeAfter
  split
  · exact absurd hletter (by decide)
  · exact absurd hletter (by decide)
  · exact absurd hletter (by decide)
  · exact absurd hbreak (by decide)
  · rw [hbreak, hnone]
    rfl

theorem readEscapeAfter_hex {upper : Nat → Bool} (hch : ch.toNat ≤ 0xFF) (hc : c.inside = 0)
    (h : c.rest = hexRow upper 2 ch.toNat ++ after) :
    ∃ stop, readEscapeAfter false start 'x' c = ⟨String.singleton ch, stop, []⟩ ∧
      c.Passes (hexRow upper 2 ch.toNat) stop := by
  obtain ⟨stop, hread, hpart⟩ := readHexRow_hexRow (by decide) (by omega) hc h
  refine ⟨stop, ?_, hpart⟩
  simp only [readEscapeAfter, readHexEscape, hread, charOfCode_toNat]

/-- Four digits behind the letter are a unit, which may go on in a second escape. -/
theorem readEscapeAfter_unit {upper : Nat → Bool} {unit : Nat} (hunit : unit < 16 ^ 4)
    (hc : c.inside = 0) (h : c.rest = hexRow upper 4 unit ++ after) :
    ∃ stop, readEscapeAfter false start 'u' c = readPair unit stop ∧
      c.Passes (hexRow upper 4 unit) stop := by
  obtain ⟨stop, hread, hpart⟩ := readHexRow_hexRow (by decide) hunit hc h
  -- A digit follows the letter, so this is no braced escape.
  have hbrace : c.char? ≠ some '\x7b' := by
    intro hbrace
    obtain ⟨-, rest, hrest⟩ := Cursor.char?_eq_some_iff.mp hbrace
    have hne : hexRow upper 4 unit ≠ [] := by
      intro hnil
      have hlength := length_hexRow upper (by decide) hunit
      rw [hnil] at hlength
      cases hlength
    obtain ⟨first, row, hrow⟩ := List.exists_cons_of_ne_nil hne
    have hdigit : (Radix.hexadecimal.digit? first).isSome = true :=
      isSome_of_mem_hexRow (hrow ▸ List.mem_cons_self)
    rw [h, hrow, List.cons_append, List.cons.injEq] at hrest
    rw [hrest.1] at hdigit
    exact absurd hdigit (by decide)
  refine ⟨stop, ?_, hpart⟩
  simp only [readEscapeAfter, if_neg hbrace, readHexEscape, hread]

theorem readEscapeAfter_pair {upper upper' : Nat → Bool} (hch : 0xFFFF < ch.toNat)
    (hc : c.inside = 0) (h : c.rest = hexRow upper 4 (highUnit ch.toNat) ++
      '\\' :: 'u' :: hexRow upper' 4 (lowUnit ch.toNat) ++ after) :
    ∃ stop, readEscapeAfter false start 'u' c = ⟨String.singleton ch, stop, []⟩ ∧
      c.Passes (hexRow upper 4 (highUnit ch.toNat) ++
        '\\' :: 'u' :: hexRow upper' 4 (lowUnit ch.toNat)) stop := by
  obtain ⟨hhigh, hlow, hcode⟩ := surrogates_of_toNat hch
  have hhighFits : highUnit ch.toNat < 16 ^ 4 := by
    have hbounds := isHighSurrogate_iff.mp hhigh
    omega
  have hlowFits : lowUnit ch.toNat < 16 ^ 4 := by
    have hbounds := isLowSurrogate_iff.mp hlow
    omega
  rw [List.append_assoc] at h
  obtain ⟨middle, hread, hpart⟩ := readEscapeAfter_unit start hhighFits hc h
  have hrest := hpart.rest_eq_of_append h
  have hsecond := Cursor.passes_advance _ hpart.inside_eq' hrest
  have hsix : byteSize ('\\' :: 'u' :: hexRow upper' 4 (lowUnit ch.toNat)) = 6 := by
    rw [byteSize_cons, byteSize_cons, byteSize_of_digits fun _ => isSome_of_mem_hexRow,
      length_hexRow upper' (by decide) hlowFits]
    rfl
  rw [hsix] at hsecond
  refine ⟨middle.advance 6, ?_, hpart.trans hsecond⟩
  rw [hread, readPair_of_low hhigh (lowSurrogate?_of_hexRow hlow hpart.inside_eq' hrest), hcode,
    charOfCode_toNat]

theorem readEscapeAfter_braced {zeros : Nat} {upper : Nat → Bool} (hc : c.inside = 0)
    (h : c.rest = '\x7b' :: (write upper (fun _ => false) 0
      (zerosAndDigits .hexadecimal zeros ch.toNat) ++ ['\x7d']) ++ after) :
    ∃ stop, readEscapeAfter false start 'u' c = ⟨String.singleton ch, stop, []⟩ ∧
      c.Passes ('\x7b' :: (write upper (fun _ => false) 0
        (zerosAndDigits .hexadecimal zeros ch.toNat) ++ ['\x7d'])) stop := by
  have hdigits : ∀ ch' ∈ zerosAndDigits .hexadecimal zeros ch.toNat, IsDigit .hexadecimal ch' :=
    fun _ => isDigit_of_mem_zerosAndDigits
  have hrun := isGrouped_write upper (fun _ => false) 0
    (zerosAndDigits_ne_nil .hexadecimal zeros ch.toNat) hdigits
  have hvalue := (value_write upper (fun _ => false) 0 hdigits).trans
    (value_zerosAndDigits .hexadecimal zeros ch.toNat)
  generalize write upper (fun _ => false) 0 (zerosAndDigits .hexadecimal zeros ch.toNat) = run
    at h hrun hvalue ⊢
  have hsmall : ch.toNat ≤ 0x10FFFF := by
    have hbounds := toNat_bounds ch
    omega
  have hopen : c.char? = some '\x7b' := Cursor.char?_eq_some_iff.mpr ⟨hc, _, h⟩
  have hbrace := Cursor.passes_advance_one hopen rfl
  have hinner : (c.advance 1).rest = run ++ '\x7d' :: after :=
    hbrace.rest_eq_of_append (by simpa using h)
  obtain ⟨stop, hread, hpart⟩ := readDigits_of_isGrouped start hbrace.inside_eq' hinner hrun
    (fun hradix => by cases hradix) (by rintro _ ⟨⟩; decide)
    (by rw [hvalue]; exact Nat.lt_of_le_of_lt hsmall (by decide))
  have hclose : stop.char? = some '\x7d' :=
    Cursor.char?_eq_some_iff.mpr ⟨hpart.inside_eq', after, hpart.rest_eq_of_append hinner⟩
  have hend := Cursor.passes_advance_one hclose rfl
  have hcode : (UInt64.ofNat ch.toNat).toNat = ch.toNat :=
    UInt64.toNat_ofNat_of_lt (Nat.lt_of_le_of_lt hsmall (by decide))
  have hvalid : decide ((0x10FFFF : UInt64) < .ofNat ch.toNat) = false := by
    refine decide_eq_false fun hlt => ?_
    rw [UInt64.lt_iff_toNat_lt, hcode] at hlt
    exact absurd hlt (Nat.not_lt_of_le hsmall)
  have hfaults : bracedFaults (c.advance 1) ⟨⟨.ofNat ch.toNat, false⟩, stop, []⟩ = [] := by
    simp only [bracedFaults, hvalid, hclose, atEnd_of_char? hclose, Bool.or_false,
      Bool.false_eq_true, if_false, if_true, List.append_nil]
  refine ⟨stop.advance 1, ?_, hbrace.trans (hpart.trans hend)⟩
  rw [hvalue] at hread
  simp only [readEscapeAfter, hopen, if_true, readBracedEscape, hread, hfaults, afterBrace, hclose,
    hcode, charOfCode_toNat]

theorem readEscapeAfter_lineEnd {first : Char} {more : List Char} (hc : c.inside = 0)
    (hline : first :: more ∈ lineEnds) (h : c.rest = more ++ after)
    (hafter : after.head? ≠ some '\n') :
    ∃ stop, readEscapeAfter false start first c = ⟨"", stop, []⟩ ∧ c.Passes more stop := by
  have hnext : more = [] → c.char? ≠ some '\n' := by
    rintro rfl hfeed
    obtain ⟨-, rest, hrest⟩ := Cursor.char?_eq_some_iff.mp hfeed
    rw [List.nil_append] at h
    exact hafter (by rw [← h, hrest]; rfl)
  simp only [lineEnds, List.mem_cons, List.cons.injEq, List.not_mem_nil, or_false] at hline
  rcases hline with ⟨rfl, rfl⟩ | ⟨rfl, rfl⟩ | ⟨rfl, rfl⟩ | ⟨rfl, rfl⟩ | ⟨rfl, rfl⟩
  · exact ⟨c, rfl, .refl hc⟩
  · exact ⟨c, by simp only [readEscapeAfter, if_neg (hnext rfl)], .refl hc⟩
  · have hfeed : c.char? = some '\n' := Cursor.char?_eq_some_iff.mpr ⟨hc, _, h⟩
    exact ⟨c.advance 1, by simp only [readEscapeAfter, if_pos hfeed],
      Cursor.passes_advance_one hfeed rfl⟩
  · exact ⟨c, rfl, .refl hc⟩
  · exact ⟨c, rfl, .refl hc⟩

end Reading

theorem readEscape_of_readEscapeAfter {letter : Char} {more meant : List Char} (hc : c.inside = 0)
    (h : c.rest = '\\' :: letter :: more ++ after)
    (hread : ∀ d : Cursor, d.inside = 0 → d.rest = more ++ after →
      ∃ stop, readEscapeAfter false c letter d = ⟨String.ofList meant, stop, []⟩ ∧
        d.Passes more stop) :
    ∃ stop, readEscape false c = ⟨String.ofList meant, stop, []⟩ ∧
      c.Passes ('\\' :: letter :: more) stop := by
  obtain ⟨d, heq, hpart⟩ := readEscape_of_rest false hc h
  obtain ⟨stop, hstop, hmore⟩ := hread d hpart.inside_eq' (hpart.rest_eq_of_append h)
  exact ⟨stop, heq.trans hstop, hpart.trans hmore⟩

/-- An escape is read as what it means, and no further than it goes. A line end that is only a
carriage return must not be followed by a line feed. -/
theorem readEscape_text (e : Escape) (hc : c.inside = 0) (h : c.rest = e.text ++ after)
    (hafter : after.head? ≠ some '\n') :
    ∃ stop, readEscape false c = ⟨String.ofList e.meant, stop, []⟩ ∧ c.Passes e.text stop := by
  cases e with
  | letter entry hentry =>
    exact readEscape_of_readEscapeAfter hc h fun d hd _ =>
      ⟨d, readEscapeAfter_letter c hentry, .refl hd⟩
  | itself ch hch =>
    exact readEscape_of_readEscapeAfter hc h fun d hd _ =>
      ⟨d, readEscapeAfter_itself c hch.1 hch.2, .refl hd⟩
  | hex ch upper hch =>
    exact readEscape_of_readEscapeAfter hc h fun _ => readEscapeAfter_hex c hch
  | unit ch upper hch =>
    refine readEscape_of_readEscapeAfter hc h fun d hd hrest => ?_
    obtain ⟨stop, hread, hpart⟩ := readEscapeAfter_unit c (Nat.lt_succ_of_le hch) hd hrest
    exact ⟨stop, hread.trans (readPair_toNat ch stop), hpart⟩
  | pair ch upper upper' hch =>
    exact readEscape_of_readEscapeAfter hc h fun _ => readEscapeAfter_pair c hch
  | braced ch zeros upper =>
    exact readEscape_of_readEscapeAfter hc h fun _ => readEscapeAfter_braced c
  | continuation lineEnd hline =>
    have hne : lineEnd ≠ [] := by
      rintro rfl
      exact absurd hline (by decide)
    obtain ⟨first, more, rfl⟩ := List.exists_cons_of_ne_nil hne
    exact readEscape_of_readEscapeAfter hc h fun _ hd hrest =>
      readEscapeAfter_lineEnd c hd hline hrest hafter

end TypedScript.Lexer
