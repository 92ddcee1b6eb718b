import TypedScript.Proofs.Lexer.Segment
import TypedScript.Proofs.Lexer.StringLiteral

/-! # Where quoted literals end

A backslash escapes the character behind it, and the body of a quoted literal goes up to the
first quote, line break or opening of an interpolation that is not escaped. This is where a
tagged template is read to. Otherwise an escape that lacks a hexadecimal digit takes in what
stands in place of the digit, so that it may take in the closing quote.
-/

namespace TypedScript.Lexer

open Text Numeral

inductive Delimiter where
  | string (q : Quote)
  | template

/-- The body of a quoted literal, and what ends it. -/
structure Extent where
  body : List Char
  ending : BodyEnd
deriving DecidableEq

def Extent.prepend (part : List Char) (e : Extent) : Extent :=
  ⟨part ++ e.body, e.ending⟩

def alsoEscaped (ch : Char) (rest : List Char) : Nat :=
  if ch = '\r' ∧ rest.head? = some '\n' then 1 else 0

def hexWidth : Nat → List Char → Nat
  | 0, _ => 0
  | _, [] => 0
  | n + 1, ch :: rest => if (hexValue? ch).isSome then hexWidth n rest + 1 else 1

def alsoTaken (tagged : Bool) (ch : Char) (rest : List Char) : Nat :=
  match tagged, ch with
  | false, 'x' => hexWidth 2 rest
  | false, 'u' => if rest.head? = some '\x7b' then 0 else hexWidth 4 rest
  | _, _ => alsoEscaped ch rest

def badDigit? : Nat → List Char → Option Char
  | 0, _ => none
  | _, [] => none
  | n + 1, ch :: rest => if (hexValue? ch).isSome then badDigit? n rest else some ch

/-- The character in place of a missing digit of the escape whose backslash the text follows. -/
def misfit? : List Char → Option Char
  | 'x' :: rest => badDigit? 2 rest
  | 'u' :: rest => if rest.head? = some '\x7b' then none else badDigit? 4 rest
  | _ => none

def escapeWidth (also : Char → List Char → Nat) : List Char → Nat
  | [] => 0
  | ch :: rest => also ch rest + 1

namespace Delimiter

def char : Delimiter → Char
  | string q => q.char
  | template => '\x60'

def byte : Delimiter → UInt8
  | string q => q.byte
  | template => backtick

def endAt? (d : Delimiter) (ch : Char) (rest : List Char) : Option BodyEnd :=
  match d with
  | string q =>
    if ch = q.char then some .quote else if isLineBreak ch then some .lineBreak else none
  | template =>
    if ch = '\x60' then some .quote
    else if ['$', '\x7b'].isPrefixOf (ch :: rest) then some .interpolation else none

/-- The extent of a body of which `n` characters are still escaped. The first character behind
a backslash is escaped, and `also` says how many more of them are. -/
def extent (d : Delimiter) (also : Char → List Char → Nat) : Nat → List Char → Extent
  | _, [] => ⟨[], .endOfText⟩
  | n + 1, ch :: rest => (d.extent also n rest).prepend [ch]
  | 0, ch :: rest =>
    match d.endAt? ch rest with
    | some ending => ⟨[], ending⟩
    | none => (d.extent also (if ch = '\\' then escapeWidth also rest else 0) rest).prepend [ch]

def misfits (d : Delimiter) : Nat → List Char → List Char
  | _, [] => []
  | n + 1, _ :: rest => d.misfits n rest
  | 0, ch :: rest =>
    match d.endAt? ch rest with
    | some _ => []
    | none =>
      if ch = '\\' then (misfit? rest).toList ++ d.misfits (escapeWidth alsoEscaped rest) rest
      else d.misfits 0 rest

def closing (d : Delimiter) : BodyEnd → List Char
  | .quote => [d.char]
  | .interpolation => ['$', '\x7b']
  | .lineBreak | .endOfText => []

end Delimiter

variable {d : Delimiter} {also : Char → List Char → Nat} {tagged : Bool} {n m k : Nat}
  {c c' c'' : Cursor} {ch : Char} {row rest : List Char} {ending : BodyEnd}

def marks : List Char :=
  ['\x27', '\x22', '\x60', '$', '\\', '\n', '\r', '\u2028', '\u2029']

theorem mem_marks_of_isLineBreak (h : isLineBreak ch = true) : ch ∈ marks := by
  simp only [isLineBreak, Bool.or_eq_true, beq_iff_eq] at h
  rcases h with ((rfl | rfl) | rfl) | rfl <;> decide

theorem not_mem_marks {p : Char → Bool} (h : p ch = true) (hmarks : marks.any p = false) :
    ch ∉ marks := fun hmem =>
  List.any_eq_false.mp hmarks ch hmem h

theorem not_mem_marks_of_hexValue? (h : (hexValue? ch).isSome = true) : ch ∉ marks := by
  have hmarks : marks.any (fun mark => (hexValue? mark).isSome) = false := by decide
  exact not_mem_marks h hmarks

namespace Delimiter

theorem endAt?_of_not_mem (d : Delimiter) (h : ch ∉ marks) : d.endAt? ch rest = none := by
  have hne : ∀ mark ∈ marks, ch ≠ mark := fun mark hmark heq => h (heq ▸ hmark)
  cases d with
  | string q =>
    have hquote : ch ≠ q.char := hne _ (by cases q <;> decide)
    have hbreak : ¬ isLineBreak ch = true := fun hbreak => h (mem_marks_of_isLineBreak hbreak)
    rw [endAt?, if_neg hquote, if_neg hbreak]
  | template =>
    have hopen : ¬ ['$', '\x7b'].isPrefixOf (ch :: rest) = true := fun hprefix =>
      hne '$' (by decide) (List.cons_prefix_cons.mp (List.isPrefixOf_iff_prefix.mp hprefix)).1.symm
    rw [endAt?, if_neg (hne _ (by decide)), if_neg hopen]

theorem extent_nil : d.extent also n [] = ⟨[], .endOfText⟩ := by
  cases n <;> rfl

theorem extent_escaped : d.extent also (n + 1) (ch :: rest) =
    (d.extent also n rest).prepend [ch] :=
  rfl

theorem endAt?_backslash (d : Delimiter) (rest : List Char) : d.endAt? '\\' rest = none := by
  cases d with
  | string q => cases q <;> rfl
  | template => rfl

theorem extent_of_end (h : d.endAt? ch rest = some ending) :
    d.extent also 0 (ch :: rest) = ⟨[], ending⟩ := by
  simp only [extent, h]

theorem extent_backslash : d.extent also 0 ('\\' :: rest) =
    (d.extent also (escapeWidth also rest) rest).prepend ['\\'] := by
  simp only [extent, d.endAt?_backslash, if_true]

theorem extent_plain (hslash : ch ≠ '\\') (h : d.endAt? ch rest = none) :
    d.extent also n (ch :: rest) = (d.extent also (n - 1) rest).prepend [ch] := by
  cases n with
  | zero => simp only [extent, h, if_neg hslash]
  | succ n => rfl

theorem extent_of_not_mem (h : ch ∉ marks) :
    d.extent also n (ch :: rest) = (d.extent also (n - 1) rest).prepend [ch] :=
  extent_plain (fun heq => h (by rw [heq]; decide)) (d.endAt?_of_not_mem h)

end Delimiter

theorem Extent.prepend_append (part more : List Char) (e : Extent) :
    e.prepend (part ++ more) = (e.prepend more).prepend part := by
  simp [prepend]

/-- A passage in a body, `n` characters being escaped in front of it and `m` behind it. -/
def Delimiter.Runs (d : Delimiter) (also : Char → List Char → Nat) (n : Nat) (c : Cursor)
    (m : Nat) (c' : Cursor) : Prop :=
  ∃ part, c.Passes part c' ∧ d.extent also n c.rest = (d.extent also m c'.rest).prepend part

namespace Delimiter.Runs

theorem refl (h : c.inside = 0) : d.Runs also n c n c :=
  ⟨[], .refl h, rfl⟩

theorem trans (h : d.Runs also n c m c') (h' : d.Runs also m c' k c'') : d.Runs also n c k c'' := by
  obtain ⟨part, hpart, hextent⟩ := h
  obtain ⟨more, hmore, hextent'⟩ := h'
  refine ⟨part ++ more, hpart.trans hmore, ?_⟩
  rw [hextent, hextent', Extent.prepend_append]

theorem inside_eq (h : d.Runs also n c m c') : c'.inside = 0 :=
  h.elim fun _ hpart => hpart.1.inside_eq'

theorem atEnd (hc : c.inside = 0) (h : c.rest = []) : d.Runs also n c m c := by
  refine ⟨[], .refl hc, ?_⟩
  rw [h, extent_nil, extent_nil]
  rfl

theorem escaped (h : c.Passes [ch] c') : d.Runs also (n + 1) c n c' := by
  refine ⟨_, h, ?_⟩
  rw [h.rest_eq]
  rfl

theorem backslash (h : c.Passes ['\\'] c') :
    d.Runs also 0 c (escapeWidth also c'.rest) c' := by
  refine ⟨_, h, ?_⟩
  rw [h.rest_eq]
  exact extent_backslash

theorem plain (h : c.Passes [ch] c') (hplain : ch ∉ marks) : d.Runs also n c (n - 1) c' := by
  refine ⟨_, h, ?_⟩
  rw [h.rest_eq]
  exact extent_of_not_mem hplain

theorem plainRow (h : c.Passes row c') (hplain : ∀ ch ∈ row, ch ∉ marks) :
    d.Runs also 0 c 0 c' := by
  refine ⟨row, h, ?_⟩
  rw [h.rest_eq]
  clear h
  induction row with
  | nil => rfl
  | cons ch row ih =>
    obtain ⟨hch, hrow⟩ := List.forall_mem_cons.mp hplain
    rw [List.cons_append, extent_of_not_mem hch, ih hrow]
    rfl

end Delimiter.Runs

def HexRow.after (tagged : Bool) : HexRow → Cursor
  | .complete _ stop => stop
  | .badDigit place => if tagged then place else place.skipChar
  | .cutOff place => place

theorem runs_readHexRow (value : Nat) (hc : c.inside = 0) :
    d.Runs also (if tagged then 0 else hexWidth n c.rest) c 0
      ((readHexRow n value c).after tagged) := by
  -- In a tagged template the digits are plain characters, elsewhere they are escaped.
  induction n generalizing value c with
  | zero => cases tagged <;> exact .refl hc
  | succ n ih =>
    cases hch : c.char? with
    | none =>
      simp only [readHexRow, hch]
      exact .atEnd hc ((Cursor.char?_eq_none_iff hc).mp hch)
    | some ch =>
      obtain ⟨-, rest, hrest⟩ := Cursor.char?_eq_some_iff.mp hch
      cases hvalue : hexValue? ch with
      | none =>
        have hwidth : hexWidth (n + 1) c.rest = 1 := by
          simp [hrest, hexWidth, hvalue]
        simp only [readHexRow, hch, hvalue]
        -- A tagged template is read on at the character, anything else behind it.
        cases tagged with
        | true => exact .refl hc
        | false =>
          rw [hwidth]
          exact .escaped (Cursor.passes_skipChar hch)
      | some digit =>
        have hstep := Cursor.passes_advance_one hch (utf8Size_of_hexValue? hvalue)
        have hplain : ch ∉ marks := not_mem_marks_of_hexValue? (by rw [hvalue]; rfl)
        have hwidth : hexWidth (n + 1) c.rest = hexWidth n (c.advance 1).rest + 1 := by
          rw [hstep.rest_eq]
          simp [hexWidth, hvalue]
        have hmore := ih (value * 16 + digit) hstep.inside_eq'
        simp only [readHexRow, hch, hvalue]
        refine Delimiter.Runs.trans ?_ hmore
        cases tagged with
        | true => exact .plain hstep hplain
        | false =>
          rw [hwidth]
          exact .escaped hstep

theorem runs_readHexEscape (start : Cursor) {continue_ : Nat → Cursor → Reading String}
    (hc : c.inside = 0)
    (h : ∀ value stop, stop.inside = 0 → d.Runs also 0 stop 0 (continue_ value stop).stop) :
    d.Runs also 0 ((readHexRow n 0 c).after tagged) 0
      (readHexEscape tagged start n c continue_).stop := by
  have hplace := (reaches_readHexRow n 0 hc).inside_eq
  unfold readHexEscape
  split <;> rename_i heq <;> rw [heq] at hplace ⊢
  · exact h _ _ hplace
  · cases tagged with
    | true => exact .refl hplace
    | false => exact .refl (Cursor.reaches_skipChar hplace).inside_eq
  · cases tagged <;> exact .refl hplace

theorem runs_readUnit (value : Nat) (hc : c.inside = 0) (hbrace : c.char? ≠ some '\x7b') :
    d.Runs also (alsoTaken tagged 'u' c.rest) c 0 ((readHexRow 4 value c).after tagged) := by
  have hhead : c.rest.head? ≠ some '\x7b' := by
    rwa [Cursor.char?, if_pos hc] at hbrace
  have halso : alsoTaken tagged 'u' c.rest = if tagged then 0 else hexWidth 4 c.rest := by
    cases tagged
    · exact if_neg hhead
    · rfl
  rw [halso]
  exact runs_readHexRow value hc

/-- A low surrogate is passed over as the escape that it is. -/
theorem runs_advance_six {low : Nat} (hc : c.inside = 0) (h : lowSurrogate? c = some low) :
    d.Runs (alsoTaken tagged) 0 c 0 (c.advance 6) := by
  unfold lowSurrogate? at h
  split at h
  · rename_i hprefix
    obtain ⟨rest, hrest⟩ := Cursor.isPrefixOf_chars hc hprefix
    have hletter := Cursor.passes_advance_two hc hrest rfl rfl
    have hslash := Cursor.passes_advance_one (Cursor.char?_eq_some_iff.mpr ⟨hc, _, hrest⟩) rfl
    have hnext : (c.advance 1).Passes ['u'] (c.advance 2) := hletter.of_append hslash
    split at h
    · rename_i unit stop hrow
      obtain ⟨part, hpart, hsize⟩ := passes_readHexRow hletter.inside_eq' hrow
      have hboth := hletter.trans hpart
      have hsix := Cursor.passes_advance _ hc hboth.rest_eq
      rw [byteSize_append, hsize] at hsix
      have hstop : stop = c.advance 6 := hboth.unique hsix
      have hbrace : (c.advance 2).char? ≠ some '\x7b' := by
        intro hbrace
        simp only [readHexRow, hbrace, show hexValue? '\x7b' = none by decide] at hrow
        cases hrow
      have hafter : (readHexRow 4 0 (c.advance 2)).after tagged = stop := by
        rw [hrow]
        rfl
      refine (Delimiter.Runs.backslash hslash).trans ?_
      rw [hnext.rest_eq]
      refine (Delimiter.Runs.escaped hnext).trans ?_
      rw [← hstop, ← hafter]
      exact runs_readUnit 0 hletter.inside_eq' hbrace
    · cases h
  · cases h

theorem runs_readPair (unit : Nat) (hc : c.inside = 0) :
    d.Runs (alsoTaken tagged) 0 c 0 (readPair unit c).stop := by
  unfold readPair
  split
  · rename_i low hlow
    split at hlow
    · exact runs_advance_six hc hlow
    · cases hlow
  · exact .refl hc

theorem runs_afterBrace (hc : c.inside = 0) : d.Runs also 0 c 0 (afterBrace c) := by
  unfold afterBrace
  split
  · exact .plain (Cursor.passes_advance_one ‹_› rfl) (by decide)
  · exact .refl hc

theorem runs_readBracedEscape (start : Cursor) (hc : c.inside = 0) :
    d.Runs also 0 c 0 (readBracedEscape tagged start c).stop := by
  have hdigits : d.Runs also 0 c 0 (readDigits .hexadecimal start c).stop :=
    .plainRow (Cursor.passes_skipChars hc _) fun ch hch =>
      not_mem_marks (List.all_eq_true.mp List.all_takeWhile ch hch) (by decide)
  have hstop := hdigits.trans (runs_afterBrace hdigits.inside_eq)
  unfold readBracedEscape
  simp only
  split
  · exact hstop
  · split <;> exact hstop

theorem alsoTaken_eq_zero (hhex : ch ≠ 'x' ∧ ch ≠ 'u') (hreturn : ch ≠ '\r') :
    alsoTaken tagged ch rest = 0 := by
  unfold alsoTaken
  split
  · exact absurd rfl hhex.1
  · exact absurd rfl hhex.2
  · exact if_neg fun h => hreturn h.1

theorem runs_readEscapeAfter (start : Cursor) (ch : Char) (hc : c.inside = 0) :
    d.Runs (alsoTaken tagged) (alsoTaken tagged ch c.rest) c 0
      (readEscapeAfter tagged start ch c).stop := by
  unfold readEscapeAfter
  split
  -- Behind a zero a decimal digit may be taken in, which is a plain character.
  · rw [alsoTaken_eq_zero (by decide) (by decide)]
    split
    · rename_i hdigit
      obtain ⟨digit, hch, hd⟩ := (Option.any_eq_true _ _).mp (Bool.and_eq_true _ _ ▸ hdigit).2
      exact .plain (Cursor.passes_advance_one hch (Cursor.utf8Size_eq_one_of_isDecimal hd))
        (not_mem_marks hd (by decide))
    · exact .refl hc
  · split
    · rename_i hbrace
      have hstep := Cursor.passes_advance_one hbrace rfl
      have halso : alsoTaken tagged 'u' c.rest = 0 := by
        rw [hstep.rest_eq]
        cases tagged <;> rfl
      rw [halso]
      exact (Delimiter.Runs.plain hstep (by decide)).trans
        (runs_readBracedEscape start hstep.inside_eq')
    · rename_i hbrace
      refine (runs_readUnit 0 hc hbrace).trans ?_
      exact runs_readHexEscape start hc fun _ _ => runs_readPair _
  · have halso : alsoTaken tagged 'x' c.rest = if tagged then 0 else hexWidth 2 c.rest := by
      cases tagged <;> rfl
    rw [halso]
    exact (runs_readHexRow 0 hc).trans (runs_readHexEscape start hc fun _ _ => .refl)
  · simp only
    split
    · rename_i hfeed
      have hstep := Cursor.passes_advance_one hfeed rfl
      have halso : alsoTaken tagged '\r' c.rest = 1 := by
        rw [hstep.rest_eq]
        cases tagged <;> rfl
      rw [halso]
      exact .escaped hstep
    · rename_i hfeed
      have halso : alsoTaken tagged '\r' c.rest = 0 := by
        rw [Cursor.char?, if_pos hc] at hfeed
        cases tagged <;> exact if_neg fun h => hfeed h.2
      rw [halso]
      exact .refl hc
  · rw [alsoTaken_eq_zero ⟨‹_›, ‹_›⟩ ‹_›]
    split <;> exact .refl hc

theorem runs_readEscape (h : c.char? = some '\\') :
    d.Runs (alsoTaken tagged) 0 c 0 (readEscape tagged c).stop := by
  have hslash := Cursor.passes_advance_one h rfl
  refine (Delimiter.Runs.backslash hslash).trans ?_
  unfold readEscape
  simp only
  split
  · rename_i hnone
    exact .atEnd hslash.inside_eq' ((Cursor.char?_eq_none_iff hslash.inside_eq').mp hnone)
  · rename_i ch hch
    have hnext := Cursor.passes_skipChar hch
    rw [hnext.rest_eq]
    exact (Delimiter.Runs.escaped hnext).trans (runs_readEscapeAfter c ch hnext.inside_eq')

theorem bodyEndAt?_of_rest_eq_nil {quote : UInt8} (h : c.rest = []) :
    bodyEndAt? quote c = some .endOfText :=
  if_pos (by simp [Cursor.atEnd, h])

theorem Delimiter.bodyEndAt?_eq (d : Delimiter) (hc : c.inside = 0) (h : c.rest = ch :: rest) :
    bodyEndAt? d.byte c = d.endAt? ch rest := by
  have hch : c.char? = some ch := Cursor.char?_eq_some_iff.mpr ⟨hc, _, h⟩
  by_cases hslash : ch = '\\'
  · rw [hslash, d.endAt?_backslash]
    cases d with
    | string q =>
      rw [byte, bodyEndAt?_of_quote hch, hslash]
      cases q <;> rfl
    | template =>
      rw [byte, bodyEndAt?_of_char? hch, hslash]
      rfl
  · cases d with
    | string q => rw [byte, bodyEndAt?_of_quote hch, if_neg hslash, endAt?]
    | template =>
      rw [byte, bodyEndAt?_of_char? hch, if_neg hslash, Cursor.chars, if_pos hc, h, endAt?]

theorem Delimiter.extent_of_bodyEndAt? (d : Delimiter) (hc : c.inside = 0)
    (h : bodyEndAt? d.byte c = some ending) : d.extent also 0 c.rest = ⟨[], ending⟩ := by
  cases hrest : c.rest with
  | nil =>
    rw [bodyEndAt?_of_rest_eq_nil hrest] at h
    rw [extent_nil, ← Option.some.inj h]
  | cons ch rest => exact extent_of_end ((d.bodyEndAt?_eq hc hrest).symm.trans h)

theorem runs_readBody (pieces : List (Reading String)) (run : Cursor) (hc : c.inside = 0) :
    d.Runs (alsoTaken tagged) 0 c 0 (readBody d.byte tagged pieces run c).stop := by
  fun_induction readBody d.byte tagged pieces run c with
  | case1 pieces run c ending h => exact .refl hc
  | case2 pieces run c h hslash escape hlt ih =>
    have hescape : d.Runs (alsoTaken tagged) 0 c 0 escape.stop := runs_readEscape hslash
    exact hescape.trans (ih hescape.inside_eq)
  | case3 pieces run c h hslash hlt ih =>
    cases hrest : c.rest with
    | nil =>
      rw [bodyEndAt?_of_rest_eq_nil hrest] at h
      cases h
    | cons ch rest =>
      have hch : c.char? = some ch := Cursor.char?_eq_some_iff.mpr ⟨hc, _, hrest⟩
      have hstep := Cursor.passes_skipChar hch
      refine Delimiter.Runs.trans ⟨_, hstep, ?_⟩ (ih hstep.inside_eq')
      rw [hrest, hstep.rest_eq_of_append hrest]
      have hend : d.endAt? ch rest = none := (d.bodyEndAt?_eq hc hrest).symm.trans h
      exact Delimiter.extent_plain (fun heq => hslash (heq ▸ hch)) hend

/-- The reader stops where the body ends, given what it takes as escaped. -/
theorem extent_readBody (pieces : List (Reading String)) (run : Cursor) (hc : c.inside = 0) :
    let body := readBody d.byte tagged pieces run c
    let e := d.extent (alsoTaken tagged) 0 c.rest
    c.Passes e.body body.stop ∧ body.ending = e.ending := by
  intro body e
  have hrun : d.Runs (alsoTaken tagged) 0 c 0 body.stop := runs_readBody pieces run hc
  obtain ⟨part, hpart, hextent⟩ := hrun
  have hend : d.extent (alsoTaken tagged) 0 body.stop.rest = ⟨[], body.ending⟩ :=
    d.extent_of_bodyEndAt? hpart.inside_eq' (bodyEndAt?_readBody d.byte tagged pieces run c)
  have he : e = ⟨part, body.ending⟩ := by
    simp only [e, hextent, hend, Extent.prepend, List.append_nil, body]
  rw [he]
  exact ⟨hpart, rfl⟩

def Delimiter.Plain (d : Delimiter) (ch : Char) : Prop :=
  ch ≠ '\\' ∧ ∀ rest, d.endAt? ch rest = none

theorem extent_hexWidth (h : ∀ ch ∈ badDigit? n rest, d.Plain ch) :
    d.extent also (hexWidth n rest) rest = d.extent also 0 rest := by
  induction n generalizing rest with
  | zero => rfl
  | succ n ih =>
    cases rest with
    | nil => rfl
    | cons ch rest =>
      by_cases hvalue : (hexValue? ch).isSome = true
      · have hplain : ch ∉ marks := not_mem_marks_of_hexValue? hvalue
        simp only [badDigit?, hexWidth, hvalue, if_true] at h ⊢
        rw [Delimiter.extent_escaped, ih h, Delimiter.extent_of_not_mem hplain]
      · simp only [badDigit?, hexWidth, hvalue, Bool.false_eq_true, if_false] at h ⊢
        obtain ⟨hslash, hend⟩ := h ch rfl
        rw [Delimiter.extent_escaped, Delimiter.extent_plain hslash (hend rest)]

/-- What an escape takes in besides what is escaped makes no difference if it means nothing. -/
theorem extent_escapeWidth_alsoTaken (h : ∀ ch ∈ misfit? rest, d.Plain ch) :
    d.extent also (escapeWidth (alsoTaken tagged) rest) rest =
      d.extent also (escapeWidth alsoEscaped rest) rest := by
  cases rest with
  | nil => rfl
  | cons ch rest =>
    simp only [escapeWidth, Delimiter.extent_escaped]
    refine congrArg (Extent.prepend [ch]) ?_
    unfold alsoTaken
    split
    · exact extent_hexWidth h
    · by_cases hbrace : rest.head? = some '\x7b'
      · rw [if_pos hbrace]
        rfl
      · rw [if_neg hbrace]
        simp only [misfit?, hbrace, if_false] at h
        exact extent_hexWidth h
    · rfl

/-- The body ends where the quoting alone says if nothing that stands in place of a missing
digit means anything. -/
theorem extent_alsoTaken (h : ∀ ch ∈ d.misfits n rest, d.Plain ch) :
    d.extent (alsoTaken tagged) n rest = d.extent alsoEscaped n rest := by
  induction rest generalizing n with
  | nil => rw [Delimiter.extent_nil, Delimiter.extent_nil]
  | cons ch rest ih =>
    cases n with
    | succ n => exact congrArg (Extent.prepend [ch]) (ih h)
    -- Only behind a backslash do the two ways of counting differ.
    | zero =>
      cases hend : d.endAt? ch rest with
      | some ending => rw [Delimiter.extent_of_end hend, Delimiter.extent_of_end hend]
      | none =>
        simp only [Delimiter.misfits, hend] at h
        simp only [Delimiter.extent, hend]
        refine congrArg (Extent.prepend [ch]) ?_
        by_cases hslash : ch = '\\'
        · rw [if_pos hslash] at h
          obtain ⟨hmisfit, hmore⟩ := List.forall_mem_append.mp h
          rw [if_pos hslash, if_pos hslash, ← ih hmore]
          exact extent_escapeWidth_alsoTaken fun ch hch => hmisfit ch (Option.mem_toList.mpr hch)
        · rw [if_neg hslash] at h
          rw [if_neg hslash, if_neg hslash]
          exact ih h

namespace Delimiter

theorem utf8Size_char (d : Delimiter) : d.char.utf8Size = 1 := by
  cases d with
  | string q => cases q <;> rfl
  | template => rfl

theorem byte_eq_of_char? (h : c.char? = some d.char) : c.byte = d.byte := by
  cases d with
  | string q => exact (byte_eq_quote_iff h).mpr rfl
  | template => exact (byte_eq_backtick_iff h).mpr rfl

theorem passes_closing_of_endAt? (d : Delimiter) {pieces : List (Reading String)}
    (hc : c.inside = 0) (hrest : c.rest = ch :: rest) (h : d.endAt? ch rest = some ending) :
    c.Passes (d.closing ending) (Body.after ⟨pieces, c, ending⟩) := by
  have hch : c.char? = some ch := Cursor.char?_eq_some_iff.mpr ⟨hc, _, hrest⟩
  cases d with
  | string q =>
    rw [endAt?] at h
    split at h
    · rename_i hquote
      subst hquote
      obtain rfl := Option.some.inj h
      exact Cursor.passes_advance_one hch (utf8Size_char (.string q))
    · split at h
      · obtain rfl := Option.some.inj h
        exact .refl hc
      · cases h
  | template =>
    rw [endAt?] at h
    split at h
    · rename_i hquote
      subst hquote
      obtain rfl := Option.some.inj h
      exact Cursor.passes_advance_one hch rfl
    · split at h
      · rename_i hopen
        obtain rfl := Option.some.inj h
        obtain ⟨after, hafter⟩ := List.isPrefixOf_iff_prefix.mp hopen
        exact Cursor.passes_advance_two hc (hrest.trans hafter.symm) rfl rfl
      · cases h

theorem passes_closing (d : Delimiter) {b : Body} (hb : b.stop.inside = 0)
    (h : bodyEndAt? d.byte b.stop = some b.ending) :
    b.stop.Passes (d.closing b.ending) b.after := by
  obtain ⟨pieces, c, ending⟩ := b
  cases hrest : c.rest with
  | nil =>
    rw [bodyEndAt?_of_rest_eq_nil hrest] at h
    obtain rfl := Option.some.inj h
    exact .refl hb
  | cons ch rest =>
    have hend : d.endAt? ch rest = some ending := (d.bodyEndAt?_eq hb hrest).symm.trans h
    exact d.passes_closing_of_endAt? hb hrest hend

end Delimiter

theorem Delimiter.quote_of_passes (d : Delimiter) (started : Bool)
    (h : c.Passes (if started then [] else [d.char]) c') :
    let quote? := if started then some d.byte else none
    quote?.getD c.byte = d.byte ∧ (if quote?.isNone then c.advance 1 else c) = c' := by
  cases started with
  | true => exact ⟨rfl, h.eq_of_nil.symm⟩
  | false =>
    have hch : c.char? = some d.char := Cursor.char?_eq_some_iff.mpr ⟨h.inside_eq, _, h.rest_eq⟩
    exact ⟨d.byte_eq_of_char? hch, (Cursor.passes_advance_one hch d.utf8Size_char).unique h⟩

/-- A literal that is not closed is reported together with the quote in front of its body. -/
def Extent.openReports (e : Extent) (start : Nat) : List Report :=
  match e.ending with
  | .quote | .interpolation => []
  | .lineBreak | .endOfText => [⟨.unterminatedString, start - 1, start + byteSize e.body, []⟩]

/-- Each quoted literal is read up to the end of its body, given what the reader takes as
escaped, and over what ends the body. Besides faults of escapes only a body that neither a
quote nor an interpolation ends is reported. In a tagged template the body ends where the
quoting alone says, and elsewhere if nothing that stands in place of a missing digit means
anything. -/
theorem takeString_extent (d : Delimiter) (started tagged : Bool) {l : Lexer} {start : Cursor}
    (hstart : l.cursor.Passes (if started then [] else [d.char]) start) :
    let last := (l.takeString (if started then some d.byte else none) tagged).2
    let e := d.extent (alsoTaken tagged) 0 start.rest
    (last.bodyStart = start ∧ last.bodyStop = start.pos + byteSize e.body ∧
      start.Passes (e.body ++ d.closing e.ending) last.cursor ∧
      last.inTemplate = decide (e.ending = .interpolation)) ∧
    (∃ faults : List Report, (∀ x ∈ faults, x.code.isOfEscape = true) ∧
      last.log = l.log.pushAll ((faults ++ e.openReports start.pos).map (·.message l.source))) ∧
    (tagged = true ∨ (∀ ch ∈ d.misfits 0 start.rest, d.Plain ch) →
      e = d.extent alsoEscaped 0 start.rest) := by
  intro last e
  obtain ⟨hquote, hbody⟩ := d.quote_of_passes started hstart
  have hstart' := hstart.inside_eq'
  let body := readBody d.byte tagged [] start start
  have hextent : start.Passes e.body body.stop ∧ body.ending = e.ending :=
    extent_readBody [] start hstart'
  obtain ⟨hpart, hending⟩ := hextent
  have hread : readQuoted (if started then some d.byte else none) tagged l.cursor =
      ⟨⟨body.text, start, body.stop.pos, body.ending⟩, body.after,
        body.reports ++ body.openReports start.pos⟩ := by
    simp only [readQuoted, hquote, hbody, body]
  have hopen : body.openReports start.pos = e.openReports start.pos := by
    cases he : e.ending <;>
      simp only [Body.openReports, Extent.openReports, hending, he, hpart.pos_eq]
  have hclosing := d.passes_closing hpart.inside_eq'
    (bodyEndAt?_readBody d.byte tagged [] start start)
  refine ⟨⟨?_, ?_, ?_, ?_⟩, ⟨body.reports, ?_, ?_⟩, ?_⟩
  · exact congrArg (·.value.start) hread
  · exact (congrArg (·.value.stop) hread).trans hpart.pos_eq
  · have hcursor : last.cursor = body.after := congrArg (·.stop) hread
    rw [hcursor]
    exact hpart.trans (hending ▸ hclosing)
  · have htemplate := congrArg (fun r => decide (r.value.ending = .interpolation)) hread
    exact htemplate.trans (congrArg (fun ending => decide (ending = .interpolation)) hending)
  · exact isOfEscape_of_mem_readBody d.byte tagged [] start start (List.forall_mem_nil _)
  · rw [← hopen]
    have hlog := congrArg (fun r => l.log.pushAll (r.reports.map (·.message l.source))) hread
    exact (l.log_take _).trans hlog
  · rintro (rfl | h)
    · rfl
    · exact extent_alsoTaken h

theorem takeString_extent_misfit :
    let l := Lexer.new 0 "\x60\\xZ\\\x60é$\x7bb" .empty
    let start : Cursor := ⟨1, "\\xZ\\\x60é$\x7bb".toList, 0⟩
    let last := (l.takeString none false).2
    l.cursor.Passes ['\x60'] start ∧ Delimiter.template.misfits 0 start.rest = ['Z'] ∧
      Delimiter.template.extent alsoEscaped 0 start.rest =
        ⟨"\\xZ\\\x60é".toList, .interpolation⟩ ∧
      last.bodyStop = 8 ∧ last.inTemplate = true ∧
      start.Passes "\\xZ\\\x60é$\x7b".toList last.cursor := by
  intro l start last
  have hstart : l.cursor.Passes ['\x60'] start :=
    ⟨by decide +kernel, rfl, by decide +kernel, by decide +kernel⟩
  have hmisfits : Delimiter.template.misfits 0 start.rest = ['Z'] := by decide
  have hquoting : Delimiter.template.extent alsoEscaped 0 start.rest =
      ⟨"\\xZ\\\x60é".toList, .interpolation⟩ := by
    decide
  obtain ⟨⟨-, hstop, hpart, htemplate⟩, -, hsame⟩ :=
    takeString_extent .template false false hstart
  have he := hsame <| .inr fun ch hch => by
    rw [hmisfits] at hch
    obtain rfl := List.mem_singleton.mp hch
    exact ⟨by decide, fun rest => Delimiter.endAt?_of_not_mem _ (by decide)⟩
  rw [he, hquoting] at hstop hpart htemplate
  exact ⟨hstart, hmisfits, hquoting, hstop, htemplate, hpart⟩

/-- A quote in place of a missing digit does not close its literal. -/
theorem quote_taken_in :
    let l := Lexer.new 0 "\x22\\x\x22;" .empty
    let last := (l.takeString none false).2
    (Delimiter.string .double).extent alsoEscaped 0 "\\x\x22;".toList = ⟨"\\x".toList, .quote⟩ ∧
      (l.takeString none true).2.bodyStop = 3 ∧ (l.takeString none true).2.pos = 4 ∧
      last.bodyStop = 5 ∧ last.pos = 5 ∧
      last.log.messages.toList.map (·.code) = [.hexDigitExpected, .unterminatedString] := by
  decide +kernel

end TypedScript.Lexer
