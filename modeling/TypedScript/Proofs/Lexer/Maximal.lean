import TypedScript.Proofs.Lexer.Place
import TypedScript.Proofs.Lexer.Spelling

/-! # Marks are as long as they can be

Punctuators and operators are marks. Where a punctuator begins, and neither a comment nor
a float, the scan finds the longest mark that the text goes on with and that the limit
allows. It stops right behind the text of that mark, as it does behind the text of a
keyword.
-/

namespace TypedScript

def Token.isMark : Token → Bool
  | .punctuator _ => true
  | token => token.operatorText?.isSome

def Token.isSpelled : Token → Bool
  | .keyword _ | .punctuator _ => true
  | _ => false

structure Token.Fits (limit : Nat) (text : List Char) (token : Token) : Prop where
  isMark : token.isMark = true
  begins : token.text.toList <+: text
  length_le : token.text.toList.length ≤ limit

namespace Lexer

open Text

structure BeginsPlainly (text : List Char) : Prop where
  line : ¬ ['/', '/'] <+: text
  block : ¬ ['/', '*'] <+: text
  point : ∀ digit, isDecimal digit = true → ¬ ['.', digit] <+: text

variable {c : Cursor} {handling : WordHandling} {limit : Nat} {ch : Char} {token : Token}
  {stop : Cursor}

theorem fits_punctuator_iff {text : List Char} {mark : Punctuator} :
    (Token.punctuator mark).Fits limit text ↔ mark.Fits limit text :=
  ⟨fun h => ⟨h.begins, h.length_le⟩, fun h => ⟨rfl, h.begins, h.length_le⟩⟩

/-- Where a punctuator begins, no operator that is a word does, so marks that fit are
punctuators. -/
theorem exists_punctuator_of_fits {mark : Punctuator} {rest : List Char}
    (hhead : mark.text.toList.head? = some ch) (h : token.Fits limit (ch :: rest)) :
    ∃ other : Punctuator, token = .punctuator other ∧ other.Fits limit (ch :: rest) := by
  cases token with
  | punctuator other => exact ⟨other, rfl, fits_punctuator_iff.mp h⟩
  | keyword word =>
    obtain ⟨first, more, htext, hfirst, -⟩ := exists_of_isWord word.isWord_text
    have hbegins : word.text.toList <+: ch :: rest := h.begins
    rw [htext] at hbegins
    obtain ⟨rfl, -⟩ := List.cons_prefix_cons.mp hbegins
    rw [(head_punctuator hhead).1] at hfirst
    cases hfirst
  | _ => exact absurd h.isMark (by simp [Token.isMark, Token.operatorText?])

theorem isPointFloat_of_beginsPlainly (h : BeginsPlainly c.chars) : isPointFloat c = false := by
  unfold isPointFloat
  split
  · rename_i digit rest hchars
    refine Bool.eq_false_iff.mpr fun hdigit => h.point digit hdigit ?_
    rw [hchars]
    exact ⟨rest, rfl⟩
  · rfl

theorem scan_of_head {mark : Punctuator} (hhead : mark.text.toList.head? = c.char?)
    (hplain : 1 < limit → BeginsPlainly c.chars) :
    let s := scan handling limit c
    s.start = c ∧ s.skipped = [] ∧ s.token.Fits (max limit 1) c.chars ∧
      ∀ other : Token, other.Fits (max limit 1) c.chars →
        other = s.token ∨ other.text.toList.length < s.token.text.toList.length := by
  intro s
  obtain ⟨ch, more, htext, -⟩ := mark.exists_text_eq_singleton
  have hhead' : mark.text.toList.head? = some ch := congrArg List.head? htext
  have hch : c.char? = some ch := hhead.symm.trans hhead'
  obtain ⟨hc, rest, hrest⟩ := Cursor.char?_eq_some_iff.mp hch
  have hchars : c.chars = ch :: rest := (if_pos hc).trans hrest
  obtain ⟨found, hfound⟩ : ∃ found,
      Punctuator.longest? (max limit 1) (ch :: rest) = some found := by
    refine Option.ne_none_iff_exists'.mp fun hnone => ?_
    exact (Punctuator.longest?_eq_none_iff (Nat.le_max_right _ _)).mp hnone mark hhead'
  obtain ⟨hfits, hmax⟩ := Punctuator.longest?_eq_some_iff.mp hfound
  have hpiece : pieceAt handling limit c =
      .token (.punctuator found) (c.advance found.text.utf8ByteSize) := by
    rw [pieceAt_of_head hch hhead', punctuatorAt_eq, hchars, hfound]
    intro hlimit
    have h := hplain hlimit
    refine ⟨isPointFloat_of_beginsPlainly h, ?_, ?_⟩
    · simpa [← List.isPrefixOf_iff_prefix] using h.line
    · simpa [← List.isPrefixOf_iff_prefix] using h.block
  have hscan : s = ⟨.punctuator found, c, c.advance found.text.utf8ByteSize, []⟩ :=
    scanFrom_of_token hpiece
  rw [hscan, hchars]
  refine ⟨rfl, rfl, fits_punctuator_iff.mpr hfits, fun other hother => ?_⟩
  obtain ⟨mark', rfl, hfits'⟩ := exists_punctuator_of_fits hhead' hother
  rcases Nat.lt_or_eq_of_le (hmax mark' hfits') with hlt | hlength
  · exact .inr hlt
  · exact .inl (congrArg Token.punctuator (hfits'.eq_of_length_eq hfits hlength))

theorem passes_of_wordAt (hch : c.char? = some ch) (h : wordAt handling c = .token token stop)
    (htoken : token.isSpelled = true) : c.Passes token.text.toList stop := by
  obtain ⟨⟨part, hpart⟩, -⟩ := reaches_skipWord hch
  -- A keyword is found by the text that is passed over.
  have hword : ∀ word, Keyword.ofText? (c.textTo c.skipChar.skipIdentifierRest.pos) = some word →
      c.Passes word.text.toList c.skipChar.skipIdentifierRest := by
    intro word hword
    rw [hpart.textTo_eq] at hword
    rwa [Keyword.text_of_ofText? hword, String.toList_ofList]
  unfold wordAt at h
  simp only at h
  split at h
  · cases h
    exact hword _ ‹_›
  · split at h
    · cases h
      cases htoken
    · cases h
      exact hword _ ‹_›
  · cases h
    cases htoken

theorem exists_char?_of_token (h : pieceAt handling limit c = .token token stop) :
    ∃ ch, c.char? = some ch := by
  cases hch : c.char? with
  | none => simp [pieceAt, hch] at h
  | some ch => exact ⟨ch, rfl⟩

theorem passes_of_pieceAt (h : pieceAt handling limit c = .token token stop)
    (htoken : token.isSpelled = true) : c.Passes token.text.toList stop := by
  obtain ⟨ch, hch⟩ := exists_char?_of_token h
  obtain ⟨hc, -⟩ := Cursor.char?_eq_some_iff.mp hch
  have harises := arises_pieceAt handling limit hch
  rw [h] at harises
  generalize hpiece : Piece.token token stop = piece at harises
  cases harises with
  | word => exact passes_of_wordAt hch hpiece.symm htoken
  | punctuator =>
    obtain ⟨mark, rfl, hpart⟩ := passes_of_punctuatorAt hc hpiece.symm
    exact hpart
  | number =>
    cases hpiece
    split at htoken <;> cases htoken
  | blockComment => exact absurd hpiece.symm ne_token_of_blockCommentAt
  | blank | lineComment => cases hpiece
  | string | template | point =>
    cases hpiece
    cases htoken

theorem piece_scanFrom (handling : WordHandling) (limit : Nat) (skipped : List Skipped)
    (c : Cursor) :
    let s := scanFrom handling limit skipped c
    s.start.atEnd = true ∧ s.token = .endOfText ∧ s.stop = s.start ∨
      pieceAt handling limit s.start = .token s.token s.stop := by
  fun_induction scanFrom handling limit skipped c with
  | case1 skipped c hend => exact .inl ⟨hend, rfl, rfl⟩
  | case2 skipped c hend token stop hpiece => exact .inr hpiece
  | case3 skipped c hend what next hpiece hlt ih => exact ih

theorem scanFrom_start (handling : WordHandling) (limit : Nat) (skipped : List Skipped)
    (c : Cursor) :
    let s := scanFrom handling limit skipped c
    scan handling limit s.start = { s with skipped := [] } := by
  fun_induction scanFrom handling limit skipped c with
  | case1 skipped c hend =>
    change scanFrom handling limit [] c = ⟨.endOfText, c, c, []⟩
    rw [scanFrom, dif_pos hend]
    rfl
  | case2 skipped c hend token stop hpiece => exact scanFrom_of_token hpiece
  | case3 skipped c hend what next hpiece hlt ih => exact ih

theorem inside_start {text : List Char} {whole : Prop} (h : c.Stands text whole)
    (handling : WordHandling) (limit : Nat) : (scan handling limit c).start.inside = 0 := by
  rcases piece_scanFrom handling limit [] c with ⟨hend, -, -⟩ | hpiece
  · obtain ⟨hstart, -, -⟩ := onward_scan handling limit h
    have hrest : (scan handling limit c).start.rest = [] := List.isEmpty_iff.mp hend
    simpa [hrest] using hstart.stands.inside_le
  · obtain ⟨ch, hch⟩ := exists_char?_of_token hpiece
    exact (Cursor.char?_eq_some_iff.mp hch).1

theorem slice?_of_passes {text part : List Char} {whole : Prop} (h : c.Stands text whole)
    (hpart : c.Passes part stop) : slice? text c.pos stop.pos = some part := by
  obtain ⟨before, htext, hpos⟩ := h.split
  rw [hpart.inside_eq, Nat.add_zero] at hpos
  refine slice?_eq_some_iff.mpr ⟨before, stop.rest, ?_, hpos.symm, ?_⟩
  · rw [htext, hpart.rest_eq, List.append_assoc]
  · rw [hpart.pos_eq, hpos]

/-- At every place of a text and for every limit, the token where a punctuator begins is
the longest mark that fits, and any other that fits is shorter, unless a comment or a float
begins there that the limit lets be seen. What a scan finds behind something skipped is what
it finds from there. From the start to the stop of a keyword or punctuator stands its text. -/
theorem scan_longest (text : String) (n : Nat) (handling : WordHandling) (limit : Nat) :
    let c := Cursor.ofOffset text.toList n
    let s := scan handling limit c
    (∀ mark : Punctuator, mark.text.toList.head? = c.char? →
      (1 < limit → BeginsPlainly c.chars) →
        s.start = c ∧ s.skipped = [] ∧ s.token.Fits (max limit 1) c.chars ∧
        ∀ other : Token, other.Fits (max limit 1) c.chars →
          other = s.token ∨ other.text.toList.length < s.token.text.toList.length) ∧
      (Cursor.ofOffset text.toList s.start.pos = s.start ∧
        scan handling limit s.start = { s with skipped := [] }) ∧
      (s.token.isSpelled = true →
        slice? text.toList s.start.pos s.stop.pos = some s.token.text.toList) := by
  intro c s
  have hc : c.Stands text.toList False := (Cursor.stands_into [] n text.toList).1
  obtain ⟨hstart, -, -⟩ := onward_scan handling limit hc
  refine ⟨fun mark hhead hplain => scan_of_head hhead hplain, ⟨?_, ?_⟩, fun htoken => ?_⟩
  · exact Cursor.ofOffset_pos hstart.stands (.inl (inside_start hc handling limit))
  · exact scanFrom_start handling limit [] c
  · rcases piece_scanFrom handling limit [] c with ⟨-, hend, -⟩ | hpiece
    · change s.token = .endOfText at hend
      rw [hend] at htoken
      cases htoken
    · exact slice?_of_passes hstart.stands (passes_of_pieceAt hpiece htoken)

theorem scan_longest_shift :
    let c := Cursor.ofOffset "é>>>=/b".toList 2
    let s := scan .standard 3 c
    c.chars = ['>', '>', '>', '=', '/', 'b'] ∧ s.token = .punctuator .shiftRightZero ∧
      (∀ other : Token, other.Fits 3 c.chars →
        other = .punctuator .shiftRightZero ∨ other.text.toList.length < 3) ∧
      slice? "é>>>=/b".toList s.start.pos s.stop.pos = some ['>', '>', '>'] := by
  intro c s
  have hchars : c.chars = ['>', '>', '>', '=', '/', 'b'] := by decide +kernel
  have htoken : (scan .standard 3 (Cursor.ofOffset "é>>>=/b".toList 2)).token =
      .punctuator .shiftRightZero := by
    decide +kernel
  have hplain : BeginsPlainly c.chars := by
    rw [hchars]
    refine ⟨by decide, by decide, fun digit _ hpoint => ?_⟩
    exact absurd (List.cons_prefix_cons.mp hpoint).1 (by decide)
  obtain ⟨hmark, -, hslice⟩ := scan_longest "é>>>=/b" 2 .standard 3
  obtain ⟨-, -, -, hmax⟩ := hmark .greater (by decide +kernel) fun _ => hplain
  rw [htoken] at hmax hslice
  exact ⟨hchars, htoken, hmax, hslice rfl⟩

end Lexer

end TypedScript
