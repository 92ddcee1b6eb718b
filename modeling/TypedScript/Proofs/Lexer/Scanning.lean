import TypedScript.Proofs.Lexer.Tiles
import TypedScript.Proofs.Token.Growth

/-! # What a scan passes over

A scan that begins on the edge of a character lays tiles over all that it skips, up to
the place where its token stands. There the text is at its end, or the token is found: a
word or literal is left where it stands, a keyword or punctuator is passed over.
-/

namespace TypedScript.Lexer

open Text

variable {c d : Cursor} {what : Skipped}

/-- How the piece at the character `ch` comes about, and what the character or the text then
is. -/
inductive Arises (handling : WordHandling) (limit : Nat) (c : Cursor) (ch : Char) : Piece → Prop
  | word : isIdentifierStart ch = true → Arises handling limit c ch (wordAt handling c)
  | blank : isSpace ch = true ∨ isLineBreak ch = true →
      Arises handling limit c ch (.skipped (.blank c.pos c.skipChar.pos) c.skipChar)
  | string : ch = '\x22' ∨ ch = '\x27' → Arises handling limit c ch (.token .string c)
  | template : ch = '\x60' → Arises handling limit c ch (.token .template c)
  | number : isDecimal ch = true →
      Arises handling limit c ch (.token (if isInteger c then .integer else .float) c)
  | point : isPointFloat c = true → Arises handling limit c ch (.token .float c)
  | lineComment : ['/', '/'].isPrefixOf c.chars = true →
      Arises handling limit c ch (lineCommentAt c)
  | blockComment : ['/', '*'].isPrefixOf c.chars = true →
      Arises handling limit c ch (blockCommentAt c)
  | punctuator :
      (isSpace ch = false ∧ isLineBreak ch = false) → isIdentifierStart ch = false →
      isDecimal ch = false → (ch ≠ '\x22' ∧ ch ≠ '\x27' ∧ ch ≠ '\x60') →
      Arises handling limit c ch (punctuatorAt limit c)

theorem arises_pieceAt (handling : WordHandling) (limit : Nat) {ch : Char}
    (hch : c.char? = some ch) : Arises handling limit c ch (pieceAt handling limit c) := by
  unfold pieceAt
  rw [hch]
  simp only
  split
  · exact .word ‹_›
  rename_i hword
  split
  · rename_i hblank
    exact .blank (Bool.or_eq_true_iff.mp hblank)
  rename_i hblank
  split
  · rename_i hquote
    exact .string (by simpa using hquote)
  rename_i hquote
  split
  · exact .template ‹_›
  rename_i hbacktick
  split
  · exact .number ‹_›
  rename_i hdigit
  split
  · rename_i hpoint
    exact .point (Bool.and_eq_true_iff.mp hpoint).2
  split
  · rename_i hmarks
    exact .lineComment (Bool.and_eq_true_iff.mp hmarks).2
  split
  · rename_i hmarks
    exact .blockComment (Bool.and_eq_true_iff.mp hmarks).2
  simp only [Bool.or_eq_true, not_or, Bool.not_eq_true] at hword hblank hdigit
  simp only [Bool.or_eq_true, decide_eq_true_eq, not_or] at hquote
  exact .punctuator hblank hword hdigit ⟨hquote.1, hquote.2, hbacktick⟩

theorem Covers.single {part : List Char} (hpart : c.Passes part d) (hstart : what.start = c.pos)
    (hstop : what.stop = d.pos) (hwhat : what.Describes part d.rest) :
    Covers c [.skipped what] d :=
  .cons hpart hwhat.ne_nil hstart hstop hwhat (.nil hpart.inside_eq')

theorem prefix_takeWhile_iff (rest : List Char) :
    ['/'] <+: rest.takeWhile (· != '\n') ↔ ['/'] <+: rest := by
  cases rest with
  | nil => simp
  | cons ch rest =>
    by_cases h : ch = '/'
    · simp [h]
    · constructor
      · intro hp
        exact hp.trans (List.takeWhile_prefix _)
      · intro hp
        exact absurd (List.cons_prefix_cons.mp hp).1.symm h

theorem covers_lineCommentAt {next : Cursor} (hc : c.inside = 0)
    (hmarks : ['/', '/'].isPrefixOf c.chars = true) (h : lineCommentAt c = .skipped what next) :
    Covers c [.skipped what] next := by
  obtain ⟨rest, hrest⟩ := Cursor.isPrefixOf_chars hc hmarks
  have hopen := Cursor.passes_advance_two hc hrest rfl rfl
  have hline := Cursor.passes_skipLine hopen.inside_eq'
  have hbody : (c.advance 2).rest = rest := hopen.rest_eq_of_append hrest
  rw [hbody] at hline
  have hsplit : rest = rest.takeWhile (· != '\n') ++ (c.advance 2).skipLine.rest :=
    hbody ▸ hline.rest_eq
  have hnotin : '\n' ∉ rest.takeWhile (· != '\n') := fun hin => by
    simpa using List.all_eq_true.mp List.all_takeWhile _ hin
  have hkind : (if ['/', '/', '/'].isPrefixOf c.chars then CommentKind.triple else .line) =
      if ['/'] <+: rest.takeWhile (· != '\n') then .triple else .line := by
    simp only [prefix_takeWhile_iff]
    simp [Cursor.chars, hc, hrest, ← List.isPrefixOf_iff_prefix]
  obtain ⟨ending, hending, hstop⟩ : ∃ ending,
      (ending = ['\n'] ∨ ending = [] ∧ ((c.advance 2).skipLine.advance 1).rest = []) ∧
      (c.advance 2).skipLine.Passes ending ((c.advance 2).skipLine.advance 1) := by
    cases hafter : (c.advance 2).skipLine.rest with
    | nil =>
      rw [Cursor.advance_of_rest_eq_nil hline.inside_eq' hafter]
      exact ⟨[], .inr ⟨rfl, hafter⟩, .refl hline.inside_eq'⟩
    | cons ch more =>
      have hfeed : ch = '\n' := by
        have hdrop : rest.dropWhile (· != '\n') = ch :: more := by
          rw [← hafter]
          exact List.append_cancel_left (List.takeWhile_append_dropWhile.trans hsplit)
        simpa [hdrop] using List.head?_dropWhile_not (· != '\n') rest
      subst hfeed
      have hch := Cursor.char?_eq_some_iff.mpr ⟨hline.inside_eq', more, hafter⟩
      exact ⟨['\n'], .inl rfl, Cursor.passes_advance_one hch rfl⟩
  have hall := (hopen.trans hline).trans hstop
  simp only [lineCommentAt, Piece.skipped.injEq] at h
  obtain ⟨rfl, rfl⟩ := h
  refine .single hall rfl rfl ?_
  rw [hall.textTo_eq]
  exact .line hnotin hending hkind

theorem covers_blockCommentAt {next : Cursor} (hc : c.inside = 0)
    (hmarks : ['/', '*'].isPrefixOf c.chars = true) (h : blockCommentAt c = .skipped what next) :
    Covers c [.skipped what] next := by
  obtain ⟨rest, hrest⟩ := Cursor.isPrefixOf_chars hc hmarks
  have hopen := Cursor.passes_advance_two hc hrest rfl rfl
  unfold blockCommentAt at h
  split at h
  · rename_i stop hclosed
    obtain ⟨body, hbody, hpart⟩ := Cursor.passes_skipBlockComment? hopen.inside_eq' hclosed
    have hall := hopen.trans hpart
    simp only [Piece.skipped.injEq] at h
    obtain ⟨rfl, rfl⟩ := h
    refine .single hall rfl rfl ?_
    rw [hall.textTo_eq]
    exact .block hbody
  · rename_i hopened
    have hbody := Cursor.not_infix_of_skipBlockComment?_eq_none hopen.inside_eq' hopened
    have hall := Cursor.passes_toEnd hc
    simp only [Piece.skipped.injEq] at h
    obtain ⟨rfl, rfl⟩ := h
    refine .single hall rfl rfl ?_
    rw [hopen.rest_eq]
    exact .openBlock hbody

theorem covers_skipChar {ch : Char} (h : c.char? = some ch) (hstart : what.start = c.pos)
    (hstop : what.stop = c.skipChar.pos) (hwhat : what.Describes [ch] c.skipChar.rest) :
    Covers c [.skipped what] c.skipChar :=
  .single (Cursor.passes_skipChar h) hstart hstop hwhat

theorem punctuatorAt_eq (limit : Nat) (c : Cursor) :
    punctuatorAt limit c =
      match Punctuator.longest? (max limit 1) c.chars with
      | some mark => .token (.punctuator mark) (c.advance mark.text.utf8ByteSize)
      | none => .skipped (.stray c.pos c.skipChar.pos) c.skipChar := by
  rw [punctuatorAt, Punctuator.read?_eq]
  cases Punctuator.longest? (max limit 1) c.chars with
  | none => rfl
  | some mark => simp only [Option.map_some, mark.length_text]

/-- Where no punctuator is found the character is skipped, and none begins with it. -/
theorem stray_of_punctuatorAt {limit : Nat} {next : Cursor} {ch : Char} (hch : c.char? = some ch)
    (h : punctuatorAt limit c = .skipped what next) :
    what = .stray c.pos c.skipChar.pos ∧ next = c.skipChar ∧
      ∀ mark : Punctuator, mark.text.toList.head? ≠ some ch := by
  obtain ⟨hc, rest, hrest⟩ := Cursor.char?_eq_some_iff.mp hch
  rw [punctuatorAt_eq] at h
  rw [Cursor.chars, if_pos hc, hrest] at h
  split at h
  · cases h
  · rename_i hnone
    cases h
    exact ⟨rfl, rfl, (Punctuator.longest?_eq_none_iff (Nat.le_max_right _ _)).mp hnone⟩

theorem covers_pieceAt {handling : WordHandling} {limit : Nat} {next : Cursor} (hc : c.inside = 0)
    (hend : c.atEnd = false) (h : pieceAt handling limit c = .skipped what next) :
    Covers c [.skipped what] next := by
  have hrest : c.rest ≠ [] := by simpa [Cursor.atEnd] using hend
  obtain ⟨ch, rest, hrest⟩ := List.exists_cons_of_ne_nil hrest
  have hch := Cursor.char?_eq_some_iff.mpr ⟨hc, rest, hrest⟩
  have harises := arises_pieceAt handling limit hch
  rw [h] at harises
  generalize hpiece : Piece.skipped what next = piece at harises
  cases harises with
  | word => exact absurd hpiece.symm (wordAt_ne_skipped _ _ _ _)
  | blank hblank =>
    cases hpiece
    exact covers_skipChar hch rfl rfl (.blank hblank)
  | string | template | number | point => cases hpiece
  | lineComment hmarks => exact covers_lineCommentAt hc hmarks hpiece.symm
  | blockComment hmarks => exact covers_blockCommentAt hc hmarks hpiece.symm
  | punctuator hblank hword hdigit hquote =>
    obtain ⟨rfl, rfl, hmark⟩ := stray_of_punctuatorAt hch hpiece.symm
    exact covers_skipChar hch rfl rfl
      (.stray ⟨hblank.1, hblank.2, hword, hdigit, hquote, hmark⟩)

/-- What a scan finds at `c` and where it stops: at a word or literal, behind a keyword or
punctuator. -/
inductive Found (c : Cursor) : Token → Cursor → Prop
  | identifier {ch : Char} :
      c.char? = some ch → isIdentifierStart ch = true → Found c .identifier c
  | string {ch : Char} : c.char? = some ch → ch = '\x22' ∨ ch = '\x27' → Found c .string c
  | template : c.char? = some '\x60' → Found c .template c
  | integer {ch : Char} : c.char? = some ch → isDecimal ch = true → Found c .integer c
  | float {ch : Char} : c.char? = some ch → isDecimal ch = true ∨ ch = '.' → Found c .float c
  | keyword {word : Keyword} {stop : Cursor} :
      c.Reaches stop → c.pos < stop.pos → Found c (.keyword word) stop
  | punctuator {mark : Punctuator} {stop : Cursor} :
      c.Reaches stop → c.pos < stop.pos → Found c (.punctuator mark) stop

theorem Found.ne {token : Token} (h : Found c token d) :
    token ≠ .endOfText ∧ token ≠ .invalid := by
  cases h <;> simp

theorem Found.char?_of_template (h : Found c .template d) : d.char? = some '\x60' := by
  cases h
  assumption

theorem Found.reaches {token : Token} (hc : c.inside = 0) (h : Found c token d) : c.Reaches d := by
  cases h with
  | keyword h => exact h
  | punctuator h => exact h
  | _ => exact .refl hc

theorem reaches_skipWord {ch : Char} (h : c.char? = some ch) :
    c.Reaches c.skipChar.skipIdentifierRest ∧ c.pos < c.skipChar.skipIdentifierRest.pos := by
  have hfirst := Cursor.passes_skipChar h
  have hrest := Cursor.passes_skipChars hfirst.inside_eq' isIdentifierPart
  exact ⟨hfirst.reaches.trans hrest.reaches,
    Nat.lt_of_lt_of_le (hfirst.pos_lt (by simp)) hrest.pos_le⟩

theorem found_wordAt {handling : WordHandling} {token : Token} {stop : Cursor} {ch : Char}
    (hch : c.char? = some ch) (hword : isIdentifierStart ch = true)
    (h : wordAt handling c = .token token stop) : Found c token stop := by
  obtain ⟨hreach, hlt⟩ := reaches_skipWord hch
  unfold wordAt at h
  simp only at h
  split at h
  · cases h
    exact .keyword hreach hlt
  · split at h
    · cases h
      exact .identifier hch hword
    · cases h
      exact .keyword hreach hlt
  · cases h
    exact .identifier hch hword

theorem passes_of_punctuatorAt {limit : Nat} {token : Token} {stop : Cursor} (hc : c.inside = 0)
    (h : punctuatorAt limit c = .token token stop) :
    ∃ mark, token = .punctuator mark ∧ c.Passes mark.text.toList stop := by
  rw [punctuatorAt_eq] at h
  split at h
  · rename_i mark hmark
    cases h
    rw [Cursor.chars, if_pos hc] at hmark
    obtain ⟨rest, hrest⟩ := Punctuator.prefix_of_longest? hmark
    have hpart := Cursor.passes_advance _ hc hrest.symm
    rw [Punctuator.byteSize_text] at hpart
    exact ⟨mark, rfl, hpart⟩
  · cases h

theorem found_punctuatorAt {limit : Nat} {token : Token} {stop : Cursor} (hc : c.inside = 0)
    (h : punctuatorAt limit c = .token token stop) : Found c token stop := by
  obtain ⟨mark, rfl, hpart⟩ := passes_of_punctuatorAt hc h
  exact .punctuator hpart.reaches (hpart.pos_lt mark.text_toList_ne_nil)

theorem ne_token_of_blockCommentAt {token : Token} {stop : Cursor} :
    blockCommentAt c ≠ .token token stop := by
  unfold blockCommentAt
  split <;> simp

theorem found_pieceAt {handling : WordHandling} {limit : Nat} {token : Token} {stop : Cursor}
    (hc : c.inside = 0) (h : pieceAt handling limit c = .token token stop) :
    Found c token stop := by
  cases hch : c.char? with
  | none => simp [pieceAt, hch] at h
  | some ch =>
    have harises := arises_pieceAt handling limit hch
    rw [h] at harises
    generalize hpiece : Piece.token token stop = piece at harises
    cases harises with
    | word hword => exact found_wordAt hch hword hpiece.symm
    | blank => cases hpiece
    | string hquote =>
      cases hpiece
      exact .string hch hquote
    | template hbacktick =>
      cases hpiece
      exact .template (hbacktick ▸ hch)
    | number hdigit =>
      cases hpiece
      split
      · exact .integer hch hdigit
      · exact .float hch (.inl hdigit)
    | point hpoint =>
      cases hpiece
      have hpoint := char?_of_isPointFloat hc hpoint
      exact .float hch (.inr (Option.some.inj (hch.symm.trans hpoint)))
    | lineComment => cases hpiece
    | blockComment => exact absurd hpiece.symm ne_token_of_blockCommentAt
    | punctuator => exact found_punctuatorAt hc hpiece.symm

/-- The scan lays tiles up to its token, and there is nothing else between. -/
theorem covers_scanFrom (handling : WordHandling) (limit : Nat) (skipped : List Skipped)
    {c : Cursor} (hc : c.inside = 0) :
    ∃ more, (scanFrom handling limit skipped c).skipped = skipped.reverse ++ more ∧
      Covers c (more.map .skipped) (scanFrom handling limit skipped c).start := by
  fun_induction scanFrom handling limit skipped c with
  | case1 skipped c hend => exact ⟨[], by simp, .nil hc⟩
  | case2 skipped c hend token stop hpiece => exact ⟨[], by simp, .nil hc⟩
  | case3 skipped c hend what next hpiece hlt ih =>
    have hfirst := covers_pieceAt hc (by simpa using hend) hpiece
    obtain ⟨more, hmore, hcovers⟩ := ih hfirst.reaches.inside_eq
    exact ⟨what :: more, by simp [hmore], hfirst.append hcovers⟩

theorem found_scanFrom (handling : WordHandling) (limit : Nat) (skipped : List Skipped)
    {c : Cursor} (hc : c.inside = 0) :
    let s := scanFrom handling limit skipped c
    s.token = .endOfText ∧ s.start.rest = [] ∧ s.stop = s.start ∨
      Found s.start s.token s.stop := by
  fun_induction scanFrom handling limit skipped c with
  | case1 skipped c hend => exact .inl ⟨rfl, by simpa [Cursor.atEnd] using hend, rfl⟩
  | case2 skipped c hend token stop hpiece => exact .inr (found_pieceAt hc hpiece)
  | case3 skipped c hend what next hpiece hlt ih =>
    exact ih (covers_pieceAt hc (by simpa using hend) hpiece).reaches.inside_eq

theorem covers_scan (handling : WordHandling) (limit : Nat) (hc : c.inside = 0) :
    Covers c ((scan handling limit c).skipped.map .skipped) (scan handling limit c).start := by
  obtain ⟨more, hmore, hcovers⟩ := covers_scanFrom handling limit [] hc
  rw [scan, hmore]
  exact hcovers

theorem found_scan (handling : WordHandling) (limit : Nat) (hc : c.inside = 0) :
    (scan handling limit c).token = .endOfText ∧ (scan handling limit c).start.rest = [] ∧
        (scan handling limit c).stop = (scan handling limit c).start ∨
      Found (scan handling limit c).start (scan handling limit c).token
        (scan handling limit c).stop :=
  found_scanFrom handling limit [] hc

end TypedScript.Lexer
