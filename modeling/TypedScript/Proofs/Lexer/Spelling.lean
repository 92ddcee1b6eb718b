import TypedScript.Proofs.Lexer.Lookahead
import TypedScript.Proofs.Token.Word

/-! # Tokens where they are spelled

Where a text goes on with the spelling of a token, and then with something that cannot
prolong it, the scan finds this token. A free word is left to be read, and its reader
gives it back.
-/

namespace TypedScript.Lexer

open Text

variable {c d : Cursor} {handling : WordHandling} {limit : Nat} {ch : Char} {after : List Char}

/-- The lexer has recorded nothing on the way from `l` to `after`. -/
structure Silent (l after : Lexer) : Prop where
  source_eq : after.source = l.source
  comments_eq : after.comments = l.comments
  log_eq : after.log = l.log

theorem Silent.trans {l k after : Lexer} (h : Silent l k) (h' : Silent k after) :
    Silent l after where
  source_eq := h'.source_eq.trans h.source_eq
  comments_eq := h'.comments_eq.trans h.comments_eq
  log_eq := h'.log_eq.trans h.log_eq

theorem silent_take {α : Type} {l : Lexer} {r : Reading α} (h : r.reports = []) :
    Silent l (l.take r).2 := by
  simp only [take, record, h, List.foldl_nil]
  exact ⟨rfl, rfl, rfl⟩

theorem passes_skipWord {word : List Char} (hc : c.inside = 0) (h : c.rest = word ++ after)
    (hword : isWord word = true)
    (hafter : ∀ ch, after.head? = some ch → isIdentifierPart ch = false) :
    c.Passes word c.skipChar.skipIdentifierRest := by
  obtain ⟨first, rest, rfl, -, hrest⟩ := exists_of_isWord hword
  have hfirst := Cursor.passes_skipChar (Cursor.char?_eq_some_iff.mpr ⟨hc, _, h⟩)
  have hrun := Cursor.passes_skipChars_append hfirst.inside_eq'
    (hfirst.rest_eq_of_append h) hrest hafter
  exact hfirst.trans hrun

theorem pieceAt_word {word : List Char} (hc : c.inside = 0) (h : c.rest = word ++ after)
    (hword : isWord word = true) : pieceAt handling limit c = wordAt handling c := by
  obtain ⟨first, rest, rfl, hfirst, -⟩ := exists_of_isWord hword
  have hch : c.char? = some first := Cursor.char?_eq_some_iff.mpr ⟨hc, _, h⟩
  unfold pieceAt
  rw [hch]
  exact if_pos hfirst

theorem pieceAt_keyword (limit : Nat) (word : Keyword) (hc : c.inside = 0)
    (h : c.rest = word.text.toList ++ after)
    (hafter : ∀ ch, after.head? = some ch → isIdentifierPart ch = false) :
    ∃ stop, pieceAt .standard limit c = .token (.keyword word) stop ∧
      c.Passes word.text.toList stop := by
  have hpart := passes_skipWord hc h word.isWord_text hafter
  refine ⟨_, ?_, hpart⟩
  rw [pieceAt_word hc h word.isWord_text]
  simp only [wordAt, hpart.textTo_eq, String.ofList_toList, word.ofText?_text]

theorem pieceAt_freeWord (handling : WordHandling) (limit : Nat) (word : FreeWord)
    (hc : c.inside = 0) (h : c.rest = word.text.toList ++ after)
    (hafter : ∀ ch, after.head? = some ch → isIdentifierPart ch = false) :
    pieceAt handling limit c = .token .identifier c := by
  have hpart := passes_skipWord hc h word.isWord hafter
  rw [pieceAt_word hc h word.isWord]
  simp only [wordAt, hpart.textTo_eq, String.ofList_toList, word.isFree]

theorem takeIdentifier_freeWord {l : Lexer} (word : FreeWord) (hc : l.cursor.inside = 0)
    (h : l.cursor.rest = word.text.toList ++ after)
    (hafter : ∀ ch, after.head? = some ch → isIdentifierPart ch = false) :
    ∃ next, l.takeIdentifier = (word.text, next) ∧ Silent l next ∧
      l.cursor.Passes word.text.toList next.cursor := by
  have hpart := passes_skipWord hc h word.isWord hafter
  refine ⟨l.takeIdentifier.2, ?_, silent_take rfl, hpart⟩
  rw [takeIdentifier, hpart.textTo_eq, String.ofList_toList]
  rfl

/-- The first character of a punctuator begins nothing else, points and slashes apart. -/
theorem head_punctuator {mark : Punctuator} (h : mark.text.toList.head? = some ch) :
    isIdentifierStart ch = false ∧ (isSpace ch || isLineBreak ch) = false ∧
      (ch ≠ '\x22' ∧ ch ≠ '\x27') ∧ ch ≠ '\x60' ∧ isDecimal ch = false := by
  have hall : ∀ mark ∈ Punctuator.all, (mark.text.toList.head?.all fun ch =>
      !isIdentifierStart ch && !(isSpace ch || isLineBreak ch) &&
        (ch != '\x22' && ch != '\x27') && ch != '\x60' && !isDecimal ch) = true := by
    decide +kernel
  have hhead := hall mark mark.mem_all
  rw [h, Option.all_some] at hhead
  simp only [Bool.and_eq_true, Bool.not_eq_true', bne_iff_ne] at hhead
  obtain ⟨⟨⟨⟨hword, hblank⟩, hquote⟩, hbacktick⟩, hdigit⟩ := hhead
  exact ⟨hword, hblank, hquote, hbacktick, hdigit⟩

/-- Where a punctuator begins, and no comment or float that the limit lets be seen, the
piece is a punctuator. -/
theorem pieceAt_of_head {mark : Punctuator} (hch : c.char? = some ch)
    (hhead : mark.text.toList.head? = some ch)
    (hplain : 1 < limit → isPointFloat c = false ∧
      ['/', '/'].isPrefixOf c.chars = false ∧ ['/', '*'].isPrefixOf c.chars = false) :
    pieceAt handling limit c = punctuatorAt limit c := by
  obtain ⟨hword, hblank, hquote, hbacktick, hdigit⟩ := head_punctuator hhead
  unfold pieceAt
  rw [hch]
  by_cases hlimit : 1 < limit
  · obtain ⟨hpoint, hline, hblock⟩ := hplain hlimit
    simp only [hword, hblank, hquote, hbacktick, hdigit, hpoint, hline, hblock, Bool.and_false,
      decide_false, Bool.or_false, Bool.false_eq_true, if_false]
  · simp only [hword, hblank, hquote, hbacktick, hdigit, hlimit, Bool.false_and, decide_false,
      Bool.or_false, Bool.false_eq_true, if_false]

theorem pieceAt_punctuator (mark : Punctuator) (hc : c.inside = 0)
    (h : c.rest = mark.text.toList ++ after)
    (hmark : Punctuator.longest? (max limit 1) c.rest = some mark)
    (hpoint : isPointFloat c = false)
    (hline : ¬ ['/', '/'] <+: c.rest) (hblock : ¬ ['/', '*'] <+: c.rest) :
    ∃ stop, pieceAt handling limit c = .token (.punctuator mark) stop ∧
      c.Passes mark.text.toList stop := by
  obtain ⟨ch, rest, htext, -⟩ := mark.exists_text_eq_singleton
  have hch : c.char? = some ch :=
    Cursor.char?_eq_some_iff.mpr ⟨hc, rest ++ after, by rw [h, htext]; rfl⟩
  have hchars : c.chars = c.rest := if_pos hc
  rw [← hchars, ← List.isPrefixOf_iff_prefix, Bool.not_eq_true] at hline hblock
  have hpart := Cursor.passes_advance mark.text.toList hc h
  rw [mark.byteSize_text] at hpart
  refine ⟨_, ?_, hpart⟩
  rw [pieceAt_of_head hch (congrArg List.head? htext) fun _ => ⟨hpoint, hline, hblock⟩,
    punctuatorAt_eq, hchars, hmark]

theorem length_le_noLimit (mark : Punctuator) : mark.text.toList.length ≤ max noLimit 1 := by
  have hall : ∀ mark ∈ Punctuator.all, mark.text.toList.length ≤ 4 := by
    decide
  exact Nat.le_trans (hall mark mark.mem_all) (by decide)

theorem pieceAt_punctuator_of_apart (handling : WordHandling) (mark : Punctuator)
    (hc : c.inside = 0) (h : c.rest = mark.text.toList ++ after)
    (hafter : ∀ ch, after.head? = some ch → ch = ' ') :
    ∃ stop, pieceAt handling noLimit c = .token (.punctuator mark) stop ∧
      c.Passes mark.text.toList stop := by
  have hspace : ∀ mark ∈ Punctuator.all, ' ' ∉ mark.text.toList := by
    decide
  have hcomment : ∀ mark ∈ Punctuator.all,
      ¬ ['/', '/'] <+: mark.text.toList ∧ ¬ ['/', '*'] <+: mark.text.toList := by
    decide
  have hdigit : ∀ mark ∈ Punctuator.all, (mark.text.toList.any isDecimal) = false := by
    decide
  have hmark := mark.mem_all
  -- Marks hold no space, so nothing that begins here reaches beyond the mark.
  have hwithin : ∀ {part : List Char}, ' ' ∉ part → part <+: mark.text.toList ++ after →
      part <+: mark.text.toList := by
    intro part hpart hprefix
    refine Punctuator.prefix_of_prefix_append hprefix fun ch hch => ?_
    rwa [hafter ch hch]
  have hchars : c.chars = c.rest := if_pos hc
  refine pieceAt_punctuator mark hc h ?_ ?_ ?_ ?_
  · rw [h]
    refine Punctuator.longest?_append (length_le_noLimit mark) fun ch hch other => ?_
    obtain rfl := hafter ch hch
    exact hspace other other.mem_all
  · unfold isPointFloat
    split
    · rename_i digit rest hrest
      rw [hchars, h] at hrest
      by_cases hgap : digit = ' '
      · subst hgap
        rfl
      · have hpoint : ['.', digit] <+: mark.text.toList :=
          hwithin (by simp [Ne.symm hgap]) ⟨rest, hrest.symm⟩
        exact Bool.eq_false_iff.mpr
          (List.any_eq_false.mp (hdigit mark hmark) digit (hpoint.subset (by simp)))
    · rfl
  · rw [h]
    exact fun hprefix => (hcomment mark hmark).1 (hwithin (by decide) hprefix)
  · rw [h]
    exact fun hprefix => (hcomment mark hmark).2 (hwithin (by decide) hprefix)

/-- No punctuator goes on after a closing brace. -/
theorem pieceAt_closeBrace (handling : WordHandling) (hc : c.inside = 0)
    (h : c.rest = '\x7d' :: after) :
    ∃ stop, pieceAt handling noLimit c = .token (.punctuator .closeBrace) stop ∧
      c.Passes ['\x7d'] stop := by
  have honly : ∀ mark ∈ Punctuator.all, mark.text.toList.head? = some '\x7d' →
      mark = .closeBrace := by
    decide
  have hchars : c.chars = c.rest := if_pos hc
  have hslash : ∀ second, ¬ ['/', second] <+: c.rest := by
    intro second hprefix
    rw [h] at hprefix
    exact absurd (List.cons_prefix_cons.mp hprefix).1 (by decide)
  refine pieceAt_punctuator .closeBrace hc h ?_ ?_ (hslash '/') (hslash '*')
  · refine Punctuator.longest?_eq_some_iff.mpr ⟨⟨⟨after, h.symm⟩, length_le_noLimit _⟩, ?_⟩
    intro other hother
    obtain ⟨ch, rest, htext, -⟩ := other.exists_text_eq_singleton
    have hhead : ch = '\x7d' := by
      have hbegins := hother.begins
      rw [h, htext] at hbegins
      exact (List.cons_prefix_cons.mp hbegins).1
    obtain rfl := honly other other.mem_all (by rw [htext, hhead]; rfl)
    exact Nat.le_refl _
  · simp [isPointFloat, hchars, h]

theorem pieceAt_backtick (handling : WordHandling) (limit : Nat) (h : c.char? = some '\x60') :
    pieceAt handling limit c = .token .template c := by
  unfold pieceAt
  rw [h]
  rfl

theorem pieceAt_space (h : c.char? = some ' ') :
    pieceAt handling limit c = .skipped (.blank c.pos c.skipChar.pos) c.skipChar := by
  unfold pieceAt
  rw [h]
  rfl

theorem atEnd_of_char? (h : c.char? = some ch) : c.atEnd = false := by
  obtain ⟨-, rest, hrest⟩ := Cursor.char?_eq_some_iff.mp h
  rw [Cursor.atEnd, hrest]
  rfl

theorem scanFrom_of_token {token : Token} {stop : Cursor} {skipped : List Skipped}
    (h : pieceAt handling limit c = .token token stop) :
    scanFrom handling limit skipped c = ⟨token, c, stop, skipped.reverse⟩ := by
  have hend : c.atEnd = false := by
    cases hch : c.char? with
    | none => simp [pieceAt, hch] at h
    | some ch => exact atEnd_of_char? hch
  rw [scanFrom, dif_neg (by simp [hend])]
  split
  · rename_i hpiece
    rw [h] at hpiece
    cases hpiece
    rfl
  · rename_i hpiece
    rw [h] at hpiece
    cases hpiece

theorem scanFrom_of_gap {token : Token} {stop : Cursor} {gap : List Char}
    (skipped : List Skipped) (hpart : c.Passes gap d) (hgap : ∀ ch ∈ gap, ch = ' ')
    (h : pieceAt handling limit d = .token token stop)
    (hskipped : ∀ what ∈ skipped, ∃ start stop, what = .blank start stop) :
    ∃ blanks, scanFrom handling limit skipped c = ⟨token, d, stop, blanks⟩ ∧
      ∀ what ∈ blanks, ∃ start stop, what = .blank start stop := by
  -- What was skipped before comes along, so the scan may begin anywhere in the gap.
  induction gap generalizing c skipped with
  | nil =>
    obtain rfl := hpart.eq_of_nil
    exact ⟨skipped.reverse, scanFrom_of_token h,
      fun what hwhat => hskipped what (List.mem_reverse.mp hwhat)⟩
  | cons ch gap ih =>
    obtain ⟨rfl, hmore⟩ := List.forall_mem_cons.mp hgap
    have hch : c.char? = some ' ' :=
      Cursor.char?_eq_some_iff.mpr ⟨hpart.inside_eq, _, hpart.rest_eq⟩
    have hstep := Cursor.passes_skipChar hch
    rw [scanFrom_of_skipped (atEnd_of_char? hch) (pieceAt_space hch)]
    exact ih _ (hpart.of_append hstep) hmore (List.forall_mem_cons.mpr ⟨⟨_, _, rfl⟩, hskipped⟩)

theorem silent_next_of_scan {l : Lexer} {s : Scan} (h : scan handling noLimit l.cursor = s)
    (hblanks : ∀ what ∈ s.skipped, ∃ start stop, what = .blank start stop) :
    (l.next handling).2.token = s.token ∧ (l.next handling).2.cursor = s.stop ∧
      Silent l (l.next handling).2 := by
  have hreports : s.skipped.filterMap Skipped.report? = [] := by
    refine List.filterMap_eq_nil_iff.mpr fun what hwhat => ?_
    obtain ⟨start, stop, rfl⟩ := hblanks what hwhat
    rfl
  have hcomments : s.skipped.filterMap (Skipped.comment? l.source) = [] := by
    refine List.filterMap_eq_nil_iff.mpr fun what hwhat => ?_
    obtain ⟨start, stop, rfl⟩ := hblanks what hwhat
    rfl
  have hnext : (l.next handling).2 = { l with
      lookahead := none, cursor := s.stop, tokenPos := s.start.pos, token := s.token } := by
    simp only [next, scanNext, recordSkipped, record, h, hreports, hcomments, List.foldl_nil]
  rw [hnext]
  exact ⟨rfl, rfl, rfl, rfl, rfl⟩

theorem silent_next {l : Lexer} {token : Token} {stop : Cursor} {gap : List Char}
    (hpart : l.cursor.Passes gap d) (hgap : ∀ ch ∈ gap, ch = ' ')
    (h : pieceAt handling noLimit d = .token token stop) :
    (l.next handling).2.token = token ∧ (l.next handling).2.cursor = stop ∧
      Silent l (l.next handling).2 := by
  obtain ⟨blanks, hscan, hblanks⟩ := scanFrom_of_gap [] hpart hgap h (by simp)
  exact silent_next_of_scan hscan hblanks

theorem silent_next_of_end {l : Lexer} (handling : WordHandling) (h : l.cursor.rest = []) :
    (l.next handling).2.token = .endOfText ∧ (l.next handling).2.cursor = l.cursor ∧
      Silent l (l.next handling).2 := by
  have hend : l.cursor.atEnd = true := by rw [Cursor.atEnd, h]; rfl
  have hscan : scan handling noLimit l.cursor = ⟨.endOfText, l.cursor, l.cursor, []⟩ := by
    rw [scan, scanFrom, dif_pos hend]
    rfl
  exact silent_next_of_scan hscan (by simp)

/-- A text that begins with a token has no preamble. -/
theorem cursor_new_of_head (source : SourceId) {text : String} (log : Diagnostic.Log)
    (h : ∀ ch, text.toList.head? = some ch → ch ≠ byteOrderMark ∧ ch ≠ '#') :
    (Lexer.new source text log).cursor = .start text.toList := by
  obtain ⟨preamble, htext, hcursor⟩ := cursor_new source text log
  rw [afterPreamble_eq_self h] at htext hcursor
  obtain rfl : preamble = [] := List.append_cancel_right (htext.symm.trans (List.nil_append _).symm)
  exact hcursor

end TypedScript.Lexer
