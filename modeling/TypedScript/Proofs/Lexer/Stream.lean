import TypedScript.Proofs.Lexer.Integer

/-! # Tokens written and read again

Keywords, punctuators, free words and decimal integers are written one after the other
with a space between. A run over this text finds the same tokens with the same values,
and then the end of the text; it has nothing to report and meets no comment.
-/

namespace TypedScript.Lexer

open Text Numeral

inductive Written where
  | keyword (word : Keyword)
  | punctuator (mark : Punctuator)
  | identifier (word : FreeWord)
  | integer (value : UInt64)

namespace Written

def token : Written → Token
  | .keyword word => .keyword word
  | .punctuator mark => .punctuator mark
  | .identifier _ => .identifier
  | .integer _ => .integer

def value : Written → Value
  | .keyword _ | .punctuator _ => .none
  | .identifier word => .identifier word.text
  | .integer value => .integer value

def text : Written → String
  | .identifier word => word.text
  | .integer value => toString value
  | x => x.token.text

theorem toList_text_integer (value : UInt64) :
    (integer value).text.toList = IntegerStyle.plain.text value.toNat :=
  Nat.toList_repr.trans (IntegerStyle.text_plain _).symm

theorem exists_head_text (x : Written) : ∃ ch rest, x.text.toList = ch :: rest ∧
    (isIdentifierStart ch = true ∨ isDecimal ch = true ∨
      ∃ mark ∈ Punctuator.all, mark.text.toList.head? = some ch) := by
  cases x with
  | keyword word =>
    obtain ⟨ch, rest, htext, hch, -⟩ := exists_of_isWord word.isWord_text
    exact ⟨ch, rest, htext, .inl hch⟩
  | punctuator mark =>
    obtain ⟨ch, rest, htext, -⟩ := mark.exists_text_eq_singleton
    exact ⟨ch, rest, htext, .inr (.inr ⟨mark, mark.mem_all, congrArg List.head? htext⟩)⟩
  | identifier word =>
    obtain ⟨ch, rest, htext, hch, -⟩ := exists_of_isWord word.isWord
    exact ⟨ch, rest, htext, .inl hch⟩
  | integer value =>
    obtain ⟨ch, rest, htext, hch⟩ := exists_text_eq_cons .plain value.toNat
    exact ⟨ch, rest, (toList_text_integer value).trans htext, .inr (.inl hch)⟩

def textOf (items : List Written) : String :=
  " ".intercalate (items.map text)

def behind (items : List Written) : List Char :=
  items.flatMap fun x => ' ' :: x.text.toList

theorem toList_textOf_cons (x : Written) (items : List Written) :
    (textOf (x :: items)).toList = x.text.toList ++ behind items := by
  rw [textOf, String.toList_intercalate, List.map_map]
  induction items generalizing x with
  | nil => simp [behind]
  | cons y items ih =>
    rw [List.map_cons, List.map_cons, List.intercalate_cons_cons, ← List.map_cons, ih]
    simp [behind]

theorem eq_space_of_head_behind {items : List Written} {ch : Char}
    (h : (behind items).head? = some ch) : ch = ' ' := by
  cases items with
  | nil => cases h
  | cons x items => exact (Option.some.inj h).symm

theorem head_textOf {items : List Written} {ch : Char} (h : (textOf items).toList.head? = some ch) :
    ch ≠ byteOrderMark ∧ ch ≠ '#' := by
  cases items with
  | nil => cases h
  | cons x items =>
    obtain ⟨first, rest, htext, hfirst⟩ := x.exists_head_text
    rw [toList_textOf_cons, htext] at h
    obtain rfl := Option.some.inj h
    have hmarks : ∀ mark ∈ Punctuator.all, (mark.text.toList.head?.all fun ch =>
        ch != byteOrderMark && ch != '#') = true := by
      decide
    rcases hfirst with hword | hdigit | ⟨mark, hmark, hhead⟩
    · exact ⟨fun heq => absurd (heq ▸ hword) (by decide +kernel),
        fun heq => absurd (heq ▸ hword) (by decide)⟩
    · exact ⟨fun heq => absurd (heq ▸ hdigit) (by decide),
        fun heq => absurd (heq ▸ hdigit) (by decide)⟩
    · have hfirst := hmarks mark hmark
      rw [hhead] at hfirst
      simpa using hfirst

end Written

open Written

/-- Behind a number nothing is reported where no word stands. -/
theorem leaveNumber_of_head {l : Lexer} (checked : Bool) (hl : l.cursor.inside = 0)
    (h : ∀ ch, l.cursor.rest.head? = some ch → ch = ' ') : l.leaveNumber checked = l := by
  have hword : l.cursor.char?.any isIdentifierStart = false := by
    rw [Cursor.char?, if_pos hl]
    cases hhead : l.cursor.rest.head? with
    | none => rfl
    | some ch =>
      rw [h ch hhead]
      decide
  cases checked with
  | false => rfl
  | true =>
    simp only [leaveNumber, if_true, checkAfterNumber, wordAfterNumber, hword, Bool.false_eq_true,
      if_false]
    rfl

theorem silent_readNext (x : Written) (tagged checked : Bool) {l : Lexer} {gap after : List Char}
    {d : Cursor} (hpart : l.cursor.Passes gap d) (hgap : ∀ ch ∈ gap, ch = ' ')
    (h : d.rest = x.text.toList ++ after) (hafter : ∀ ch, after.head? = some ch → ch = ' ') :
    let step := l.readNext ⟨.standard, tagged, checked⟩
    step.1.token = x.token ∧ step.1.value = x.value ∧ Silent l step.2 ∧
      d.Passes x.text.toList step.2.cursor := by
  have hword : ∀ ch, after.head? = some ch → isIdentifierPart ch = false := by
    intro ch hch
    obtain rfl := hafter ch hch
    decide
  have hd := hpart.inside_eq'
  cases x with
  | keyword word =>
    obtain ⟨stop, hpiece, hstop⟩ := pieceAt_keyword noLimit word hd h hword
    obtain ⟨htoken, hcursor, hsilent⟩ := silent_next hpart hgap hpiece
    simp only [readNext, readCurrent, htoken, hcursor]
    exact ⟨rfl, rfl, hsilent, hstop⟩
  | punctuator mark =>
    obtain ⟨stop, hpiece, hstop⟩ := pieceAt_punctuator_of_apart .standard mark hd h hafter
    obtain ⟨htoken, hcursor, hsilent⟩ := silent_next hpart hgap hpiece
    simp only [readNext, readCurrent, htoken, hcursor]
    exact ⟨rfl, rfl, hsilent, hstop⟩
  | identifier word =>
    have hpiece := pieceAt_freeWord .standard noLimit word hd h hword
    obtain ⟨htoken, hcursor, hsilent⟩ := silent_next hpart hgap hpiece
    rw [← hcursor] at hd h
    obtain ⟨next, htake, hnext, hstop⟩ := takeIdentifier_freeWord word hd h hword
    simp only [readNext, readCurrent, htoken, htake]
    exact ⟨rfl, rfl, hsilent.trans hnext, hcursor ▸ hstop⟩
  | integer value =>
    rw [toList_text_integer] at h ⊢
    obtain ⟨last, htoken, htake, hsilent, hstop⟩ :=
      takeInteger_text .standard .plain value hpart hgap h (.of_space hafter)
    have hleave : last.leaveNumber checked = last :=
      leaveNumber_of_head checked hstop.inside_eq' (hstop.rest_eq_of_append h ▸ hafter)
    simp only [readNext, readCurrent, htoken, htake, hleave]
    exact ⟨rfl, rfl, hsilent, hstop⟩

theorem silent_readNext_of_end {l : Lexer} (choice : Choice) (h : l.cursor.rest = []) :
    (l.readNext choice).1.token = .endOfText ∧ Silent l (l.readNext choice).2 := by
  obtain ⟨htoken, -, hnext⟩ := silent_next_of_end choice.handling h
  simp only [readNext, readCurrent, htoken]
  exact ⟨trivial, hnext⟩

/-- The text goes on with the items, or with the space in front of them. -/
structure Awaits (items : List Written) (l : Lexer) : Prop where
  inside_eq : l.cursor.inside = 0
  rest_eq : l.cursor.rest = (textOf items).toList ∨ l.cursor.rest = behind items

theorem Awaits.readNext {x : Written} {items : List Written} {l : Lexer}
    (h : Awaits (x :: items) l) (tagged checked : Bool) :
    let step := l.readNext ⟨.standard, tagged, checked⟩
    step.1.token = x.token ∧ step.1.value = x.value ∧ Silent l step.2 ∧ Awaits items step.2 := by
  obtain ⟨gap, d, hpart, hgap, hrest⟩ : ∃ gap d, l.cursor.Passes gap d ∧
      (∀ ch ∈ gap, ch = ' ') ∧ d.rest = x.text.toList ++ behind items := by
    rcases h.rest_eq with hrest | hrest
    · exact ⟨[], l.cursor, .refl h.inside_eq, by simp, hrest.trans (toList_textOf_cons x items)⟩
    · have hstep := Cursor.passes_skipChar
        (Cursor.char?_eq_some_iff.mpr ⟨h.inside_eq, x.text.toList ++ behind items, hrest⟩)
      exact ⟨[' '], _, hstep, by simp, hstep.rest_eq_of_append hrest⟩
  obtain ⟨htoken, hvalue, hsilent, hstop⟩ := silent_readNext x tagged checked hpart hgap hrest
    fun ch => eq_space_of_head_behind
  exact ⟨htoken, hvalue, hsilent, hstop.inside_eq', .inr (hstop.rest_eq_of_append hrest)⟩

theorem awaits_afterTokens {items : List Written} {l : Lexer} (h : Awaits items l)
    (tagged checked : Nat → Bool) {n : Nat} (hn : n ≤ items.length) :
    let last := l.afterTokens (fun i => ⟨.standard, tagged i, checked i⟩) n
    Silent l last ∧ Awaits (items.drop n) last := by
  induction n with
  | zero => exact ⟨⟨rfl, rfl, rfl⟩, h⟩
  | succ n ih =>
    obtain ⟨hsilent, hawaits⟩ := ih (by omega)
    rw [List.drop_eq_getElem_cons hn] at hawaits
    obtain ⟨-, -, hstep, hnext⟩ := hawaits.readNext (tagged n) (checked n)
    exact ⟨hsilent.trans hstep, hnext⟩

theorem awaits_new (source : SourceId) (items : List Written) (log : Diagnostic.Log) :
    Awaits items (Lexer.new source (textOf items) log) := by
  have hhead : ∀ ch, (textOf items).toList.head? = some ch → ch ≠ byteOrderMark ∧ ch ≠ '#' :=
    fun ch => head_textOf
  have hcursor := cursor_new_of_head source log hhead
  exact ⟨by rw [hcursor]; rfl, .inl (by rw [hcursor]; rfl)⟩

/-- A list of items that is written with single spaces between is read again as it is, up
to the end of the text, without a diagnostic or a comment. -/
theorem read_textOf (source : SourceId) (items : List Written) (log : Diagnostic.Log)
    (tagged checked : Nat → Bool) :
    let l := Lexer.new source (textOf items) log
    let choice : Nat → Choice := fun n => ⟨.standard, tagged n, checked n⟩
    let last := l.afterTokens choice (items.length + 1)
    ((List.range items.length).map fun n =>
        ((l.lexemeAt choice n).token, (l.lexemeAt choice n).value)) =
      items.map (fun x => (x.token, x.value)) ∧
    (l.lexemeAt choice items.length).token = .endOfText ∧
    last.log = log ∧ last.comments = #[] := by
  intro l choice last
  have hawaits := awaits_new source items log
  refine ⟨?_, ?_⟩
  · refine List.ext_getElem (by simp) fun n hn hn' => ?_
    rw [List.length_map] at hn'
    obtain ⟨-, hitem⟩ := awaits_afterTokens hawaits tagged checked (Nat.le_of_lt hn')
    rw [List.drop_eq_getElem_cons hn'] at hitem
    obtain ⟨htoken, hvalue, -, -⟩ := hitem.readNext (tagged n) (checked n)
    rw [List.getElem_map, List.getElem_map, List.getElem_range]
    exact Prod.ext htoken hvalue
  · obtain ⟨hsilent, hend⟩ := awaits_afterTokens hawaits tagged checked (Nat.le_refl _)
    rw [List.drop_length] at hend
    obtain ⟨htoken, hlast⟩ := silent_readNext_of_end
      ⟨.standard, tagged items.length, checked items.length⟩
      (hend.rest_eq.elim id id)
    have hall := hsilent.trans hlast
    exact ⟨htoken, hall.log_eq, hall.comments_eq⟩

example : textOf [.keyword .let_, .identifier ⟨"x", by decide, by decide⟩, .punctuator .assign,
    .integer 10] = "let x = 10" := by
  decide

end TypedScript.Lexer
