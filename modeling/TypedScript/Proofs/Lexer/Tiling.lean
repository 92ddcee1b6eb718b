import TypedScript.Proofs.Lexer.Advance

/-! # Texts are tiled

A run over a text lays tiles from the end of the preamble to the end of the text: the
lexemes it takes, what is blank, the comments that it hands over, and the characters
that it reports. Nothing is left out and nothing is laid twice, whatever the caller
chooses for a token.
-/

namespace TypedScript.Lexer

open Text Diagnostic

/-- A run takes lexemes up to the end of the text. Together with what is skipped between
them they cover the text behind its preamble without gap and overlap. Every comment comes
once; of the faults that are reported, those of the scan are the characters that begin no
token, and the block comment that is not closed, behind which there is nothing. -/
theorem exists_tiles_of_text (source : SourceId) (text : String) (choice : Nat → Choice) :
    let l := Lexer.new source text .empty
    ∃ n preamble tiles,
      (∀ k < n, (l.lexemeAt choice k).token ≠ .endOfText) ∧
      (l.lexemeAt choice n).token = .endOfText ∧
      text.toList = preamble ++ afterPreamble text.toList ∧
      Covers ⟨byteSize preamble, afterPreamble text.toList, 0⟩ tiles
        ⟨byteSize text.toList, [], 0⟩ ∧
      tiles.filterMap Tile.lexeme? = (List.range n).map (l.lexemeAt choice) ∧
      (l.afterTokens choice (n + 1)).comments.toList = tiles.filterMap (Tile.comment? source) ∧
      (l.afterTokens choice (n + 1)).log.messages.toList.filter (·.code.isOfScan) =
        tiles.filterMap (Tile.fault? source) ∧
      ∀ before after start stop,
        tiles = before ++ .skipped (.openComment start stop) :: after → after = [] := by
  intro l
  obtain ⟨preamble, htext, hcursor⟩ := cursor_new source text .empty
  have hl : l.cursor.inside = 0 := by rw [hcursor]
  obtain ⟨n, hend, hbefore⟩ := exists_endOfText choice hl
  obtain ⟨tiles, hadv, hlexemes⟩ := advances_afterTokens hl hbefore
  obtain ⟨hlast, hrest⟩ : _ ∧ (l.afterTokens choice (n + 1)).cursor.rest = [] :=
    advances_of_endOfText (l.afterTokens choice n) (choice n) hadv.covers.reaches.inside_eq hend
  have hall : Advances l _ (l.afterTokens choice (n + 1)) := hadv.trans hlast
  have hcovers := hall.covers
  rw [hcursor] at hcovers
  obtain ⟨part, hpart⟩ := hcovers.reaches
  have hstop := hpart.eq_of_rest_eq hrest
  have hpart : afterPreamble text.toList = part := by
    simpa [hrest] using hpart.rest_eq
  rw [← byteSize_append, ← hpart, ← htext] at hstop
  obtain ⟨ms, hlog, hms⟩ := hall.log_eq
  refine ⟨n, preamble, _, hbefore, hend, htext, hstop ▸ hcovers, ?_, ?_, ?_, ?_⟩
  · rw [List.filterMap_append, hlexemes, filterMap_lexeme?, List.append_nil]
  · rw [hall.comments_eq]
    rfl
  · rw [hlog, Log.filter_messages_pushAll, hms]
    · rfl
    · rw [hms]
      exact hcovers.pairwise_fault? _
    · rintro m - - x hx
      cases hx
  · intro before after start stop htiles
    exact hcovers.eq_nil_of_openComment htiles

end TypedScript.Lexer
