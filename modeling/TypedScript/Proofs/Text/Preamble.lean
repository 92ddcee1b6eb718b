import TypedScript.Proofs.Text.Passage

/-! # The preamble of a text

The preamble is a byte order mark, if there is one, and a `#!` line up to its line feed.
What is behind it is said of the characters of the text alone; the cursor that skips the
preamble stands there.
-/

namespace TypedScript.Text

def afterMark (text : List Char) : List Char :=
  if text.head? = some byteOrderMark then text.tail else text

def afterPreamble (text : List Char) : List Char :=
  if ['#', '!'] <+: afterMark text then (afterMark text).dropWhile (· != '\n') else afterMark text

theorem afterPreamble_eq_self {text : List Char}
    (h : ∀ ch, text.head? = some ch → ch ≠ byteOrderMark ∧ ch ≠ '#') :
    afterPreamble text = text := by
  have hmark : afterMark text = text := if_neg fun hhead => (h _ hhead).1 rfl
  rw [afterPreamble, hmark]
  refine if_neg ?_
  rintro ⟨rest, rfl⟩
  exact (h '#' rfl).2 rfl

namespace Cursor

variable {c : Cursor}

theorem reaches_afterMark (hc : c.inside = 0) :
    let d := if c.char? = some byteOrderMark then c.skipChar else c
    c.Reaches d ∧ d.rest = afterMark c.rest := by
  have hchar : c.char? = c.rest.head? := if_pos hc
  intro d
  by_cases h : c.char? = some byteOrderMark
  · have hpart := passes_skipChar h
    have hd : d = c.skipChar := if_pos h
    rw [hd, afterMark, if_pos (hchar ▸ h), hpart.rest_eq]
    exact ⟨hpart.reaches, rfl⟩
  · have hd : d = c := if_neg h
    rw [hd, afterMark, if_neg (hchar ▸ h)]
    exact ⟨.refl hc, rfl⟩

theorem reaches_skipPreamble (hc : c.inside = 0) :
    c.Reaches c.skipPreamble ∧ c.skipPreamble.rest = afterPreamble c.rest := by
  obtain ⟨hmark, hrest⟩ := reaches_afterMark hc
  unfold skipPreamble
  generalize (if c.char? = some byteOrderMark then c.skipChar else c) = d at hmark hrest
  have hd := hmark.inside_eq
  rw [afterPreamble, ← hrest]
  simp only
  split
  · rename_i hprefix
    obtain ⟨line, hline⟩ := isPrefixOf_chars hd hprefix
    have htwo := passes_advance_two hd hline rfl rfl
    have hskip := passes_skipLine htwo.inside_eq'
    have hbody : (d.advance 2).rest = line := htwo.rest_eq_of_append hline
    rw [if_pos (hline ▸ ⟨line, rfl⟩), hline]
    refine ⟨hmark.trans (htwo.reaches.trans hskip.reaches), ?_⟩
    rw [skipLine, toEdge_of_inside_eq htwo.inside_eq', skipChars, if_pos htwo.inside_eq', hbody]
    rfl
  · rename_i hprefix
    rw [chars, if_pos hd, List.isPrefixOf_iff_prefix] at hprefix
    rw [if_neg hprefix]
    exact ⟨hmark, rfl⟩

end Cursor

end TypedScript.Text
