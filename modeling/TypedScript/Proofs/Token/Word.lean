import TypedScript.Text.Character
import TypedScript.Token.Keyword

/-! # Words

A word has the form of an identifier. Each keyword is a word, and no two keywords are
spelled alike. A free word is no keyword, so it can be nothing but an identifier.
-/

namespace TypedScript

open Text

def isWord : List Char → Bool
  | [] => false
  | first :: rest => isIdentifierStart first && rest.all isIdentifierPart

theorem exists_of_isWord {word : List Char} (h : isWord word = true) :
    ∃ first rest, word = first :: rest ∧ isIdentifierStart first = true ∧
      ∀ ch ∈ rest, isIdentifierPart ch = true := by
  cases word with
  | nil => cases h
  | cons first rest =>
    rw [isWord, Bool.and_eq_true, List.all_eq_true] at h
    exact ⟨first, rest, rfl, h⟩

structure FreeWord where
  text : String
  isWord : isWord text.toList = true
  isFree : Keyword.ofText? text = none

namespace Keyword

theorem mem_all (word : Keyword) : word ∈ all := by
  cases word <;> decide

theorem isWord_text (word : Keyword) : isWord word.text.toList = true := by
  have hall : ∀ word ∈ all, isWord word.text.toList = true := by
    decide +kernel
  exact hall word (mem_all word)

theorem ofText?_text (word : Keyword) : ofText? word.text = some word := by
  have hall : ∀ word ∈ all, ofText? word.text = some word := by
    decide +kernel
  exact hall word (mem_all word)

theorem text_eq_of_mem_ofLength (n : Nat) : ∀ entry ∈ ofLength n, entry.2.text = entry.1 := by
  unfold ofLength
  split <;> decide

theorem text_of_ofText? {text : String} {word : Keyword} (h : ofText? text = some word) :
    word.text = text := by
  unfold ofText? at h
  dsimp only at h
  split at h
  · obtain ⟨before, after, htable, -⟩ := List.lookup_eq_some_iff.mp h
    have hmem : (text, word) ∈ ofLength text.utf8ByteSize := by
      rw [htable]
      exact List.mem_append_right before List.mem_cons_self
    exact text_eq_of_mem_ofLength _ _ hmem
  · cases h

/-- The table by lengths and the texts of the keywords say the same. -/
theorem ofText?_eq_some_iff {text : String} {word : Keyword} :
    ofText? text = some word ↔ word.text = text :=
  ⟨text_of_ofText?, fun h => h ▸ word.ofText?_text⟩

end Keyword

end TypedScript
