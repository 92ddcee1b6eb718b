import TypedScript.Proofs.Lexer.Maximal

/-! # Words are classified whole

Where an identifier begins, the scan looks at the whole word: the longest run of
characters of identifiers. If a keyword is spelled so, and the caller would have it as
a keyword, it is passed over. Every other word is left for its reader, which takes the
same word.
-/

namespace TypedScript.Lexer

open Text

variable {c stop : Cursor} {ch : Char} {word : List Char} {handling : WordHandling} {token : Token}

/-- Where it is spelled, the token is taken for the keyword that it is. -/
def TakesKeyword (handling : WordHandling) (token : Token) : Prop :=
  token.isKeyword = true ∧
    (handling = .standard ∨ handling = .preferIdentifier ∧ token.isSoftKeyword = false)

def behindWord (c : Cursor) : Cursor :=
  ⟨c.pos + byteSize (c.rest.takeWhile isIdentifierPart), c.rest.dropWhile isIdentifierPart, 0⟩

theorem head?_dropWhile (rest : List Char) :
    ∀ ch, (rest.dropWhile isIdentifierPart).head? = some ch → isIdentifierPart ch = false := by
  intro ch hch
  simpa [hch] using List.head?_dropWhile_not isIdentifierPart rest

/-- The two loops that look for the end of a word find the same one. -/
theorem passes_behindWord (hch : c.char? = some ch) (hstart : isIdentifierStart ch = true) :
    c.Passes (c.rest.takeWhile isIdentifierPart) (behindWord c) ∧
      c.skipChar.skipIdentifierRest = behindWord c := by
  obtain ⟨hc, rest, hrest⟩ := Cursor.char?_eq_some_iff.mp hch
  have hsplit : c.rest = c.rest.takeWhile isIdentifierPart ++ c.rest.dropWhile isIdentifierPart :=
    List.takeWhile_append_dropWhile.symm
  have hword : isWord (c.rest.takeWhile isIdentifierPart) = true := by
    rw [hrest, List.takeWhile_cons_of_pos (isIdentifierPart_of_isIdentifierStart hstart), isWord,
      hstart, List.all_takeWhile]
    rfl
  have hpart := passes_skipWord hc hsplit hword (head?_dropWhile c.rest)
  have hstop : c.skipChar.skipIdentifierRest = behindWord c :=
    hpart.eq_of_rest_eq (hpart.rest_eq_of_append hsplit)
  rw [hstop] at hpart
  exact ⟨hpart, hstop⟩

theorem textTo_behindWord (hch : c.char? = some ch) (hstart : isIdentifierStart ch = true) :
    c.textTo (behindWord c).pos = String.ofList (c.rest.takeWhile isIdentifierPart) :=
  (passes_behindWord hch hstart).1.textTo_eq

theorem wordAt_of_takesKeyword (hch : c.char? = some ch) (hstart : isIdentifierStart ch = true)
    (htoken : TakesKeyword handling token)
    (htext : token.text.toList = c.rest.takeWhile isIdentifierPart) :
    wordAt handling c = .token token (behindWord c) := by
  obtain ⟨hkeyword, hhandling⟩ := htoken
  cases token with
  | keyword k =>
    have hfound : Keyword.ofText? (String.ofList (c.rest.takeWhile isIdentifierPart)) = some k := by
      rw [← htext, String.ofList_toList]
      exact k.ofText?_text
    simp only [wordAt, (passes_behindWord hch hstart).2, textTo_behindWord hch hstart, hfound]
    rcases hhandling with rfl | ⟨rfl, hsoft⟩
    · rfl
    · exact if_neg (Bool.eq_false_iff.mp hsoft)
  | _ => cases hkeyword

theorem wordAt_of_forall_not (hch : c.char? = some ch) (hstart : isIdentifierStart ch = true)
    (h : ∀ token : Token, token.text.toList = c.rest.takeWhile isIdentifierPart →
      ¬ TakesKeyword handling token) :
    wordAt handling c = .token .identifier c := by
  simp only [wordAt, (passes_behindWord hch hstart).2, textTo_behindWord hch hstart]
  cases hfound : Keyword.ofText? (String.ofList (c.rest.takeWhile isIdentifierPart)) with
  | none => cases handling <;> rfl
  | some k =>
    have htext : (Token.keyword k).text.toList = c.rest.takeWhile isIdentifierPart := by
      rw [Token.text, Keyword.text_of_ofText? hfound, String.toList_ofList]
    have hnot := h (.keyword k) htext
    cases handling with
    | standard => exact absurd ⟨rfl, .inl rfl⟩ hnot
    | preferIdentifier =>
      refine if_pos ?_
      by_contra hsoft
      exact hnot ⟨rfl, .inr ⟨rfl, Bool.eq_false_iff.mpr hsoft⟩⟩
    | alwaysIdentifier => rfl

theorem scan_of_wordAt (limit : Nat) (hch : c.char? = some ch) (hstart : isIdentifierStart ch = true)
    (h : wordAt handling c = .token token stop) :
    scan handling limit c = ⟨token, c, stop, []⟩ := by
  refine scanFrom_of_token ?_
  unfold pieceAt
  rw [hch]
  exact (if_pos hstart).trans h

theorem takeIdentifier_eq {l : Lexer} (hch : l.cursor.char? = some ch)
    (hstart : isIdentifierStart ch = true) :
    l.takeIdentifier = (String.ofList (l.cursor.rest.takeWhile isIdentifierPart),
      { l with cursor := behindWord l.cursor }) := by
  rw [takeIdentifier, (passes_behindWord hch hstart).2, textTo_behindWord hch hstart]
  rfl

/-- At every place of a text where an identifier begins, and with every handling and limit,
a word that spells a keyword is that keyword, if it is to be taken for one, and is passed
over. Otherwise it is an identifier and not passed over, and its reader takes exactly the
word. A keyword is looked up by its text and by nothing else. -/
theorem scan_word (text : String) (n : Nat) (ch : Char) (handling : WordHandling) (limit : Nat)
    (hch : (Cursor.ofOffset text.toList n).char? = some ch) (hstart : isIdentifierStart ch = true) :
    let c := Cursor.ofOffset text.toList n
    let word := c.rest.takeWhile isIdentifierPart
    (slice? text.toList c.pos (behindWord c).pos = some word ∧
      ∀ next, (behindWord c).char? = some next → isIdentifierPart next = false) ∧
    (∀ token : Token, token.text.toList = word → TakesKeyword handling token →
      scan handling limit c = ⟨token, c, behindWord c, []⟩) ∧
    ((∀ token : Token, token.text.toList = word → ¬ TakesKeyword handling token) →
      scan handling limit c = ⟨.identifier, c, c, []⟩ ∧
      ∀ l : Lexer, l.cursor = c →
        l.takeIdentifier = (String.ofList word, { l with cursor := behindWord c })) ∧
    ∀ (s : String) (token : Token),
      (Keyword.ofText? s).map .keyword = some token ↔ token.isKeyword = true ∧ token.text = s := by
  intro c word
  have hc : c.Stands text.toList False := (Cursor.stands_into [] n text.toList).1
  refine ⟨⟨slice?_of_passes hc (passes_behindWord hch hstart).1, ?_⟩, ?_, ?_, ?_⟩
  · intro next hnext
    exact head?_dropWhile c.rest next hnext
  · intro token htext htoken
    exact scan_of_wordAt limit hch hstart (wordAt_of_takesKeyword hch hstart htoken htext)
  · intro hnone
    refine ⟨scan_of_wordAt limit hch hstart (wordAt_of_forall_not hch hstart hnone), ?_⟩
    intro l hl
    have hread := takeIdentifier_eq (hl ▸ hch : l.cursor.char? = some ch) hstart
    rwa [hl] at hread
  · intro s token
    rw [Option.map_eq_some_iff]
    constructor
    · rintro ⟨k, hk, rfl⟩
      exact ⟨rfl, Keyword.text_of_ofText? hk⟩
    · rintro ⟨hkeyword, htext⟩
      cases token with
      | keyword k => exact ⟨k, Keyword.ofText?_eq_some_iff.mpr htext, rfl⟩
      | _ => cases hkeyword

theorem scan_word_soft :
    let c := Cursor.ofOffset "é from=".toList 3
    scan .standard 1 c = ⟨.keyword .from_, c, ⟨7, ['='], 0⟩, []⟩ ∧
      scan .preferIdentifier noLimit c = ⟨.identifier, c, c, []⟩ ∧
      ∀ l : Lexer, l.cursor = c →
        l.takeIdentifier = ("from", { l with cursor := ⟨7, ['='], 0⟩ }) := by
  intro c
  have hch : c.char? = some 'f' := by decide +kernel
  have hword : c.rest.takeWhile isIdentifierPart = "from".toList := by decide +kernel
  have hbehind : behindWord c = ⟨7, ['='], 0⟩ := by decide +kernel
  obtain ⟨-, hkeyword, -, -⟩ := scan_word "é from=" 3 'f' .standard 1 hch (by decide)
  obtain ⟨-, -, hfree, -⟩ := scan_word "é from=" 3 'f' .preferIdentifier noLimit hch (by decide)
  have hsoft : ∀ token : Token, token.text.toList = c.rest.takeWhile isIdentifierPart →
      ¬ TakesKeyword .preferIdentifier token := by
    rintro token htext ⟨htoken, hhandling⟩
    rw [hword] at htext
    cases token with
    | keyword k =>
      have hfrom : Keyword.ofText? "from" = some k :=
        Keyword.ofText?_eq_some_iff.mpr (String.toList_injective htext)
      rw [show Keyword.ofText? "from" = some .from_ by decide +kernel] at hfrom
      cases hfrom
      rcases hhandling with hhandling | ⟨-, hhandling⟩ <;> cases hhandling
    | _ => cases htoken
  obtain ⟨hscan, hread⟩ := hfree hsoft
  rw [← hbehind]
  exact ⟨hkeyword (.keyword .from_) hword.symm ⟨rfl, .inl rfl⟩, hscan, fun l hl => by
    rw [hread l hl, hword, String.ofList_toList]⟩

end TypedScript.Lexer
