import TypedScript.Proofs.Lexer.Escapes

/-! # Strings written out

A string may be written with each of its characters as it is or as an escape, and with line
continuations anywhere. However it is written, it is read back, and the raw form of it is
what is written.
-/

namespace TypedScript.Lexer

open Text

inductive Quote where
  | single | double

namespace Quote

def char : Quote → Char
  | .single => '\x27'
  | .double => '\x22'

def byte (q : Quote) : UInt8 :=
  .ofNat q.char.toNat

end Quote

inductive Part (q : Quote) where
  | plain (ch : Char) (h : ch ≠ q.char ∧ ch ≠ '\\' ∧ isLineBreak ch = false)
  | escape (e : Escape)

namespace Part

variable {q : Quote}

def text : Part q → List Char
  | .plain ch _ => [ch]
  | .escape e => e.text

def meant : Part q → List Char
  | .plain ch _ => [ch]
  | .escape e => e.meant

def textOf (parts : List (Part q)) : List Char :=
  parts.flatMap text

def meantBy (parts : List (Part q)) : List Char :=
  parts.flatMap meant

end Part

variable {q : Quote} {c : Cursor} {ch : Char} {after : List Char} {parts : List (Part q)}

theorem byte_eq_quote_iff (h : c.char? = some ch) : c.byte = q.byte ↔ ch = q.char :=
  Cursor.byte_eq_iff h (by cases q <;> decide)

theorem bodyEndAt?_of_quote (h : c.char? = some ch) : bodyEndAt? q.byte c =
    if ch = q.char then some .quote
    else if ch = '\\' then none
    else if isLineBreak ch = true then some .lineBreak else none := by
  have hbacktick : q.byte ≠ backtick := by
    cases q <;> decide
  unfold bodyEndAt?
  simp only [atEnd_of_char? h, byte_eq_quote_iff h, h, hbacktick, Option.some.injEq,
    Option.any_some, Bool.false_eq_true, if_false]

/-- No part begins with a line feed, nor does what closes the string. -/
theorem head?_textOf_ne : (Part.textOf parts ++ q.char :: after).head? ≠ some '\n' := by
  intro hfeed
  cases parts with
  | nil => cases q <;> cases hfeed
  | cons x parts =>
    rw [Part.textOf, List.flatMap_cons, List.append_assoc, List.head?_append] at hfeed
    cases x with
    | plain ch hch =>
      obtain rfl := Option.some.inj hfeed
      exact absurd hch.2.2 (by decide)
    | escape e =>
      rw [Part.text, e.head?_text] at hfeed
      cases hfeed

theorem spells_parts (parts : List (Part q)) (hc : c.inside = 0)
    (h : c.rest = Part.textOf parts ++ q.char :: after) :
    ∃ d, Spells q.byte false c (Part.textOf parts) (Part.meantBy parts) d := by
  -- What follows a part is again parts and the quote, which never begin with a line feed.
  induction parts generalizing c with
  | nil => exact ⟨c, .done hc⟩
  | cons x parts ih =>
    rw [Part.textOf, List.flatMap_cons, List.append_assoc] at h
    rw [Part.textOf, Part.meantBy, List.flatMap_cons, List.flatMap_cons]
    cases x with
    | plain ch hch =>
      have hplain : c.char? = some ch := Cursor.char?_eq_some_iff.mpr ⟨hc, _, h⟩
      have hstep := Cursor.passes_skipChar hplain
      have hnone : bodyEndAt? q.byte c = none := by
        rw [bodyEndAt?_of_quote hplain, if_neg hch.1, if_neg hch.2.1, if_neg (by simp [hch.2.2])]
      obtain ⟨d, hmore⟩ := ih hstep.inside_eq' (hstep.rest_eq_of_append h)
      exact ⟨d, .plain hnone hplain hch.2.1 hmore⟩
    | escape e =>
      have hslash : c.char? = some '\\' := by
        rw [Cursor.char?, if_pos hc, h, List.head?_append, Part.text, e.head?_text]
        rfl
      have hnone : bodyEndAt? q.byte c = none := by
        rw [bodyEndAt?_of_quote hslash, if_neg (by cases q <;> decide), if_pos rfl]
      obtain ⟨stop, hread, hpart⟩ := readEscape_text e hc h head?_textOf_ne
      obtain ⟨d, hmore⟩ := ih hpart.inside_eq' (hpart.rest_eq_of_append h)
      exact ⟨d, .escape hnone hslash hread hpart hmore⟩

/-- A string is taken as what is meant, from its quote up to behind the closing one, with what is
written as its raw form and nothing to report. -/
theorem takeString_textOf (q : Quote) (parts : List (Part q)) {l : Lexer} {pos : Nat}
    (h : l.cursor = ⟨pos, q.char :: Part.textOf parts ++ q.char :: after, 0⟩) :
    let last := (l.takeString none false).2
    (l.takeString none false).1 = String.ofList (Part.meantBy parts) ∧
      last.rawString = String.ofList (Part.textOf parts) ∧
      last.cursor = ⟨pos + byteSize (q.char :: Part.textOf parts ++ [q.char]), after, 0⟩ ∧
      last.log = l.log ∧ last.comments = l.comments := by
  have hopen : l.cursor.char? = some q.char := by
    rw [h]
    rfl
  have hone : q.char.utf8Size = 1 := by
    cases q <;> rfl
  have hbyte : l.cursor.byte = q.byte := (byte_eq_quote_iff hopen).mpr rfl
  have hstart := Cursor.passes_advance_one hopen hone
  have hinner : (l.cursor.advance 1).rest = Part.textOf parts ++ q.char :: after :=
    hstart.rest_eq_of_append (by rw [h]; rfl)
  obtain ⟨d, hspells⟩ := spells_parts parts hstart.inside_eq' hinner
  have hpart := hspells.passes
  have hrest := hpart.rest_eq_of_append hinner
  have hclose : d.char? = some q.char :=
    Cursor.char?_eq_some_iff.mpr ⟨hpart.inside_eq', after, hrest⟩
  have hend : bodyEndAt? q.byte d = some .quote := by
    rw [bodyEndAt?_of_quote hclose, if_pos rfl]
  rw [← hbyte] at hspells hend
  obtain ⟨next, htake, hsilent, hraw, -, hcursor⟩ :=
    takeString_of_spells none rfl hspells hend (.inl rfl)
  have hquote := Cursor.passes_advance_one hclose hone
  have hall := (hstart.trans hpart).trans hquote
  intro last
  have hlast : last = next := congrArg Prod.snd htake
  rw [hlast]
  refine ⟨congrArg Prod.fst htake, hraw, ?_, hsilent.log_eq, hsilent.comments_eq⟩
  have hpos : l.cursor.pos = pos := by
    rw [h]
  rw [hcursor, ← hpos]
  exact hall.eq_of_rest_eq (hquote.rest_eq_of_append hrest)

theorem takeString_textOf_escapes :
    let parts : List (Part .single) :=
      [.plain '\x22' (by decide), .escape (.letter ('n', '\n') (by decide)),
        .escape (.itself 'q' (by decide)), .escape (.hex 'é' (fun _ => true) (by decide)),
        .escape (.unit '€' (fun _ => false) (by decide)),
        .escape (.continuation ['\r'] (by decide)),
        .escape (.pair '😀' (fun _ => true) (fun _ => false) (by decide)),
        .escape (.braced 'A' 3 (fun _ => false))]
    let text := "'\"\\n\\q\\xE9\\u20ac\\\r\\uD83D\\ude00\\u\x7b00041\x7d';"
    let l := Lexer.new 0 text .empty
    let last := (l.takeString none false).2
    l.cursor = ⟨0, '\x27' :: Part.textOf parts ++ ['\x27', ';'], 0⟩ ∧
      (l.takeString none false).1 = "\"\nqé€😀A" ∧
      String.ofList ('\x27' :: last.rawString.toList ++ ['\x27', ';']) = text ∧
      last.cursor = ⟨40, [';'], 0⟩ ∧ last.log = .empty := by
  intro parts text l last
  have htext : text.toList = '\x27' :: Part.textOf parts ++ ['\x27', ';'] := by decide
  have hcursor : l.cursor = ⟨0, '\x27' :: Part.textOf parts ++ ['\x27', ';'], 0⟩ := by
    rw [← htext]
    refine cursor_new_of_head 0 .empty fun ch hch => ?_
    obtain rfl := Option.some.inj (hch.symm.trans (congrArg List.head? htext))
    decide
  obtain ⟨hvalue, hraw, hstop, hlog, -⟩ := takeString_textOf .single parts hcursor
  refine ⟨hcursor, hvalue, ?_, hstop, hlog⟩
  rw [hraw, String.toList_ofList, ← htext, String.ofList_toList]

end TypedScript.Lexer
