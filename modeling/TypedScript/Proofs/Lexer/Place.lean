import TypedScript.Proofs.Lexer.Session

/-! # A place is known by its offset

A cursor that is not behind the whole of its first character is the only one of its
offset in the text. Readers and scans stop at such cursors if they begin at one, so in
every session the offset of a lexer, cut to the end of the text, gives its place back.
-/

namespace TypedScript

namespace Text.Cursor

/-- The first character of what is left is not wholly behind the cursor. -/
def Proper (c : Cursor) : Prop :=
  c.inside = 0 ∨ c.inside < byteSize (c.rest.take 1)

variable {c d : Cursor}

theorem Reaches.proper (h : c.Reaches d) : d.Proper :=
  .inl h.inside_eq

theorem proper_into (pos n : Nat) (rest : List Char) : (into pos n rest).Proper := by
  induction rest generalizing pos n with
  | nil => exact .inl rfl
  | cons ch rest ih =>
    unfold into
    split
    · exact .inr (by simpa)
    · exact ih _ _

theorem proper_advance (c : Cursor) (n : Nat) : (c.advance n).Proper :=
  proper_into _ _ _

theorem proper_skipChars (h : c.Proper) (p : Char → Bool) : (c.skipChars p).Proper := by
  unfold skipChars
  split
  · exact .inl rfl
  · exact h

theorem into_append (pos n : Nat) (before rest : List Char) :
    into pos (byteSize before + n) (before ++ rest) = into (pos + byteSize before) n rest := by
  induction before generalizing pos with
  | nil => simp
  | cons ch before ih =>
    have hsub : ch.utf8Size + byteSize before + n - ch.utf8Size = byteSize before + n := by
      omega
    rw [List.cons_append, into, byteSize_cons, if_neg (by omega), hsub, ih, Nat.add_assoc]

theorem into_of_lt {pos n : Nat} {rest : List Char} (h : n = 0 ∨ n < byteSize (rest.take 1)) :
    into pos n rest = ⟨pos + n, rest, n⟩ := by
  cases rest with
  | nil =>
    obtain rfl : n = 0 := by simpa using h
    rfl
  | cons ch rest =>
    have hpos := ch.utf8Size_pos
    have hlt : n < ch.utf8Size := by
      rcases h with rfl | h
      · exact hpos
      · simpa using h
    rw [into, if_pos hlt]

theorem ofOffset_pos {text : List Char} {whole : Prop} (h : c.Stands text whole)
    (hc : c.Proper) : ofOffset text c.pos = c := by
  obtain ⟨before, htext, hpos⟩ := h.split
  rw [ofOffset, htext, hpos, into_append, into_of_lt hc, Nat.zero_add, ← hpos]

theorem ofOffset_of_onEdge {text : List Char} {n : Nat} (h : OnEdge text n) :
    (ofOffset text n).inside = 0 ∧ (ofOffset text n).pos = n := by
  obtain ⟨before, after, rfl, rfl⟩ := h
  rw [ofOffset, into_byteSize]
  exact ⟨rfl, Nat.zero_add _⟩

theorem not_onEdge {text : List Char} {whole : Prop} (h : c.Stands text whole)
    (hc : c.Proper) (hinside : c.inside ≠ 0) :
    ¬ OnEdge text c.pos := by
  obtain ⟨before, htext, hpos⟩ := h.split
  rintro ⟨before', after, htext', hsize⟩
  have hlt := hc.resolve_left hinside
  rcases List.append_eq_append_iff.mp (htext.symm.trans htext') with
    ⟨part, rfl, hrest⟩ | ⟨part, rfl, -⟩
  · rw [byteSize_append] at hsize
    -- The part from one edge to the other would be shorter than its first character.
    cases part with
    | nil =>
      rw [byteSize_nil] at hsize
      omega
    | cons ch part =>
      rw [hrest, List.cons_append, List.take_succ_cons, List.take_zero, byteSize_cons,
        byteSize_nil] at hlt
      rw [byteSize_cons] at hsize
      omega
  · rw [byteSize_append] at hpos
    omega

theorem textTo_eq_slice {text : List Char} {whole : Prop} (h : c.Stands text whole)
    (hc : c.Proper) (stop : Nat) :
    c.textTo stop = slice text c.pos stop := by
  by_cases hinside : c.inside = 0
  · obtain ⟨before, htext, hpos⟩ := h.split
    rw [hinside, Nat.add_zero] at hpos
    have hdrop : dropBytes? c.pos text = some c.rest :=
      dropBytes?_eq_some_iff.mpr ⟨before, htext, hpos.symm⟩
    rw [textTo, slice, slice?, hdrop, Option.bind_some]
    by_cases hle : c.pos ≤ stop
    · simp [hinside, hle]
    · simp [hle]
  · have hdrop : dropBytes? c.pos text = none := by
      rw [← Option.not_isSome_iff_eq_none, ← OnEdge.iff_isSome_dropBytes?]
      exact not_onEdge h hc hinside
    simp [textTo, slice, slice?, hdrop, hinside]

end Text.Cursor

namespace Lexer

open Text Diagnostic

variable {c : Cursor}

theorem chars_of_inside_ne (hc : c.inside ≠ 0) : c.chars = [] ∧ c.char? = none :=
  ⟨if_neg hc, if_neg hc⟩

theorem proper_readInteger (h : c.Proper) : (readInteger c).stop.Proper := by
  by_cases hc : c.inside = 0
  · exact (beginsAt_readInteger hc).reaches.proper
  · unfold readInteger
    rw [(chars_of_inside_ne hc).1]
    exact Cursor.proper_skipChars h _

theorem proper_readFloat (h : c.Proper) : (readFloat c).stop.Proper := by
  by_cases hc : c.inside = 0
  · exact (beginsAt_readFloat hc).reaches.proper
  · have hskip : ∀ p, c.skipChars p = c := fun p => if_neg hc
    simp only [readFloat, skipFloatRun, hskip, skipFraction, skipExponent,
      (chars_of_inside_ne hc).2, reduceCtorEq, if_false, Option.any_none, Bool.false_eq_true]
    exact h

theorem proper_readEscape (tagged : Bool) (c : Cursor) : (readEscape tagged c).stop.Proper := by
  unfold readEscape
  simp only
  split
  · exact c.proper_advance 1
  · rename_i ch hch
    have hskip := Cursor.passes_skipChar hch
    exact (reaches_readEscapeAfter tagged c ch hskip.inside_eq').proper

theorem proper_readBody (quote : UInt8) (tagged : Bool) (pieces : List (Reading String))
    (run : Cursor) (h : c.Proper) : (readBody quote tagged pieces run c).stop.Proper := by
  fun_induction readBody quote tagged pieces run c with
  | case1 => exact h
  | case2 pieces run c hend hslash escape hlt ih => exact ih (proper_readEscape tagged c)
  | case3 pieces run c hend hslash hlt ih => exact ih (c.proper_advance _)

theorem proper_readQuoted (quote? : Option UInt8) (tagged : Bool) (h : c.Proper) :
    (readQuoted quote? tagged c).stop.Proper := by
  have hstart : (if quote?.isNone then c.advance 1 else c).Proper := by
    split
    · exact c.proper_advance 1
    · exact h
  have hstop := proper_readBody (quote?.getD c.byte) tagged []
    (if quote?.isNone then c.advance 1 else c) hstart
  simp only [readQuoted, Body.after]
  split
  · exact Cursor.proper_advance _ 1
  · exact Cursor.proper_advance _ 2
  · exact hstop
  · exact hstop

theorem proper_pieceAt (handling : WordHandling) (limit : Nat) (hend : c.atEnd = false) :
    (pieceAt handling limit c).next.Proper := by
  by_cases hc : c.inside = 0
  · cases hpiece : pieceAt handling limit c with
    | skipped what next => exact (covers_pieceAt hc hend hpiece).reaches.proper
    | token token stop => exact ((found_pieceAt hc hpiece).reaches hc).proper
  · rw [pieceAt, (chars_of_inside_ne hc).2]
    exact c.proper_advance _

theorem proper_scanFrom (handling : WordHandling) (limit : Nat) (skipped : List Skipped)
    (h : c.Proper) : (scanFrom handling limit skipped c).stop.Proper := by
  fun_induction scanFrom handling limit skipped c with
  | case1 => exact h
  | case2 skipped c hend token stop hpiece =>
    have hnext := proper_pieceAt handling limit (by simpa using hend : c.atEnd = false)
    rwa [hpiece] at hnext
  | case3 skipped c hend what next hpiece hlt ih =>
    have hnext := proper_pieceAt handling limit (by simpa using hend : c.atEnd = false)
    rw [hpiece] at hnext
    exact ih hnext

theorem proper_skip {l : Lexer} (h : l.cursor.Proper) (token : Token) (handling : WordHandling) :
    (l.skip token handling).2.cursor.Proper := by
  by_cases hfound : (scan handling (limitFor token) l.cursor).token = token
  · rw [skip_of_token_eq hfound]
    exact proper_scanFrom _ _ _ h
  · rw [skip_of_token_ne hfound]
    exact h

theorem proper_apply {l : Lexer} (h : l.cursor.Proper) (op : Operation) :
    (op.apply l).2.cursor.Proper := by
  cases op with
  | next handling => exact proper_scanFrom _ _ _ h
  | peek noteNewLine handling limit =>
    simp only [Operation.apply, Prod.map_snd, id_eq, cursor_peek]
    exact h
  | skip token handling => exact proper_skip h token handling
  | identifier => exact Cursor.proper_skipChars (l.cursor.proper_advance _) _
  | string quote? tagged => exact proper_readQuoted quote? tagged h
  | escape tagged => exact proper_readEscape tagged l.cursor
  | integer => exact proper_readInteger h
  | float => exact proper_readFloat h
  | pattern => exact (reaches_patternEnd _ _ _).proper
  | flags => exact Cursor.proper_skipChars h _
  | afterNumber => exact h

namespace Session

structure Proper (s : Session) : Prop where
  lexer : s.lexer.cursor.Proper
  marks : ∀ m ∈ s.marks, m.cursor.Proper

theorem proper_new (source : SourceId) (text : String) (log : Log) :
    (Session.new source text log).Proper where
  lexer := .inl (endPos_new source text log).1
  marks := by simp [Session.new]

theorem Proper.act {s : Session} (h : s.Proper) (a : Action) : (s.act a).Proper := by
  cases a with
  | perform op => exact ⟨proper_apply h.lexer op, h.marks⟩
  | mark =>
    refine ⟨h.lexer, fun m hm => ?_⟩
    rcases List.mem_append.mp hm with hm | hm
    · exact h.marks m hm
    · obtain rfl := List.mem_singleton.mp hm
      exact h.lexer
  | reset i =>
    refine ⟨?_, h.marks⟩
    cases hm : s.marks[i]? with
    | none => simpa [Session.act, hm] using h.lexer
    | some m =>
      simp only [Session.act, hm]
      exact h.marks m (List.mem_of_getElem? hm)

theorem Proper.run {s : Session} (h : s.Proper) (actions : List Action) :
    (s.run actions).Proper := by
  induction actions generalizing s with
  | nil => exact h
  | cons a actions ih => exact ih (h.act a)

theorem stands_run (source : SourceId) (text : String) (log : Log) (actions : List Action) :
    let l := ((Session.new source text log).run actions).lexer
    l.cursor.Stands text.toList False ∧ Cursor.ofOffset text.toList l.pos = l.cursor := by
  intro l
  have hstart : (Session.new source text log).Sound text.toList False :=
    ⟨placed_new source text log False, by simp [Session.new]⟩
  obtain ⟨⟨hl, -⟩, -⟩ := hstart.run actions False.elim
  exact ⟨hl.cursor, Cursor.ofOffset_pos hl.cursor
    ((proper_new source text log).run actions).lexer⟩

end Session

end Lexer

end TypedScript
