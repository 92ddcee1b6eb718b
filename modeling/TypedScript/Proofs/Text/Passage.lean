import TypedScript.Text.Cursor

/-! # Passages between edges of characters

A passage leads from one cursor to another over whole characters. Passages are put
together end to end, and each movement of a cursor that stands on the edge of a
character is one, over characters that the movement decides. The text of a passage is
what a cursor gives as the text up to its end.
-/

namespace TypedScript.Text

theorem takeWhile_eq_nil {p : Char → Bool} {after : List Char}
    (h : ∀ ch, after.head? = some ch → p ch = false) : after.takeWhile p = [] := by
  cases after with
  | nil => rfl
  | cons ch after => exact List.takeWhile_cons_of_neg (by simp [h ch rfl])

theorem span_run_append {p : Char → Bool} {run after : List Char} (hrun : ∀ ch ∈ run, p ch = true)
    (hafter : ∀ ch, after.head? = some ch → p ch = false) :
    (run ++ after).takeWhile p = run ∧ (run ++ after).dropWhile p = after := by
  have hnone := takeWhile_eq_nil hafter
  have hall : after.dropWhile p = after := by
    rw [← List.nil_append (after.dropWhile p), ← hnone, List.takeWhile_append_dropWhile]
  rw [List.takeWhile_append_of_pos hrun, List.dropWhile_append_of_pos hrun, hnone, hall,
    List.append_nil]
  exact ⟨rfl, rfl⟩

namespace Cursor

/-- From `c` to `d` stand the characters `part`, and both cursors are on the edge of a
character. -/
structure Passes (c : Cursor) (part : List Char) (d : Cursor) : Prop where
  inside_eq : c.inside = 0
  inside_eq' : d.inside = 0
  rest_eq : c.rest = part ++ d.rest
  pos_eq : d.pos = c.pos + byteSize part

namespace Passes

variable {c d e : Cursor} {part more : List Char}

theorem refl (h : c.inside = 0) : c.Passes [] c :=
  ⟨h, h, rfl, rfl⟩

theorem trans (h : c.Passes part d) (h' : d.Passes more e) : c.Passes (part ++ more) e where
  inside_eq := h.inside_eq
  inside_eq' := h'.inside_eq'
  rest_eq := by rw [h.rest_eq, h'.rest_eq, List.append_assoc]
  pos_eq := by rw [h'.pos_eq, h.pos_eq, byteSize_append, Nat.add_assoc]

theorem pos_le (h : c.Passes part d) : c.pos ≤ d.pos :=
  h.pos_eq ▸ Nat.le_add_right _ _

theorem pos_lt (h : c.Passes part d) (hne : part ≠ []) : c.pos < d.pos := by
  rw [h.pos_eq]
  exact Nat.lt_add_of_pos_right (byteSize_pos_of_ne_nil hne)

theorem eq_of_rest_eq {rest : List Char} (h : c.Passes part d) (hrest : d.rest = rest) :
    d = ⟨c.pos + byteSize part, rest, 0⟩ := by
  obtain ⟨-, hd, -, hpos⟩ := h
  obtain ⟨pos, text, inside⟩ := d
  cases hd
  cases hrest
  cases hpos
  rfl

theorem rest_eq_of_append {rest : List Char} (h : c.Passes part d) (hrest : c.rest = part ++ rest) :
    d.rest = rest := by
  rw [h.rest_eq] at hrest
  exact List.append_cancel_left hrest

theorem eq_of_nil (h : c.Passes [] d) : d = c := by
  obtain ⟨hc, hd, hrest, hpos⟩ := h
  obtain ⟨pos, text, inside⟩ := c
  obtain ⟨pos', text', inside'⟩ := d
  cases hc
  cases hd
  cases hrest
  cases hpos
  rfl

theorem nil_of_rest_eq_nil (h : c.Passes part d) (hc : c.rest = []) : part = [] ∧ d.rest = [] :=
  List.append_eq_nil_iff.mp (h.rest_eq.symm.trans hc)

theorem of_append (h : c.Passes (part ++ more) e) (h' : c.Passes part d) : d.Passes more e where
  inside_eq := h'.inside_eq'
  inside_eq' := h.inside_eq'
  rest_eq := h'.rest_eq_of_append (by rw [h.rest_eq, List.append_assoc])
  pos_eq := by rw [h.pos_eq, h'.pos_eq, byteSize_append, Nat.add_assoc]

theorem unique (h : c.Passes part d) (h' : c.Passes part e) : d = e :=
  (of_append (by rwa [List.append_nil]) h').eq_of_nil

/-- The end of the text is as far from both ends of a passage. -/
theorem pos_add_byteSize_rest (h : c.Passes part d) :
    d.pos + byteSize d.rest = c.pos + byteSize c.rest := by
  rw [h.pos_eq, h.rest_eq, byteSize_append, Nat.add_assoc]

theorem endPos_eq (h : c.Passes part d) : d.endPos = c.endPos := by
  simp only [endPos, h.inside_eq, h.inside_eq', Nat.sub_zero, h.pos_add_byteSize_rest]

theorem textTo_eq (h : c.Passes part d) : c.textTo d.pos = String.ofList part := by
  have htake : takeBytes? (d.pos - c.pos) c.rest = some part :=
    takeBytes?_eq_some_iff.mpr ⟨d.rest, h.rest_eq, by rw [h.pos_eq, Nat.add_sub_cancel_left]⟩
  simp [textTo, h.inside_eq, h.pos_le, htake]

end Passes

theorem Passes.ne_nil_of_pos_lt {c d : Cursor} {part : List Char} (h : c.Passes part d)
    (hlt : c.pos < d.pos) : part ≠ [] := by
  rintro rfl
  have heq : d.pos = c.pos := h.pos_eq
  omega

def Reaches (c d : Cursor) : Prop :=
  ∃ part, c.Passes part d

namespace Reaches

variable {c d e : Cursor}

theorem refl (h : c.inside = 0) : c.Reaches c :=
  ⟨[], .refl h⟩

theorem trans (h : c.Reaches d) (h' : d.Reaches e) : c.Reaches e :=
  let ⟨_, hpart⟩ := h
  let ⟨_, hmore⟩ := h'
  ⟨_, hpart.trans hmore⟩

theorem inside_eq (h : c.Reaches d) : d.inside = 0 :=
  let ⟨_, hpart⟩ := h
  hpart.inside_eq'

theorem pos_le (h : c.Reaches d) : c.pos ≤ d.pos :=
  let ⟨_, hpart⟩ := h
  hpart.pos_le

theorem pos_le_endPos (h : c.Reaches d) : d.pos ≤ c.endPos := by
  obtain ⟨part, hpart⟩ := h
  rw [← hpart.endPos_eq, endPos, hpart.inside_eq', Nat.sub_zero]
  exact Nat.le_add_right _ _

end Reaches

theorem Passes.reaches {c d : Cursor} {part : List Char} (h : c.Passes part d) : c.Reaches d :=
  ⟨part, h⟩

variable {c d : Cursor} {ch : Char}

theorem into_byteSize (pos : Nat) (part rest : List Char) :
    into pos (byteSize part) (part ++ rest) = ⟨pos + byteSize part, rest, 0⟩ := by
  induction part generalizing pos with
  | nil =>
    cases rest with
    | nil => rfl
    | cons ch rest => simp [into, ch.utf8Size_pos]
  | cons ch part ih =>
    rw [List.cons_append, byteSize_cons, into, if_neg (by omega), Nat.add_sub_cancel_left, ih,
      Nat.add_assoc]

theorem passes_advance (part : List Char) {rest : List Char} (hc : c.inside = 0)
    (h : c.rest = part ++ rest) :
    c.Passes part (c.advance (byteSize part)) := by
  have hstop : c.advance (byteSize part) = ⟨c.pos + byteSize part, rest, 0⟩ := by
    rw [advance, hc, h, Nat.zero_add, Nat.sub_zero, into_byteSize]
  rw [hstop]
  exact ⟨hc, rfl, h, rfl⟩

theorem advance_of_rest_eq_nil (hc : c.inside = 0) (h : c.rest = []) (n : Nat) :
    c.advance n = c := by
  obtain ⟨pos, rest, inside⟩ := c
  subst hc
  subst h
  rfl

theorem char?_eq_some_iff : c.char? = some ch ↔ c.inside = 0 ∧ ∃ rest, c.rest = ch :: rest := by
  unfold char?
  split
  · rename_i h
    simp [h, List.head?_eq_some_iff]
  · rename_i h
    simp [h]

theorem char?_eq_none_iff (hc : c.inside = 0) : c.char? = none ↔ c.rest = [] := by
  simp [char?, hc]

theorem passes_skipChar (h : c.char? = some ch) : c.Passes [ch] c.skipChar := by
  obtain ⟨hc, rest, hrest⟩ := char?_eq_some_iff.mp h
  rw [skipChar, h]
  exact passes_advance [ch] hc hrest

theorem passes_advance_one (h : c.char? = some ch) (hone : ch.utf8Size = 1) :
    c.Passes [ch] (c.advance 1) := by
  have hstep := passes_skipChar h
  rwa [skipChar, h, Option.elim_some, hone] at hstep

theorem passes_advance_two {first second : Char} {rest : List Char} (hc : c.inside = 0)
    (h : c.rest = first :: second :: rest) (hfirst : first.utf8Size = 1)
    (hsecond : second.utf8Size = 1) : c.Passes [first, second] (c.advance 2) := by
  have hstep := Cursor.passes_advance [first, second] hc h
  rwa [byteSize_cons, byteSize_cons, byteSize_nil, hfirst, hsecond] at hstep

theorem isPrefixOf_chars {first second : Char} (hc : c.inside = 0)
    (h : [first, second].isPrefixOf c.chars = true) : ∃ rest, c.rest = first :: second :: rest := by
  rw [Cursor.chars, if_pos hc] at h
  obtain ⟨rest, hrest⟩ := List.isPrefixOf_iff_prefix.mp h
  exact ⟨rest, hrest.symm⟩

theorem reaches_skipChar (hc : c.inside = 0) : c.Reaches c.skipChar := by
  cases h : c.char? with
  | none =>
    rw [skipChar, h, Option.elim_none, advance_of_rest_eq_nil hc ((char?_eq_none_iff hc).mp h)]
    exact .refl hc
  | some ch => exact (passes_skipChar h).reaches

theorem passes_skipChars (hc : c.inside = 0) (p : Char → Bool) :
    c.Passes (c.rest.takeWhile p) (c.skipChars p) := by
  rw [skipChars, if_pos hc]
  exact ⟨hc, rfl, List.takeWhile_append_dropWhile.symm, rfl⟩

theorem passes_skipChars_append {p : Char → Bool} {run after : List Char} (hc : c.inside = 0)
    (h : c.rest = run ++ after) (hrun : ∀ ch ∈ run, p ch = true)
    (hafter : ∀ ch, after.head? = some ch → p ch = false) : c.Passes run (c.skipChars p) := by
  have hpart := passes_skipChars hc p
  rwa [h, (span_run_append hrun hafter).1] at hpart

theorem pos_lt_skipChars {p : Char → Bool} (h : c.char? = some ch) (hp : p ch = true) :
    c.pos < (c.skipChars p).pos := by
  obtain ⟨hc, rest, hrest⟩ := char?_eq_some_iff.mp h
  apply (passes_skipChars hc p).pos_lt
  rw [hrest, List.takeWhile_cons_of_pos hp]
  exact List.cons_ne_nil _ _

theorem skipChars_eq_self {p : Char → Bool} (h : c.char? = some ch) (hp : p ch = false) :
    c.skipChars p = c := by
  obtain ⟨hc, rest, hrest⟩ := char?_eq_some_iff.mp h
  obtain ⟨pos, text, inside⟩ := c
  subst hc
  subst hrest
  simp [skipChars, hp]

theorem toEdge_of_inside_eq (hc : c.inside = 0) : c.toEdge = c :=
  if_pos hc

theorem passes_skipLine (hc : c.inside = 0) :
    c.Passes (c.rest.takeWhile (· != '\n')) c.skipLine := by
  rw [skipLine, toEdge_of_inside_eq hc]
  exact passes_skipChars hc _

theorem passes_toEnd (hc : c.inside = 0) : c.Passes c.rest c.toEnd :=
  ⟨hc, rfl, by simp [toEnd], by simp [toEnd, endPos, hc]⟩

theorem utf8Size_eq_one_of_le (h : ch ≤ '\x7F') : ch.utf8Size = 1 :=
  Char.utf8Size_eq_one_iff.mpr h

theorem utf8Size_eq_one_of_isDecimal (h : isDecimal ch = true) : ch.utf8Size = 1 := by
  simp only [isDecimal, Bool.and_eq_true, decide_eq_true_eq] at h
  exact utf8Size_eq_one_of_le (Char.le_trans h.2 (by decide))

theorem utf8Size_eq_one_of_byte_lt (h : c.char? = some ch) (hb : c.byte < 0x80) :
    ch.utf8Size = 1 := by
  obtain ⟨hc, rest, hrest⟩ := char?_eq_some_iff.mp h
  have hbyte : c.byte = (String.utf8EncodeChar ch)[0]?.getD 0 := by
    simp [byte, byte?, hrest, hc]
  rw [hbyte] at hb
  have hor : ∀ (b m : UInt8), 0x80 ≤ m.toNat → ¬ b ||| m < 0x80 := by
    intro b m hm hlt
    have hle : m.toNat ≤ (b ||| m).toNat := by
      rw [UInt8.toNat_or]
      exact Nat.right_le_or
    have hlt := UInt8.lt_iff_toNat_lt.mp hlt
    exact absurd (Nat.lt_of_le_of_lt (Nat.le_trans hm hle) hlt) (by decide)
  have hpos := ch.utf8Size_pos
  have hfour := ch.utf8Size_le_four
  match hsize : ch.utf8Size with
  | 0 => omega
  | 1 => rfl
  | 2 =>
    rw [String.utf8EncodeChar_eq_cons_cons hsize] at hb
    exact absurd hb (hor _ _ (by decide))
  | 3 =>
    rw [String.utf8EncodeChar_eq_cons_cons_cons hsize] at hb
    exact absurd hb (hor _ _ (by decide))
  | 4 =>
    rw [String.utf8EncodeChar_eq_cons_cons_cons_cons hsize] at hb
    exact absurd hb (hor _ _ (by decide))
  | n + 5 => omega

theorem toNat_byte (h : c.char? = some ch) (hone : ch.utf8Size = 1) :
    c.byte.toNat = ch.toNat ∧ ch.toNat < 128 := by
  obtain ⟨hc, rest, hrest⟩ := char?_eq_some_iff.mp h
  have hbyte : c.byte = ch.val.toUInt8 := by
    simp [byte, byte?, hrest, hc, String.utf8EncodeChar_eq_singleton hone]
  have hle : ch.val.toNat ≤ 127 := UInt32.le_iff_toNat_le.mp (Char.utf8Size_eq_one_iff.mp hone)
  rw [hbyte, UInt32.toNat_toUInt8]
  change ch.val.toNat % 256 = ch.val.toNat ∧ ch.val.toNat < 128
  omega

theorem byte_lt_of_utf8Size_eq_one (h : c.char? = some ch) (hone : ch.utf8Size = 1) :
    c.byte < 0x80 := by
  obtain ⟨hbyte, hlt⟩ := toNat_byte h hone
  exact UInt8.lt_iff_toNat_lt.mpr (hbyte ▸ hlt)

theorem byte_eq_iff {other : Char} (h : c.char? = some ch) (hother : other.toNat < 128) :
    c.byte = UInt8.ofNat other.toNat ↔ ch = other := by
  have hof : (UInt8.ofNat other.toNat).toNat = other.toNat :=
    UInt8.toNat_ofNat_of_lt (Nat.lt_trans hother (by decide))
  constructor
  · intro hbyte
    have hone : ch.utf8Size = 1 := utf8Size_eq_one_of_byte_lt h
      (UInt8.lt_iff_toNat_lt.mpr (by rw [hbyte, hof]; exact hother))
    apply Char.toNat_inj.mp
    rw [← (toNat_byte h hone).1, hbyte, hof]
  · rintro rfl
    have hone : ch.utf8Size = 1 := utf8Size_eq_one_of_le
      (UInt32.le_iff_toNat_le.mpr (Nat.le_of_lt_succ hother))
    apply UInt8.toNat_inj.mp
    rw [(toNat_byte h hone).1, hof]

theorem afterClosing_eq_some {pos : Nat} {text : List Char} (h : afterClosing pos text = some d) :
    ∃ body, text = body ++ ['*', '/'] ++ d.rest ∧ ¬ ['*', '/'] <:+: body ∧
      d.pos = pos + byteSize body + 2 ∧ d.inside = 0 := by
  fun_induction afterClosing pos text with
  | case1 => cases h
  | case2 pos rest =>
    obtain rfl := Option.some.inj h
    exact ⟨[], rfl, by simp, rfl, rfl⟩
  | case3 pos ch rest hne ih =>
    obtain ⟨body, rfl, hbody, hpos, hd⟩ := ih h
    refine ⟨ch :: body, by simp, ?_, by rw [hpos, byteSize_cons, Nat.add_assoc pos], hd⟩
    rw [List.infix_cons_iff]
    rintro (⟨more, hmore⟩ | hin)
    · obtain ⟨rfl, rfl⟩ := List.cons_eq_cons.mp hmore
      exact hne _ rfl rfl
    · exact hbody hin

theorem afterClosing_eq_none {pos : Nat} {text : List Char} (h : afterClosing pos text = none) :
    ¬ ['*', '/'] <:+: text := by
  fun_induction afterClosing pos text with
  | case1 => simp
  | case2 => cases h
  | case3 pos ch rest hne ih =>
    rw [List.infix_cons_iff]
    rintro (⟨more, hmore⟩ | hin)
    · obtain ⟨rfl, rfl⟩ := List.cons_eq_cons.mp hmore
      exact hne _ rfl rfl
    · exact ih h hin

/-- A closed comment is passed over up to the first closing mark in it. -/
theorem passes_skipBlockComment? (hc : c.inside = 0) (h : c.skipBlockComment? = some d) :
    ∃ body, ¬ ['*', '/'] <:+: body ∧ c.Passes (body ++ ['*', '/']) d := by
  rw [skipBlockComment?, toEdge_of_inside_eq hc] at h
  obtain ⟨body, hrest, hbody, hpos, hd⟩ := afterClosing_eq_some h
  refine ⟨body, hbody, hc, hd, hrest, ?_⟩
  rw [hpos, byteSize_append, Nat.add_assoc]
  rfl

theorem not_infix_of_skipBlockComment?_eq_none (hc : c.inside = 0)
    (h : c.skipBlockComment? = none) : ¬ ['*', '/'] <:+: c.rest := by
  rw [skipBlockComment?, toEdge_of_inside_eq hc] at h
  exact afterClosing_eq_none h

end Cursor

end TypedScript.Text
