import TypedScript.Proofs.Text.Passage

/-! # Offsets in a text

An offset is in a text if it is not beyond its end. A cursor may stand inside a character,
so what is said of offsets comes in two strengths: `whole` is the assumption under which
they are also on the edge of a character. With `False` for it nothing is said of edges.
Every movement of a cursor leads onward in the text it stands in.
-/

namespace TypedScript.Text

def OnEdge (text : List Char) (n : Nat) : Prop :=
  ∃ before after, text = before ++ after ∧ byteSize before = n

variable {text : List Char} {whole : Prop} {m n : Nat}

namespace OnEdge

theorem iff_isSome_dropBytes? : OnEdge text n ↔ (dropBytes? n text).isSome = true := by
  rw [Option.isSome_iff_exists]
  constructor
  · rintro ⟨before, after, h, hn⟩
    exact ⟨after, dropBytes?_eq_some_iff.mpr ⟨before, h, hn⟩⟩
  · rintro ⟨after, h⟩
    obtain ⟨before, h, hn⟩ := dropBytes?_eq_some_iff.mp h
    exact ⟨before, after, h, hn⟩

instance (text : List Char) (n : Nat) : Decidable (OnEdge text n) :=
  decidable_of_iff _ iff_isSome_dropBytes?.symm

theorem zero (text : List Char) : OnEdge text 0 :=
  ⟨[], text, rfl, rfl⟩

theorem last (text : List Char) : OnEdge text (byteSize text) :=
  ⟨text, [], (List.append_nil text).symm, rfl⟩

theorem le_byteSize (h : OnEdge text n) : n ≤ byteSize text := by
  obtain ⟨before, after, rfl, rfl⟩ := h
  rw [byteSize_append]
  exact Nat.le_add_right _ _

theorem exists_slice? (hm : OnEdge text m) (hn : OnEdge text n) (hle : m ≤ n) :
    ∃ part, slice? text m n = some part := by
  obtain ⟨before, rest, htext, rfl⟩ := hm
  obtain ⟨before', after, htext', rfl⟩ := hn
  rcases List.append_eq_append_iff.mp (htext.symm.trans htext') with ⟨part, rfl, -⟩ | ⟨part, rfl, -⟩
  · exact ⟨part, slice?_eq_some_iff.mpr ⟨before, after, htext', rfl, (byteSize_append ..).symm⟩⟩
  · have hsize : byteSize part = 0 := by
      rw [byteSize_append] at hle
      omega
    refine ⟨[], slice?_eq_some_iff.mpr ⟨before' ++ part, rest, by simpa using htext, rfl, ?_⟩⟩
    rw [byteSize_append, hsize]
    rfl

end OnEdge

structure InText (text : List Char) (whole : Prop) (n : Nat) : Prop where
  le_byteSize : n ≤ byteSize text
  onEdge : whole → OnEdge text n

theorem OnEdge.inText (h : OnEdge text n) : InText text whole n :=
  ⟨h.le_byteSize, fun _ => h⟩

theorem byteSize_eq_length {run : List Char} (h : ∀ ch ∈ run, ch.utf8Size = 1) :
    byteSize run = run.length := by
  induction run with
  | nil => rfl
  | cons ch run ih =>
    rw [byteSize_cons, List.length_cons, h ch List.mem_cons_self,
      ih fun other hother => h other (List.mem_cons_of_mem ch hother), Nat.add_comm]

theorem drop_take_utf8 {before part after : List Char} :
    ((utf8 (before ++ part ++ after)).take (byteSize (before ++ part))).drop (byteSize before) =
      utf8 part := by
  rw [utf8_append, List.take_left' (length_utf8 _), utf8_append, List.drop_left' (length_utf8 _)]

namespace Cursor

structure Stands (text : List Char) (whole : Prop) (c : Cursor) : Prop where
  split : ∃ before, text = before ++ c.rest ∧ c.pos = byteSize before + c.inside
  inside_le : c.inside ≤ byteSize (c.rest.take 1)
  inside_eq : whole → c.inside = 0

/-- The cursor `d` stands in the text, and not before `c`. -/
structure Onward (text : List Char) (whole : Prop) (c d : Cursor) : Prop where
  stands : d.Stands text whole
  pos_le : c.pos ≤ d.pos

variable {c d e : Cursor} {ch : Char}

namespace Stands

theorem byteSize_take_one_le (rest : List Char) : byteSize (rest.take 1) ≤ byteSize rest := by
  cases rest with
  | nil => exact Nat.le_refl _
  | cons ch rest =>
    rw [List.take_succ_cons, List.take_zero, byteSize_cons, byteSize_cons, byteSize_nil]
    omega

theorem onEdge (h : c.Stands text whole) (hc : c.inside = 0) : OnEdge text c.pos := by
  obtain ⟨before, htext, hpos⟩ := h.split
  exact ⟨before, c.rest, htext, by rw [hpos, hc, Nat.add_zero]⟩

theorem inText (h : c.Stands text whole) : InText text whole c.pos := by
  refine ⟨?_, fun hwhole => h.onEdge (h.inside_eq hwhole)⟩
  obtain ⟨before, htext, hpos⟩ := h.split
  have hinside := h.inside_le
  have htake := byteSize_take_one_le c.rest
  rw [htext, byteSize_append]
  omega

theorem endPos_eq (h : c.Stands text whole) : c.endPos = byteSize text := by
  obtain ⟨before, htext, hpos⟩ := h.split
  rw [endPos, hpos, htext, byteSize_append, Nat.add_sub_cancel]

end Stands

theorem stands_start (text : List Char) : (start text).Stands text whole where
  split := ⟨[], rfl, rfl⟩
  inside_le := Nat.zero_le _
  inside_eq _ := rfl

namespace Onward

theorem refl (h : c.Stands text whole) : c.Onward text whole c :=
  ⟨h, Nat.le_refl _⟩

theorem trans (h : c.Onward text whole d) (h' : d.Onward text whole e) :
    c.Onward text whole e :=
  ⟨h'.stands, Nat.le_trans h.pos_le h'.pos_le⟩

theorem of_reaches (h : c.Stands text whole) (hreaches : c.Reaches d) :
    c.Onward text whole d := by
  obtain ⟨part, hpart⟩ := hreaches
  obtain ⟨before, htext, hpos⟩ := h.split
  refine ⟨⟨⟨before ++ part, ?_, ?_⟩, ?_, fun _ => hpart.inside_eq'⟩, hpart.pos_le⟩
  · rw [htext, hpart.rest_eq, List.append_assoc]
  · rw [hpart.pos_eq, hpos, hpart.inside_eq, hpart.inside_eq', byteSize_append]
    rfl
  · rw [hpart.inside_eq']
    exact Nat.zero_le _

theorem reaches (h : c.Onward text True d) (hc : c.Stands text True) : c.Reaches d := by
  have hinside := hc.inside_eq trivial
  have hinside' := h.stands.inside_eq trivial
  have hle := h.pos_le
  obtain ⟨before, htext, hpos⟩ := hc.split
  obtain ⟨before', htext', hpos'⟩ := h.stands.split
  rw [hinside, Nat.add_zero] at hpos
  rw [hinside', Nat.add_zero] at hpos'
  rcases List.append_eq_append_iff.mp (htext.symm.trans htext') with
    ⟨part, rfl, hrest⟩ | ⟨part, rfl, hrest⟩
  · exact ⟨part, hinside, hinside', hrest, by rw [hpos, hpos', byteSize_append]⟩
  · have hnil : part = [] := Decidable.byContradiction fun hne => by
      have hsize := byteSize_pos_of_ne_nil hne
      rw [byteSize_append] at hpos
      omega
    subst hnil
    exact ⟨[], hinside, hinside', by simpa using hrest.symm, by simp [hpos, hpos']⟩

end Onward

/-- The cursor some bytes after an edge stands that far behind it, or at the end. -/
theorem stands_into (before : List Char) (n : Nat) (rest : List Char) :
    (into (byteSize before) n rest).Stands (before ++ rest) False ∧
      (into (byteSize before) n rest).pos =
        min (byteSize before + n) (byteSize (before ++ rest)) := by
  induction rest generalizing before n with
  | nil =>
    refine ⟨⟨⟨before, rfl, rfl⟩, Nat.le_refl _, False.elim⟩, ?_⟩
    rw [List.append_nil]
    exact (Nat.min_eq_right (Nat.le_add_right _ _)).symm
  | cons ch rest ih =>
    unfold into
    split
    · rename_i hlt
      refine ⟨⟨⟨before, rfl, rfl⟩, ?_, False.elim⟩, ?_⟩
      · rw [List.take_succ_cons, List.take_zero, byteSize_cons, byteSize_nil]
        exact Nat.le_of_lt hlt
      · rw [byteSize_append, byteSize_cons]
        change byteSize before + n = _
        omega
    · rename_i hge
      obtain ⟨hstands, hpos⟩ := ih (before ++ [ch]) (n - ch.utf8Size)
      rw [byteSize_append, byteSize_cons, byteSize_nil, Nat.add_zero, List.append_assoc,
        List.singleton_append] at hstands hpos
      refine ⟨hstands, ?_⟩
      rw [hpos]
      omega

theorem onward_advance (h : c.Stands text whole) (n : Nat)
    (hedge : whole → (c.advance n).inside = 0) : c.Onward text whole (c.advance n) := by
  have hle := h.inText.le_byteSize
  obtain ⟨before, htext, hpos⟩ := h.split
  obtain ⟨hstands, hstop⟩ := stands_into before (c.inside + n) c.rest
  have hadvance : c.advance n = into (byteSize before) (c.inside + n) c.rest := by
    rw [advance, hpos, Nat.add_sub_cancel]
  rw [← hadvance, ← htext] at hstands hstop
  refine ⟨⟨hstands.split, hstands.inside_le, hedge⟩, ?_⟩
  rw [hstop]
  omega

theorem onward_advance_one (h : c.Stands text whole) (hch : c.char? = some ch)
    (hone : ch.utf8Size = 1) : c.Onward text whole (c.advance 1) :=
  .of_reaches h (passes_advance_one hch hone).reaches

theorem onward_skipChar (h : c.Stands text whole) : c.Onward text whole c.skipChar :=
  onward_advance h _ fun hwhole => (reaches_skipChar (h.inside_eq hwhole)).inside_eq

theorem onward_skipChars (h : c.Stands text whole) (p : Char → Bool) :
    c.Onward text whole (c.skipChars p) := by
  by_cases hc : c.inside = 0
  · exact .of_reaches h (passes_skipChars hc p).reaches
  · rw [skipChars, if_neg hc]
    exact .refl h

theorem onward_toEdge (h : c.Stands text whole) : c.Onward text whole c.toEdge := by
  unfold toEdge
  split
  · exact .refl h
  · obtain ⟨before, htext, hpos⟩ := h.split
    have hinside := h.inside_le
    refine ⟨⟨⟨before ++ c.rest.take 1, ?_, ?_⟩, Nat.zero_le _, fun _ => rfl⟩, ?_⟩
    · rw [List.append_assoc, List.take_append_drop]
      exact htext
    · rw [hpos, Nat.add_sub_cancel, byteSize_append]
      rfl
    · rw [hpos, Nat.add_sub_cancel]
      exact Nat.add_le_add_left hinside _

theorem rest_eq_of_chars_eq_cons {rest : List Char} (h : c.chars = ch :: rest) :
    c.inside = 0 ∧ c.rest = ch :: rest := by
  unfold chars at h
  split at h
  · rename_i hc
    exact ⟨hc, h⟩
  · cases h

/-- The offsets between the characters of a run from the cursor on, each of one byte. -/
theorem inText_add_of_le_length (h : c.Stands text whole) {p : Char → Bool}
    (hone : ∀ ch, p ch = true → ch.utf8Size = 1) {k : Nat}
    (hk : k ≤ (c.chars.takeWhile p).length) : InText text whole (c.pos + k) := by
  by_cases hc : c.inside = 0
  · rw [chars, if_pos hc] at hk
    obtain ⟨before, htext, hpos⟩ := h.split
    have hrun : ∀ ch ∈ (c.rest.takeWhile p).take k, ch.utf8Size = 1 := fun ch hch =>
      hone ch (List.all_eq_true.mp List.all_takeWhile ch (List.mem_of_mem_take hch))
    have hsize : byteSize ((c.rest.takeWhile p).take k) = k := by
      rw [byteSize_eq_length hrun, List.length_take, Nat.min_eq_left hk]
    have hedge : OnEdge text (c.pos + k) := by
      refine ⟨before ++ (c.rest.takeWhile p).take k,
        (c.rest.takeWhile p).drop k ++ c.rest.dropWhile p, ?_, ?_⟩
      · rw [List.append_assoc, ← List.append_assoc (List.take _ _), List.take_append_drop,
          List.takeWhile_append_dropWhile]
        exact htext
      · rw [byteSize_append, hsize, hpos, hc, Nat.add_zero]
    exact hedge.inText
  · rw [chars, if_neg hc] at hk
    obtain rfl : k = 0 := Nat.le_zero.mp hk
    exact h.inText

end Cursor

end TypedScript.Text
