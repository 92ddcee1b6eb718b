import TypedScript.Proofs.Text.Offset

/-! # Line breaks between two places

A line break lies between two offsets if all its bytes do. The search from a cursor goes over
whole characters, from the edge of the one the cursor stands inside, and finds just these.
-/

namespace TypedScript.Text

def BreakBetween (text : List Char) (start stop : Nat) : Prop :=
  ∃ before ch after, text = before ++ ch :: after ∧ isLineBreak ch = true ∧
    start ≤ byteSize before ∧ byteSize before + ch.utf8Size ≤ stop

/-- Of two beginnings of a text the shorter one begins the longer one. -/
theorem prefix_of_byteSize_le {front rest before after : List Char}
    (h : front ++ rest = before ++ after) (hle : byteSize front ≤ byteSize before) :
    front <+: before := by
  rcases List.append_eq_append_iff.mp h with ⟨part, rfl, -⟩ | ⟨part, rfl, -⟩
  · exact List.prefix_append front part
  · cases part with
    | nil => simp
    | cons ch part =>
      have hch := ch.utf8Size_pos
      rw [byteSize_append, byteSize_cons] at hle
      omega

namespace Cursor

variable {text rest : List Char} {c : Cursor} {stop pos : Nat}

theorem breakBetween_iff : lineBreakBefore.breakBetween stop pos rest = true ↔
    ∃ before ch after, rest = before ++ ch :: after ∧ isLineBreak ch = true ∧
      pos + byteSize before + ch.utf8Size ≤ stop := by
  induction rest generalizing pos with
  | nil => simp [lineBreakBefore.breakBetween]
  | cons first rest ih =>
    rw [lineBreakBefore.breakBetween]
    constructor
    · intro h
      split at h
      · rename_i hfits
        split at h
        · rename_i hbreak
          exact ⟨[], first, rest, rfl, hbreak, hfits⟩
        · obtain ⟨before, ch, after, rfl, hbreak, hle⟩ := ih.mp h
          exact ⟨first :: before, ch, after, rfl, hbreak, by rwa [byteSize_cons, ← Nat.add_assoc]⟩
      · cases h
    · rintro ⟨before, ch, after, hrest, hbreak, hle⟩
      cases before with
      | nil =>
        obtain ⟨rfl, rfl⟩ := List.cons_eq_cons.mp hrest
        rw [byteSize_nil, Nat.add_zero] at hle
        rw [if_pos hle, if_pos hbreak]
      | cons other before =>
        obtain ⟨rfl, rfl⟩ := List.cons_eq_cons.mp hrest
        rw [byteSize_cons, ← Nat.add_assoc] at hle
        rw [if_pos (by omega), ih.mpr ⟨before, ch, after, rfl, hbreak, hle⟩, ite_self]

/-- Behind a cursor no character begins before its edge. -/
theorem exists_front (h : c.Stands text False) :
    ∃ front, text = front ++ c.toEdge.rest ∧ c.toEdge.pos = byteSize front ∧
      c.pos ≤ byteSize front ∧
      ∀ before after, text = before ++ after → c.pos ≤ byteSize before → front <+: before := by
  obtain ⟨front, htext, hpos⟩ := h.split
  by_cases hc : c.inside = 0
  · rw [toEdge_of_inside_eq hc]
    rw [hc, Nat.add_zero] at hpos
    refine ⟨front, htext, hpos, Nat.le_of_eq hpos, fun before after hbefore hle => ?_⟩
    exact prefix_of_byteSize_le (htext.symm.trans hbefore) (hpos ▸ hle)
  · have hinside := h.inside_le
    cases hrest : c.rest with
    | nil =>
      rw [hrest] at hinside
      exact absurd (Nat.le_zero.mp hinside) hc
    | cons ch rest =>
      rw [hrest] at htext
      rw [hrest, List.take_succ_cons, List.take_zero, byteSize_cons, byteSize_nil] at hinside
      have hsize : byteSize (front ++ [ch]) = byteSize front + ch.utf8Size := by simp
      have hedge : c.toEdge = ⟨byteSize (front ++ [ch]), rest, 0⟩ := by
        rw [toEdge, if_neg hc, hpos, Nat.add_sub_cancel, hrest, hsize]
        rfl
      rw [hedge]
      refine ⟨front ++ [ch], by simp [htext], rfl, by omega, fun before after hbefore hle => ?_⟩
      obtain ⟨part, rfl⟩ : front <+: before :=
        prefix_of_byteSize_le (htext.symm.trans hbefore) (by omega)
      rw [htext, List.append_assoc] at hbefore
      cases part with
      | nil =>
        rw [List.append_nil] at hle
        omega
      | cons other part =>
        obtain ⟨rfl, -⟩ := List.cons_eq_cons.mp (List.append_cancel_left hbefore)
        exact ⟨part, by simp⟩

theorem lineBreakBefore_iff (h : c.Stands text False) :
    c.lineBreakBefore stop = true ↔ BreakBetween text c.pos stop := by
  obtain ⟨front, htext, hpos, hle, hfront⟩ := exists_front h
  rw [lineBreakBefore, breakBetween_iff, hpos]
  constructor
  · rintro ⟨before, ch, after, hrest, hbreak, hstop⟩
    refine ⟨front ++ before, ch, after, by rw [htext, hrest, List.append_assoc], hbreak, ?_, ?_⟩
    · rw [byteSize_append]
      omega
    · rwa [byteSize_append]
  · rintro ⟨before, ch, after, hbefore, hbreak, hstart, hstop⟩
    obtain ⟨part, rfl⟩ := hfront before (ch :: after) hbefore hstart
    rw [htext, List.append_assoc] at hbefore
    refine ⟨part, ch, after, List.append_cancel_left hbefore, hbreak, ?_⟩
    rwa [byteSize_append] at hstop

end Cursor

end TypedScript.Text
