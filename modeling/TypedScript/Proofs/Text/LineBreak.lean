import Mathlib.Data.List.Infix
import TypedScript.Proofs.Text.Offset
import TypedScript.Text.LineBreak

/-! # Line breaks among bytes

The first byte of a character does not occur further on in a character, so the bytes of one stand
in the bytes of a text only where it stands in the text. The search over bytes therefore finds
just the line breaks of a slice. Offsets inside a character cut off the bytes outside of them.
-/

namespace TypedScript.Text

open String (utf8EncodeChar)

variable {text part : List Char} {bytes mark rest front back : List UInt8} {ch other : Char}
  {start stop : Nat}

theorem isUTF8FirstByte_of_utf8EncodeChar_eq {b : UInt8}
    (h : utf8EncodeChar ch = front ++ b :: back) : b.IsUTF8FirstByte ↔ front = [] := by
  have hlt : front.length < (utf8EncodeChar ch).length := by
    rw [h, List.length_append, List.length_cons]
    omega
  have hbyte : (utf8EncodeChar ch)[front.length] = b := by
    simp only [h, List.getElem_append_right (Nat.le_refl _), Nat.sub_self, List.getElem_cons_zero]
  rw [← hbyte, UInt8.isUTF8FirstByte_getElem_utf8EncodeChar, List.length_eq_zero_iff]

theorem eq_of_utf8EncodeChar_append
    (h : utf8EncodeChar ch ++ back = utf8EncodeChar other ++ rest) : ch = other := by
  have hdecode := ByteArray.utf8DecodeChar?_utf8EncodeChar_append (b := back.toByteArray) (c := ch)
  rw [← List.toByteArray_append, h, List.toByteArray_append,
    ByteArray.utf8DecodeChar?_utf8EncodeChar_append] at hdecode
  exact (Option.some.inj hdecode).symm

/-- The bytes of a character begin with another character or behind it, never inside. -/
theorem eq_nil_or_behind (h : utf8EncodeChar other ++ rest = front ++ (utf8EncodeChar ch ++ back)) :
    front = [] ∨ ∃ more, rest = more ++ (utf8EncodeChar ch ++ back) := by
  rcases List.append_eq_append_iff.mp h with ⟨more, -, hrest⟩ | ⟨inner, hother, hrest⟩
  · exact .inr ⟨more, hrest⟩
  · obtain ⟨first, tail, hch⟩ := List.exists_cons_of_ne_nil (String.utf8EncodeChar_ne_nil (c := ch))
    cases inner with
    | nil => exact .inr ⟨[], hrest.symm⟩
    | cons b inner =>
      rw [hch] at hrest
      obtain ⟨rfl, -⟩ := List.cons_eq_cons.mp hrest
      have hfirst : first.IsUTF8FirstByte := (isUTF8FirstByte_of_utf8EncodeChar_eq hch).mpr rfl
      exact .inl ((isUTF8FirstByte_of_utf8EncodeChar_eq hother).mp hfirst)

theorem utf8EncodeChar_infix_utf8_iff : utf8EncodeChar ch <:+: utf8 text ↔ ch ∈ text := by
  induction text with
  | nil =>
    have hne := String.utf8EncodeChar_ne_nil (c := ch)
    simp [utf8, hne]
  | cons other text ih =>
    have hutf8 : utf8 (other :: text) = utf8EncodeChar other ++ utf8 text := rfl
    rw [hutf8, List.mem_cons, ← ih]
    constructor
    · rintro ⟨front, back, h⟩
      rw [List.append_assoc] at h
      rcases eq_nil_or_behind h.symm with rfl | ⟨more, hmore⟩
      · exact .inl (eq_of_utf8EncodeChar_append h)
      · exact .inr ⟨more, back, by rw [hmore, List.append_assoc]⟩
    · rintro (rfl | h)
      · exact (List.prefix_append _ _).isInfix
      · exact h.trans (List.suffix_append _ _).isInfix

def breakMarks : List (List UInt8) :=
  [[0x0A], [0x0D], [0xE2, 0x80, 0xA8], [0xE2, 0x80, 0xA9]]

theorem breakMarks_eq : breakMarks = ['\n', '\r', '\u2028', '\u2029'].map utf8EncodeChar := by
  decide

theorem ne_nil_of_mem_breakMarks (h : mark ∈ breakMarks) : mark ≠ [] := by
  rintro rfl
  exact absurd h (by decide)

theorem breakInBytes_cons_iff (b : UInt8) (bytes : List UInt8) :
    breakInBytes (b :: bytes) = true ↔
      (∃ mark ∈ breakMarks, mark <+: b :: bytes) ∨ breakInBytes bytes = true := by
  have hmarks : (∃ mark ∈ breakMarks, mark <+: b :: bytes) ↔
      0x0A = b ∨ 0x0D = b ∨ 0xE2 = b ∧ [0x80, 0xA8] <+: bytes ∨
        0xE2 = b ∧ [0x80, 0xA9] <+: bytes := by
    simp only [breakMarks, List.mem_cons, List.not_mem_nil, or_false, exists_eq_or_imp,
      exists_eq_left, List.cons_prefix_cons, List.nil_prefix, and_true]
  rw [hmarks, breakInBytes]
  simp only [← List.isPrefixOf_iff_prefix]
  grind

theorem breakInBytes_iff : breakInBytes bytes = true ↔ ∃ mark ∈ breakMarks, mark <:+: bytes := by
  induction bytes with
  | nil => simp [breakInBytes, breakMarks]
  | cons b bytes ih =>
    simp only [breakInBytes_cons_iff, ih, List.infix_cons_iff, and_or_left, exists_or]

theorem breakInBytes_utf8_iff :
    breakInBytes (utf8 text) = true ↔ ∃ ch ∈ text, isLineBreak ch = true := by
  rw [breakInBytes_iff, breakMarks_eq]
  constructor
  · rintro ⟨mark, hmark, h⟩
    obtain ⟨ch, hch, rfl⟩ := List.mem_map.mp hmark
    exact ⟨ch, utf8EncodeChar_infix_utf8_iff.mp h, isLineBreak_iff.mpr hch⟩
  · rintro ⟨ch, hch, hbreak⟩
    exact ⟨utf8EncodeChar ch, List.mem_map_of_mem (isLineBreak_iff.mp hbreak),
      utf8EncodeChar_infix_utf8_iff.mpr hch⟩

theorem infix_drop_take_iff (hmark : mark ≠ []) :
    mark <:+: (bytes.drop start).take (stop - start) ↔
      ∃ front back, bytes = front ++ mark ++ back ∧ start ≤ front.length ∧
        front.length + mark.length ≤ stop := by
  have hpos : 0 < mark.length := List.length_pos_iff.mpr hmark
  constructor
  · rintro ⟨inner, rest, h⟩
    have hlength := congrArg List.length h
    simp only [List.length_append, List.length_take, List.length_drop] at hlength
    obtain ⟨behind, hbehind⟩ := List.take_prefix (stop - start) (bytes.drop start)
    have hbytes := List.take_append_drop start bytes
    rw [← hbehind, ← h] at hbytes
    refine ⟨bytes.take start ++ inner, rest ++ behind, ?_, ?_, ?_⟩
    · simpa only [List.append_assoc] using hbytes.symm
    · rw [List.length_append, List.length_take]
      omega
    · rw [List.length_append, List.length_take]
      omega
  · rintro ⟨front, back, rfl, hstart, hstop⟩
    have hdrop : (front ++ mark ++ back).drop start = front.drop start ++ mark ++ back := by
      rw [List.append_assoc, List.drop_append_of_le_length hstart, ← List.append_assoc]
    have hprefix : front.drop start ++ mark <+:
        ((front ++ mark ++ back).drop start).take (stop - start) := by
      rw [List.prefix_take_iff, hdrop, List.length_append, List.length_drop]
      exact ⟨List.prefix_append _ _, by omega⟩
    exact (List.suffix_append _ _).isInfix.trans hprefix.isInfix

theorem hasLineBreak_iff (text : List Char) (start stop : Nat) :
    hasLineBreak text start stop = true ↔
      ∃ front mark back, utf8 text = front ++ mark ++ back ∧ mark ∈ breakMarks ∧
        start ≤ front.length ∧ front.length + mark.length ≤ stop := by
  rw [hasLineBreak, breakInBytes_iff]
  constructor
  · rintro ⟨mark, hmark, h⟩
    obtain ⟨front, back, htext, hplace⟩ :=
      (infix_drop_take_iff (ne_nil_of_mem_breakMarks hmark)).mp h
    exact ⟨front, mark, back, htext, hmark, hplace⟩
  · rintro ⟨front, mark, back, htext, hmark, hplace⟩
    exact ⟨mark, hmark, (infix_drop_take_iff (ne_nil_of_mem_breakMarks hmark)).mpr
      ⟨front, back, htext, hplace⟩⟩

theorem hasLineBreak_of_slice? (h : slice? text start stop = some part) :
    hasLineBreak text start stop = true ↔ ∃ ch ∈ part, isLineBreak ch = true := by
  obtain ⟨before, after, rfl, rfl, rfl⟩ := slice?_eq_some_iff.mp h
  have hbytes : ((utf8 (before ++ part ++ after)).drop (byteSize before)).take
      (byteSize before + byteSize part - byteSize before) = utf8 part := by
    rw [← List.drop_take, ← byteSize_append, drop_take_utf8]
  rw [hasLineBreak, hbytes, breakInBytes_utf8_iff]

/-- The search between two offsets answers for the bytes between them, where an offset beyond the
end stands for the end and a first one behind the second for the second: it finds a line break
exactly if all the bytes of one are there in a row. Between edges of characters it finds one
exactly if a character of the slice is one. -/
theorem hasLineBreak_of_offsets (text : List Char) (start stop : Nat) :
    let last := min stop (byteSize text)
    let first := min start last
    hasLineBreak text start stop = hasLineBreak text first last ∧
    (hasLineBreak text start stop = true ↔
      ∃ front mark back, utf8 text = front ++ mark ++ back ∧ mark ∈ breakMarks ∧
        first ≤ front.length ∧ front.length + mark.length ≤ last) ∧
    (OnEdge text start → OnEdge text stop → start ≤ stop →
      ∃ part, slice? text start stop = some part ∧
        (hasLineBreak text start stop = true ↔ ∃ ch ∈ part, isLineBreak ch = true)) := by
  intro last first
  have hclamped : hasLineBreak text start stop = true ↔
      ∃ front mark back, utf8 text = front ++ mark ++ back ∧ mark ∈ breakMarks ∧
        first ≤ front.length ∧ front.length + mark.length ≤ last := by
    rw [hasLineBreak_iff]
    refine exists_congr fun front => exists_congr fun mark => exists_congr fun back =>
      and_congr_right fun htext => and_congr_right fun hmark => ?_
    -- A mark has a byte, so an offset behind one of its bytes is behind none that is left.
    have hpos : 0 < mark.length := List.length_pos_iff.mpr (ne_nil_of_mem_breakMarks hmark)
    have hsize := length_utf8 text
    rw [htext, List.length_append, List.length_append] at hsize
    omega
  refine ⟨?_, hclamped, fun hstart hstop hle => ?_⟩
  · rw [Bool.eq_iff_iff, hclamped, hasLineBreak_iff]
  · obtain ⟨part, hpart⟩ := hstart.exists_slice? hstop hle
    exact ⟨part, hpart, hasLineBreak_of_slice? hpart⟩

theorem hasLineBreak_of_offsets_cut :
    let text := "a…\u2028é".toList
    OnEdge text 1 ∧ OnEdge text 7 ∧ hasLineBreak text 1 7 = true ∧
      hasLineBreak text 1 4 = false ∧ hasLineBreak text 5 99 = false := by
  intro text
  have hone : OnEdge text 1 := by decide +kernel
  have hfour : OnEdge text 4 := by decide +kernel
  have hseven : OnEdge text 7 := by decide +kernel
  obtain ⟨-, -, hwhole⟩ := hasLineBreak_of_offsets text 1 7
  obtain ⟨part, hpart, hiff⟩ := hwhole hone hseven (by decide)
  obtain ⟨-, -, hdots⟩ := hasLineBreak_of_offsets text 1 4
  obtain ⟨dots, hslice, hnone⟩ := hdots hone hfour (by decide)
  obtain ⟨hcut, -, -⟩ := hasLineBreak_of_offsets text 5 99
  have hsep : slice? text 1 7 = some ['…', '\u2028'] := by decide +kernel
  have hellipsis : slice? text 1 4 = some ['…'] := by decide +kernel
  obtain rfl := Option.some.inj (hsep.symm.trans hpart)
  obtain rfl := Option.some.inj (hellipsis.symm.trans hslice)
  refine ⟨hone, hseven, hiff.mpr ⟨'\u2028', by decide, by decide⟩, ?_, ?_⟩
  · rw [← Bool.not_eq_true, hnone]
    rintro ⟨ch, hch, hbreak⟩
    obtain rfl := List.mem_singleton.mp hch
    exact absurd hbreak (by decide)
  · rw [hcut]
    decide +kernel

end TypedScript.Text
