/-! # Byte offsets in a text

A text is a list of characters, and its offsets count the bytes of its UTF-8 form. A slice between
two offsets exists when both fall on the edge of a character and stand in order.
-/

namespace TypedScript.Text

def byteSize : List Char → Nat
  | [] => 0
  | c :: rest => c.utf8Size + byteSize rest

def utf8 (text : List Char) : List UInt8 :=
  text.flatMap String.utf8EncodeChar

/-- How many characters the first `n` bytes hold, counted on from `count`, if those bytes end with a
character. -/
def charsIn (count : Nat) : Nat → List Char → Option Nat
  | 0, _ => some count
  | _ + 1, [] => none
  | n + 1, c :: rest =>
    if c.utf8Size ≤ n + 1 then charsIn (count + 1) (n + 1 - c.utf8Size) rest else none

def takeBytes? (n : Nat) (text : List Char) : Option (List Char) :=
  (charsIn 0 n text).map text.take

def dropBytes? (n : Nat) (text : List Char) : Option (List Char) :=
  (charsIn 0 n text).map text.drop

def slice? (text : List Char) (start stop : Nat) : Option (List Char) :=
  if start ≤ stop then (dropBytes? start text).bind (takeBytes? (stop - start)) else none

/-- The slice between two offsets, empty where there is none. -/
def slice (text : List Char) (start stop : Nat) : String :=
  String.ofList ((slice? text start stop).getD [])

@[simp] theorem byteSize_nil : byteSize [] = 0 := rfl

@[simp] theorem byteSize_cons (c : Char) (text : List Char) :
    byteSize (c :: text) = c.utf8Size + byteSize text := rfl

@[simp] theorem byteSize_append (a b : List Char) : byteSize (a ++ b) = byteSize a + byteSize b := by
  induction a with
  | nil => simp
  | cons c rest ih => simp [ih, Nat.add_assoc]

theorem utf8_append (a b : List Char) : utf8 (a ++ b) = utf8 a ++ utf8 b :=
  List.flatMap_append

theorem length_utf8 (text : List Char) : (utf8 text).length = byteSize text := by
  induction text with
  | nil => rfl
  | cons c rest ih => simp [utf8] at ih ⊢; omega

theorem byteSize_le (text : List Char) : byteSize text ≤ 4 * text.length := by
  induction text with
  | nil => exact Nat.le_refl 0
  | cons ch text ih =>
    have hch := ch.utf8Size_le_four
    rw [byteSize, List.length_cons]
    omega

theorem byteSize_pos_of_ne_nil {text : List Char} (h : text ≠ []) : 0 < byteSize text := by
  obtain ⟨c, rest, rfl⟩ := List.exists_cons_of_ne_nil h
  have := c.utf8Size_pos
  rw [byteSize_cons]
  omega

theorem charsIn_eq_some_iff {count n k : Nat} {text : List Char} :
    charsIn count n text = some k ↔
      ∃ before after, text = before ++ after ∧ byteSize before = n ∧ k = count + before.length := by
  induction text generalizing count n with
  | nil =>
    cases n with
    | zero => simp [charsIn, eq_comm]
    | succ n =>
      constructor
      · intro h
        simp [charsIn] at h
      · rintro ⟨before, after, ht, hn, -⟩
        obtain ⟨rfl, rfl⟩ := List.append_eq_nil_iff.mp ht.symm
        simp at hn
  | cons c rest ih =>
    have hc := c.utf8Size_pos
    cases n with
    | zero =>
      constructor
      · intro h
        exact ⟨[], c :: rest, rfl, rfl, by simpa [charsIn, eq_comm] using h⟩
      · rintro ⟨before, after, -, hn, rfl⟩
        cases before with
        | nil => simp [charsIn]
        | cons d before =>
          have := d.utf8Size_pos
          rw [byteSize_cons] at hn
          omega
    | succ n =>
      rw [charsIn]
      split
      · rw [ih]
        constructor
        · rintro ⟨before, after, rfl, hn, rfl⟩
          exact ⟨c :: before, after, rfl, by rw [byteSize_cons]; omega, by simp; omega⟩
        · rintro ⟨before, after, ht, hn, rfl⟩
          cases before with
          | nil => simp at hn
          | cons d before =>
            obtain ⟨rfl, rfl⟩ := List.cons_eq_cons.mp ht
            rw [byteSize_cons] at hn
            exact ⟨before, after, rfl, by omega, by simp; omega⟩
      · constructor
        · simp
        · rintro ⟨before, after, ht, hn, rfl⟩
          cases before with
          | nil => simp at hn
          | cons d before =>
            obtain ⟨rfl, rfl⟩ := List.cons_eq_cons.mp ht
            rw [byteSize_cons] at hn
            omega

theorem takeBytes?_eq_some_iff {n : Nat} {text before : List Char} :
    takeBytes? n text = some before ↔ ∃ after, text = before ++ after ∧ byteSize before = n := by
  unfold takeBytes?
  constructor
  · intro h
    obtain ⟨k, hk, rfl⟩ := Option.map_eq_some_iff.mp h
    obtain ⟨before, after, rfl, hn, rfl⟩ := charsIn_eq_some_iff.mp hk
    exact ⟨after, by simp, by simpa using hn⟩
  · rintro ⟨after, rfl, rfl⟩
    rw [charsIn_eq_some_iff.mpr ⟨before, after, rfl, rfl, rfl⟩]
    simp

theorem dropBytes?_eq_some_iff {n : Nat} {text after : List Char} :
    dropBytes? n text = some after ↔ ∃ before, text = before ++ after ∧ byteSize before = n := by
  unfold dropBytes?
  constructor
  · intro h
    obtain ⟨k, hk, rfl⟩ := Option.map_eq_some_iff.mp h
    obtain ⟨before, after, rfl, hn, rfl⟩ := charsIn_eq_some_iff.mp hk
    exact ⟨before, by simp, hn⟩
  · rintro ⟨before, rfl, rfl⟩
    rw [charsIn_eq_some_iff.mpr ⟨before, after, rfl, rfl, rfl⟩]
    simp

/-- A slice is what stands between two parts of the text of the right sizes. -/
theorem slice?_eq_some_iff {text part : List Char} {start stop : Nat} :
    slice? text start stop = some part ↔
      ∃ before after, text = before ++ part ++ after ∧ byteSize before = start ∧
        byteSize before + byteSize part = stop := by
  unfold slice?
  constructor
  · intro h
    split at h
    · obtain ⟨rest, hr, hp⟩ := Option.bind_eq_some_iff.mp h
      obtain ⟨before, rfl, hb⟩ := dropBytes?_eq_some_iff.mp hr
      obtain ⟨after, rfl, hs⟩ := takeBytes?_eq_some_iff.mp hp
      exact ⟨before, after, by simp, hb, by omega⟩
    · simp at h
  · rintro ⟨before, after, rfl, rfl, rfl⟩
    rw [if_pos (Nat.le_add_right _ _), Nat.add_sub_cancel_left,
      dropBytes?_eq_some_iff.mpr ⟨before, by rw [List.append_assoc], rfl⟩]
    exact takeBytes?_eq_some_iff.mpr ⟨after, rfl, rfl⟩

end TypedScript.Text
