import TypedScript.Text.Bytes
import TypedScript.Token.Punctuator

/-! # The longest punctuator that fits

The choice among the punctuators that begin a text is the longest of them, and no other is
as long. There is no choice only where no punctuator of any length begins with the next
character, since each first character is a punctuator of its own.
-/

namespace TypedScript.Punctuator

theorem mem_all (mark : Punctuator) : mark ∈ all := by
  cases mark <;> decide

theorem mem_spellings_iff {spelling : List Char} {mark : Punctuator} :
    (spelling, mark) ∈ spellings ↔ spelling = mark.text.toList := by
  unfold spellings
  rw [List.mem_map]
  constructor
  · rintro ⟨other, -, heq⟩
    obtain ⟨rfl, rfl⟩ := Prod.mk.inj heq
    rfl
  · rintro rfl
    exact ⟨mark, mem_all mark, rfl⟩

theorem longer_eq (best : Option (List Char × Punctuator)) (next : List Char × Punctuator) :
    longer best next = some next ∨ (longer best next = best ∧ best ≠ none) := by
  cases best with
  | none => exact .inl rfl
  | some found =>
    unfold longer
    simp only
    split
    · exact .inl rfl
    · exact .inr ⟨rfl, by simp⟩

theorem mem_of_foldl_longer {l : List (List Char × Punctuator)}
    {best : Option (List Char × Punctuator)} {found : List Char × Punctuator}
    (h : l.foldl longer best = some found) : found ∈ l ∨ best = some found := by
  induction l generalizing best with
  | nil => exact .inr h
  | cons next l ih =>
    rcases ih h with hmem | hbest
    · exact .inl (List.mem_cons_of_mem _ hmem)
    · rcases longer_eq best next with hnext | ⟨hkept, -⟩
      · obtain rfl := Option.some.inj (hnext.symm.trans hbest)
        exact .inl List.mem_cons_self
      · exact .inr (hkept.symm.trans hbest)

theorem eq_nil_of_foldl_longer {l : List (List Char × Punctuator)}
    {best : Option (List Char × Punctuator)} (h : l.foldl longer best = none) :
    l = [] ∧ best = none := by
  induction l generalizing best with
  | nil => exact ⟨rfl, h⟩
  | cons next l ih =>
    rcases longer_eq best next with hnext | ⟨hkept, hbest⟩
    · exact absurd (hnext.symm.trans (ih h).2) (by simp)
    · exact absurd (hkept.symm.trans (ih h).2) hbest

/-- What is kept is as long as what it is chosen from. -/
theorem exists_longer (best : Option (List Char × Punctuator)) (next : List Char × Punctuator) :
    ∃ kept, longer best next = some kept ∧
      ∀ other, other = next ∨ best = some other → other.1.length ≤ kept.1.length := by
  cases best with
  | none =>
    refine ⟨next, rfl, ?_⟩
    rintro other (rfl | hbest)
    · exact Nat.le_refl _
    · cases hbest
  | some found =>
    unfold longer
    simp only
    split
    · rename_i hlt
      refine ⟨next, rfl, ?_⟩
      rintro other (rfl | hbest)
      · exact Nat.le_refl _
      · obtain rfl := Option.some.inj hbest
        exact Nat.le_of_lt hlt
    · rename_i hle
      refine ⟨found, rfl, ?_⟩
      rintro other (rfl | hbest)
      · exact Nat.le_of_not_lt hle
      · obtain rfl := Option.some.inj hbest
        exact Nat.le_refl _

theorem length_le_of_foldl_longer {l : List (List Char × Punctuator)}
    {best : Option (List Char × Punctuator)} {found : List Char × Punctuator}
    (h : l.foldl longer best = some found) :
    ∀ other, other ∈ l ∨ best = some other → other.1.length ≤ found.1.length := by
  induction l generalizing best with
  | nil =>
    rintro other (hnil | hbest)
    · cases hnil
    · obtain rfl := Option.some.inj (hbest.symm.trans h)
      exact Nat.le_refl _
  | cons next l ih =>
    obtain ⟨kept, hkept, hle⟩ := exists_longer best next
    have hkeeps : kept.1.length ≤ found.1.length := ih h kept (.inr hkept)
    rintro other (hmem | hbest)
    · rcases List.mem_cons.mp hmem with rfl | hmem
      · exact Nat.le_trans (hle other (.inl rfl)) hkeeps
      · exact ih h other (.inl hmem)
    · exact Nat.le_trans (hle other (.inr hbest)) hkeeps

theorem eq_of_text_eq {mark other : Punctuator} (h : mark.text = other.text) : mark = other := by
  have hall : ∀ mark ∈ all, ∀ other ∈ all, mark.text = other.text → mark = other := by
    decide +kernel
  exact hall mark (mem_all mark) other (mem_all other) h

structure Fits (limit : Nat) (text : List Char) (mark : Punctuator) : Prop where
  begins : mark.text.toList <+: text
  length_le : mark.text.toList.length ≤ limit

theorem mem_fitting_iff {limit : Nat} {text spelling : List Char} {mark : Punctuator} :
    ((spelling, mark) ∈ spellings.filter fun s => s.1.length ≤ limit && s.1.isPrefixOf text) ↔
      spelling = mark.text.toList ∧ Fits limit text mark := by
  rw [List.mem_filter, mem_spellings_iff]
  constructor
  · rintro ⟨rfl, hfits⟩
    simp only [Bool.and_eq_true, decide_eq_true_eq, List.isPrefixOf_iff_prefix] at hfits
    exact ⟨rfl, hfits.2, hfits.1⟩
  · rintro ⟨rfl, hfits⟩
    exact ⟨rfl, by simp [hfits.length_le, List.isPrefixOf_iff_prefix.mpr hfits.begins]⟩

theorem fits_of_longest? {limit : Nat} {text : List Char} {mark : Punctuator}
    (h : longest? limit text = some mark) :
    Fits limit text mark ∧
      ∀ other, Fits limit text other → other.text.toList.length ≤ mark.text.toList.length := by
  obtain ⟨⟨spelling, found⟩, hfound, rfl⟩ := Option.map_eq_some_iff.mp h
  rcases mem_of_foldl_longer hfound with hmem | hnone
  · obtain ⟨rfl, hfits⟩ := mem_fitting_iff.mp hmem
    refine ⟨hfits, fun other hother => ?_⟩
    exact length_le_of_foldl_longer hfound (_, other) (.inl (mem_fitting_iff.mpr ⟨rfl, hother⟩))
  · cases hnone

theorem Fits.eq_of_length_eq {limit : Nat} {text : List Char} {mark other : Punctuator}
    (h : Fits limit text mark) (hother : Fits limit text other)
    (hlength : mark.text.toList.length = other.text.toList.length) : mark = other := by
  have hbegins := List.prefix_of_prefix_length_le h.begins hother.begins (Nat.le_of_eq hlength)
  exact eq_of_text_eq (String.toList_injective (hbegins.eq_of_length hlength))

/-- The choice is the longest punctuator that fits, and there is only one of its length. -/
theorem longest?_eq_some_iff {limit : Nat} {text : List Char} {mark : Punctuator} :
    longest? limit text = some mark ↔
      Fits limit text mark ∧
        ∀ other, Fits limit text other → other.text.toList.length ≤ mark.text.toList.length := by
  constructor
  · exact fits_of_longest?
  · rintro ⟨hfits, hmax⟩
    cases hchoice : longest? limit text with
    | none =>
      have hnil := (eq_nil_of_foldl_longer (Option.map_eq_none_iff.mp hchoice)).1
      have hmem := mem_fitting_iff.mpr ⟨rfl, hfits⟩
      rw [hnil] at hmem
      cases hmem
    | some found =>
      obtain ⟨hfound, hlonger⟩ := fits_of_longest? hchoice
      have hlength : found.text.toList.length = mark.text.toList.length :=
        Nat.le_antisymm (hmax found hfound) (hlonger mark hfits)
      exact congrArg some (hfound.eq_of_length_eq hfits hlength)

theorem prefix_of_longest? {limit : Nat} {text : List Char} {mark : Punctuator}
    (h : longest? limit text = some mark) : mark.text.toList <+: text :=
  (fits_of_longest? h).1.begins

theorem prefix_of_prefix_append {α : Type} {part whole after : List α} (h : part <+: whole ++ after)
    (hafter : ∀ x, after.head? = some x → x ∉ part) : part <+: whole := by
  rcases List.prefix_or_prefix_of_prefix h (List.prefix_append whole after) with hpart | ⟨more, rfl⟩
  · exact hpart
  · have hmore : more <+: after := (List.prefix_append_right_inj whole).mp h
    cases more with
    | nil => simp
    | cons x more =>
      obtain ⟨rest, rfl⟩ := hmore
      exact absurd (by simp) (hafter x rfl)

/-- A punctuator is found as it is written where none can go on with what follows. -/
theorem longest?_append {limit : Nat} {mark : Punctuator} {after : List Char}
    (hlimit : mark.text.toList.length ≤ limit)
    (hafter : ∀ ch, after.head? = some ch → ∀ other : Punctuator, ch ∉ other.text.toList) :
    longest? limit (mark.text.toList ++ after) = some mark := by
  refine longest?_eq_some_iff.mpr ⟨⟨List.prefix_append _ _, hlimit⟩, fun other hother => ?_⟩
  exact (prefix_of_prefix_append hother.begins fun ch hch => hafter ch hch other).length_le

/-- The first character of a punctuator is a punctuator. -/
theorem exists_text_eq_singleton (mark : Punctuator) :
    ∃ ch rest, mark.text.toList = ch :: rest ∧
      ∃ single : Punctuator, single.text.toList = [ch] := by
  have hall : ∀ mark ∈ all, (all.any fun single => single.text.toList == mark.text.toList.take 1) ∧
      mark.text.toList ≠ [] := by
    decide
  obtain ⟨hsingle, hne⟩ := hall mark (mem_all mark)
  obtain ⟨ch, rest, htext⟩ := List.exists_cons_of_ne_nil hne
  obtain ⟨single, -, hsingle⟩ := List.any_eq_true.mp hsingle
  exact ⟨ch, rest, htext, single, by rw [beq_iff_eq.mp hsingle, htext]; rfl⟩

/-- Whether anything is found does not depend on the limit, but on the first character
alone. -/
theorem longest?_eq_none_iff {limit : Nat} {ch : Char} {rest : List Char} (hlimit : 1 ≤ limit) :
    longest? limit (ch :: rest) = none ↔
      ∀ mark : Punctuator, mark.text.toList.head? ≠ some ch := by
  constructor
  · intro h mark hhead
    obtain ⟨first, more, htext, single, hsingle⟩ := exists_text_eq_singleton mark
    obtain rfl : first = ch := by simpa [htext] using hhead
    have hnil := (eq_nil_of_foldl_longer (Option.map_eq_none_iff.mp h)).1
    have hfits : Fits limit (first :: rest) single := ⟨by simp [hsingle], by simpa [hsingle]⟩
    have hmem := mem_fitting_iff.mpr ⟨rfl, hfits⟩
    rw [hnil] at hmem
    cases hmem
  · intro hhead
    refine Option.eq_none_iff_forall_ne_some.mpr fun mark hmark => hhead mark ?_
    obtain ⟨first, more, htext, -⟩ := exists_text_eq_singleton mark
    have hprefix := prefix_of_longest? hmark
    rw [htext] at hprefix ⊢
    rw [(List.cons_prefix_cons.mp hprefix).1]
    rfl

theorem byteSize_text (mark : Punctuator) :
    Text.byteSize mark.text.toList = mark.text.utf8ByteSize := by
  cases mark <;> decide

theorem text_toList_ne_nil (mark : Punctuator) : mark.text.toList ≠ [] := by
  obtain ⟨ch, rest, htext, -⟩ := exists_text_eq_singleton mark
  simp [htext]

end TypedScript.Punctuator
