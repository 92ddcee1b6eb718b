import TypedScript.Proofs.Token.Longest

/-! # Punctuators grow to the longest

A punctuator is read by growing it, and what is read is the longest one that fits. This
rests on the table of growths: each adds to the text of its punctuator what it says and
is tried from the length it leads to, and every longer punctuator is reached over one.
-/

namespace TypedScript.Punctuator

theorem growth_spec (mark : Punctuator) : ∀ g ∈ growths mark,
    g.mark.text.toList = mark.text.toList ++ g.more ∧ g.least = g.mark.text.toList.length := by
  have hall : ∀ mark ∈ all, ∀ g ∈ growths mark,
      g.mark.text.toList = mark.text.toList ++ g.more ∧
        g.least = g.mark.text.toList.length := by
    decide +kernel
  exact hall mark (mem_all mark)

/-- A punctuator that begins another one grows towards it. -/
theorem exists_growth {mark other : Punctuator} (h : mark.text.toList <+: other.text.toList) :
    other = mark ∨ ∃ g ∈ growths mark, g.mark.text.toList <+: other.text.toList := by
  have hall : ∀ mark ∈ all, ∀ other ∈ all, mark.text.toList <+: other.text.toList →
      other = mark ∨ ∃ g ∈ growths mark, g.mark.text.toList <+: other.text.toList := by
    decide +kernel
  exact hall mark (mem_all mark) other (mem_all other) h

theorem single?_eq_some_iff {ch : Char} {mark : Punctuator} :
    single? ch = some mark ↔ mark.text.toList = [ch] := by
  constructor
  · intro h
    unfold single? at h
    split at h
    all_goals cases h
    all_goals decide
  · have hall : ∀ mark ∈ all, mark.text.toList.length = 1 →
        (mark.text.toList.head?.bind single?) = some mark := by
      decide +kernel
    intro h
    simpa [h] using hall mark (mem_all mark) (by rw [h]; rfl)

theorem length_text_pos (mark : Punctuator) : 0 < mark.text.toList.length :=
  List.length_pos_iff.mpr mark.text_toList_ne_nil

/-- Where no growth of a punctuator goes on, none that fits is longer. -/
theorem length_le_of_not_goesOn {limit : Nat} {mark other : Punctuator} {text : List Char}
    (h : ∀ g ∈ growths mark, g.goesOn limit text = false)
    (hother : Fits (max limit 1) (mark.text.toList ++ text) other) :
    other.text.toList.length ≤ mark.text.toList.length := by
  refine Nat.le_of_not_lt fun hlt => ?_
  have hbegins : mark.text.toList <+: other.text.toList :=
    List.prefix_of_prefix_length_le (List.prefix_append _ _) hother.begins (Nat.le_of_lt hlt)
  rcases exists_growth hbegins with rfl | ⟨g, hg, htowards⟩
  · exact Nat.lt_irrefl _ hlt
  · obtain ⟨htext, hleast⟩ := growth_spec mark g hg
    have hmore : g.more <+: text := by
      have hboth := htowards.trans hother.begins
      rwa [htext, List.prefix_append_right_inj] at hboth
    have hlimit : g.least ≤ limit := by
      have hle := Nat.le_trans htowards.length_le hother.length_le
      have hlength := congrArg List.length htext
      have hfirst := mark.length_text_pos
      have hrest := List.length_pos_iff.mpr (more_ne_nil g hg)
      rw [List.length_append] at hlength
      omega
    have hgoes : g.goesOn limit text = true := by
      simp [Growth.goesOn, hlimit, List.isPrefixOf_iff_prefix.mpr hmore]
    rw [h g hg] at hgoes
    cases hgoes

/-- What has been grown fits, takes as many characters as its text has, and is the longest
that does. -/
theorem grow_spec {limit taken : Nat} {mark : Punctuator} {text whole : List Char}
    (hwhole : whole = mark.text.toList ++ text) (htaken : taken = mark.text.toList.length)
    (hle : taken ≤ max limit 1) :
    let grown := grow limit mark taken text
    Fits (max limit 1) whole grown.1 ∧ grown.2 = grown.1.text.toList.length ∧
      ∀ other, Fits (max limit 1) whole other →
        other.text.toList.length ≤ grown.1.text.toList.length := by
  fun_induction grow limit mark taken text with
  | case1 mark taken text hnone =>
    refine ⟨⟨⟨text, hwhole.symm⟩, htaken ▸ hle⟩, htaken, fun other hother => ?_⟩
    refine length_le_of_not_goesOn (fun g hg => ?_) (hwhole ▸ hother)
    simpa using List.find?_eq_none.mp hnone g hg
  | case2 mark taken text g hsome hmore ih =>
    have hgoes := List.find?_some hsome
    simp only [Growth.goesOn, Bool.and_eq_true, decide_eq_true_eq,
      List.isPrefixOf_iff_prefix] at hgoes
    obtain ⟨hlimit, hprefix⟩ := hgoes
    obtain ⟨htext, hleast⟩ := growth_spec mark g (List.mem_of_find?_eq_some hsome)
    have hgrown : taken + g.more.length = g.mark.text.toList.length := by
      rw [htext, List.length_append, htaken]
    refine ih ?_ hgrown ?_
    · obtain ⟨rest, rfl⟩ := hprefix
      rw [hwhole, htext, List.drop_left, List.append_assoc]
    · rw [hgrown, ← hleast]
      exact Nat.le_trans hlimit (Nat.le_max_left _ _)

/-- The punctuator that is read is the longest one that fits, and it takes the characters of
its text. A limit below one is as good as one. -/
theorem read?_eq (limit : Nat) (text : List Char) :
    read? limit text =
      (longest? (max limit 1) text).map fun mark => (mark, mark.text.toList.length) := by
  cases text with
  | nil =>
    have hnone : longest? (max limit 1) [] = none :=
      Option.eq_none_iff_forall_ne_some.mpr fun mark hmark =>
        mark.text_toList_ne_nil (List.prefix_nil.mp (prefix_of_longest? hmark))
    rw [hnone]
    rfl
  | cons ch rest =>
    cases hsingle : single? ch with
    | none =>
      have hnone : longest? (max limit 1) (ch :: rest) = none := by
        refine (longest?_eq_none_iff (Nat.le_max_right _ _)).mpr fun mark hhead => ?_
        obtain ⟨first, more, htext, single, hfirst⟩ := exists_text_eq_singleton mark
        obtain rfl : first = ch := by simpa [htext] using hhead
        rw [single?_eq_some_iff.mpr hfirst] at hsingle
        cases hsingle
      rw [read?, hsingle, hnone]
      rfl
    | some mark =>
      have htext := single?_eq_some_iff.mp hsingle
      have hwhole : ch :: rest = mark.text.toList ++ rest := by rw [htext]; rfl
      have htaken : 1 = mark.text.toList.length := by rw [htext]; rfl
      obtain ⟨hfits, hlength, hmax⟩ := grow_spec hwhole htaken (Nat.le_max_right limit 1)
      rw [read?, hsingle, longest?_eq_some_iff.mpr ⟨hfits, hmax⟩, Option.map_some, Option.map_some,
        ← hlength]

theorem length_text (mark : Punctuator) : mark.text.toList.length = mark.text.utf8ByteSize := by
  cases mark <;> decide

end TypedScript.Punctuator
