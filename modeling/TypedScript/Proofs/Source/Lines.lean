import TypedScript.Source

/-! # Lines and offsets

The starts of the lines of a text are in strict order, and there is one more of them than
there are line feeds. So the line of an offset is told by the line feeds in front of it, and a
line with a column is the same as an offset: going from either to the other and back changes
nothing, and larger offsets have later places.
-/

namespace TypedScript

namespace Text

variable {text : List Char} {offset n line start : Nat}

/-- All bytes of a character of several bytes are beyond ASCII. -/
theorem le_of_mem_utf8EncodeChar {ch : Char} (h : ch.utf8Size ≠ 1) :
    ∀ b ∈ String.utf8EncodeChar ch, 0x80 ≤ b.toNat := by
  have hor : ∀ b m : UInt8, 0x80 ≤ m.toNat → 0x80 ≤ (b ||| m).toNat := by
    intro b m hm
    rw [UInt8.toNat_or]
    exact Nat.le_trans hm Nat.right_le_or
  have hpos := ch.utf8Size_pos
  have hfour := ch.utf8Size_le_four
  intro b hb
  obtain hsize | hsize | hsize : ch.utf8Size = 2 ∨ ch.utf8Size = 3 ∨ ch.utf8Size = 4 := by omega
  · rw [String.utf8EncodeChar_eq_cons_cons hsize] at hb
    simp only [List.mem_cons, List.not_mem_nil, or_false] at hb
    rcases hb with rfl | rfl <;> exact hor _ _ (by decide)
  · rw [String.utf8EncodeChar_eq_cons_cons_cons hsize] at hb
    simp only [List.mem_cons, List.not_mem_nil, or_false] at hb
    rcases hb with rfl | rfl | rfl <;> exact hor _ _ (by decide)
  · rw [String.utf8EncodeChar_eq_cons_cons_cons_cons hsize] at hb
    simp only [List.mem_cons, List.not_mem_nil, or_false] at hb
    rcases hb with rfl | rfl | rfl | rfl <;> exact hor _ _ (by decide)

theorem feed_notMem_utf8EncodeChar {ch : Char} (h : ch ≠ '\n') :
    0x0A ∉ String.utf8EncodeChar ch := by
  intro hmem
  have hone : ch.utf8Size = 1 := Decidable.byContradiction fun hne =>
    absurd (le_of_mem_utf8EncodeChar hne _ hmem) (by decide)
  have hle : ch.val.toNat ≤ 127 := UInt32.le_iff_toNat_le.mp (Char.utf8Size_eq_one_iff.mp hone)
  rw [String.utf8EncodeChar_eq_singleton hone, List.mem_singleton] at hmem
  have hbyte : 10 = ch.val.toNat % 256 := (congrArg UInt8.toNat hmem).trans (UInt32.toNat_toUInt8 _)
  apply h
  apply Char.toNat_inj.mp
  change ch.val.toNat = 10
  omega

/-- The lines behind the first begin behind line feeds. -/
theorem exists_of_mem_furtherLines (h : start ∈ furtherLines offset text) :
    ∃ before rest, text = before ++ '\n' :: rest ∧ start = offset + byteSize (before ++ ['\n']) := by
  induction text generalizing offset with
  | nil => cases h
  | cons ch text ih =>
    have hmore : start ∈ furtherLines (offset + ch.utf8Size) text → ∃ before rest,
        ch :: text = before ++ '\n' :: rest ∧ start = offset + byteSize (before ++ ['\n']) := by
      intro hmem
      obtain ⟨before, rest, rfl, rfl⟩ := ih hmem
      exact ⟨ch :: before, rest, rfl, Nat.add_assoc ..⟩
    rw [furtherLines] at h
    split at h
    · rename_i hch
      rcases List.mem_cons.mp h with rfl | hmem
      · exact ⟨[], text, by rw [hch]; rfl, by rw [hch]; rfl⟩
      · exact hmore hmem
    · exact hmore h

theorem lt_of_mem_furtherLines : ∀ next ∈ furtherLines offset text, offset < next := by
  intro next hnext
  obtain ⟨before, rest, -, rfl⟩ := exists_of_mem_furtherLines hnext
  have hfeed := Char.utf8Size_pos '\n'
  rw [byteSize_append, byteSize_cons]
  omega

theorem pairwise_furtherLines : (furtherLines offset text).Pairwise (· < ·) := by
  induction text generalizing offset with
  | nil => exact .nil
  | cons ch text ih =>
    rw [furtherLines]
    split
    · exact List.pairwise_cons.mpr ⟨lt_of_mem_furtherLines, ih⟩
    · exact ih

theorem pairwise_lineStarts (text : List Char) : (lineStarts text).Pairwise (· < ·) :=
  List.pairwise_cons.mpr ⟨lt_of_mem_furtherLines, pairwise_furtherLines⟩

theorem length_furtherLines : (furtherLines offset text).length = text.count '\n' := by
  induction text generalizing offset with
  | nil => rfl
  | cons ch text ih =>
    rw [furtherLines, List.count_cons]
    split <;> simp [*]

theorem le_of_mem_furtherLines :
    ∀ next ∈ furtherLines offset text, next ≤ offset + byteSize text := by
  intro next hnext
  obtain ⟨before, rest, rfl, rfl⟩ := exists_of_mem_furtherLines hnext
  simp only [byteSize_append, byteSize_cons, byteSize_nil]
  omega

theorem countP_le_eq_zero {starts : List Nat} (h : ∀ next ∈ starts, offset < next) :
    starts.countP (· ≤ offset) = 0 := by
  rw [List.countP_eq_zero]
  intro next hnext
  simpa using h next hnext

theorem countP_furtherLines_eq_zero (h : n ≤ offset) :
    (furtherLines offset text).countP (· ≤ n) = 0 :=
  countP_le_eq_zero fun next hnext => Nat.lt_of_le_of_lt h (lt_of_mem_furtherLines next hnext)

theorem furtherLines_feed :
    furtherLines offset ('\n' :: text) = (offset + 1) :: furtherLines (offset + 1) text := by
  rw [furtherLines, if_pos rfl]
  rfl

/-- Up to an offset as many lines begin behind the first as there are line feeds. -/
theorem count_take_utf8 (n offset : Nat) (text : List Char) :
    ((utf8 text).take n).count 0x0A = (furtherLines offset text).countP (· ≤ offset + n) := by
  induction text generalizing n offset with
  | nil => simp [utf8, furtherLines]
  | cons ch text ih =>
    by_cases hch : ch = '\n'
    · subst hch
      have hfeed : utf8 ('\n' :: text) = 0x0A :: utf8 text := rfl
      rw [hfeed, furtherLines_feed]
      cases n with
      | zero =>
        have hnone : (furtherLines (offset + 1) text).countP (· ≤ offset) = 0 :=
          countP_furtherLines_eq_zero (Nat.le_succ offset)
        simp [hnone]
      | succ n =>
        have hnext : offset + 1 ≤ offset + (n + 1) := by omega
        have hsum : offset + 1 + n = offset + (n + 1) := by omega
        rw [List.take_succ_cons, List.count_cons_self, ih n (offset + 1), hsum]
        exact (List.countP_cons_of_pos (by simp)).symm
    · have hfront : ((String.utf8EncodeChar ch).take n).count 0x0A = 0 :=
        List.count_eq_zero.mpr fun hmem =>
          feed_notMem_utf8EncodeChar hch (List.mem_of_mem_take hmem)
      have hsplit : utf8 (ch :: text) = String.utf8EncodeChar ch ++ utf8 text := rfl
      rw [hsplit, List.take_append, List.count_append, hfront, Nat.zero_add,
        String.length_utf8EncodeChar, ih _ (offset + ch.utf8Size), furtherLines, if_neg hch]
      by_cases hn : ch.utf8Size ≤ n
      · have hsum : offset + ch.utf8Size + (n - ch.utf8Size) = offset + n := by omega
        rw [hsum]
      · rw [countP_furtherLines_eq_zero (by omega), countP_furtherLines_eq_zero (by omega)]

/-- In a strict order as many entries lie up to an entry as its place says. -/
theorem countP_le_of_getElem? {starts : List Nat} (h : starts.Pairwise (· < ·)) {k : Nat}
    (hk : starts[k]? = some start) : starts.countP (· ≤ start) = k + 1 := by
  induction starts generalizing k with
  | nil => simp at hk
  | cons first starts ih =>
    obtain ⟨hfirst, hrest⟩ := List.pairwise_cons.mp h
    cases k with
    | zero =>
      obtain rfl : first = start := by simpa using hk
      rw [List.countP_cons_of_pos (by simp), countP_le_eq_zero hfirst]
    | succ k =>
      rw [List.getElem?_cons_succ] at hk
      have hlt := hfirst start (List.mem_of_getElem? hk)
      rw [List.countP_cons_of_pos (by simpa using Nat.le_of_lt hlt), ih hrest hk]

theorem countP_cons_eq_zero {first : Nat} {starts : List Nat}
    (h : (first :: starts).Pairwise (· < ·)) (hlt : offset < first) :
    (first :: starts).countP (· ≤ offset) = 0 := by
  have hfirst := (List.pairwise_cons.mp h).1
  exact countP_le_eq_zero <|
    List.forall_mem_cons.mpr ⟨hlt, fun next hnext => Nat.lt_trans hlt (hfirst next hnext)⟩

/-- In a strict order the entries up to a bound stand at the front. -/
theorem partitionPoint_eq_countP {table : List Nat} (h : table.Pairwise (· < ·)) (bound : Nat) :
    partitionPoint (· ≤ bound) table = table.countP (· ≤ bound) := by
  induction table with
  | nil => rfl
  | cons first table ih =>
    obtain ⟨hfirst, hrest⟩ := List.pairwise_cons.mp h
    by_cases hle : first ≤ bound
    · rw [partitionPoint, List.takeWhile_cons_of_pos (by simpa using hle), List.length_cons,
        List.countP_cons_of_pos (by simpa using hle), ← ih hrest]
      rfl
    · rw [partitionPoint, List.takeWhile_cons_of_neg (by simpa using hle),
        countP_cons_eq_zero h (Nat.lt_of_not_le hle)]
      rfl

/-- The sentinel is beyond every offset that has a place. -/
theorem partitionPoint_lineTable (text : List Char) (h : offset < lineSentinel) :
    partitionPoint (· ≤ offset) (lineTable text) = (lineStarts text).countP (· ≤ offset) := by
  have hsentinel : [lineSentinel].takeWhile (· ≤ offset) = [] :=
    List.takeWhile_cons_of_neg (by simpa using h)
  rw [← partitionPoint_eq_countP (pairwise_lineStarts text), partitionPoint, lineTable,
    List.takeWhile_append, hsentinel, List.append_nil]
  split
  · exact (‹_› : _ = _).symm
  · rfl

/-- The last of the entries up to a bound is found behind the others. -/
theorem exists_getElem?_countP {more : List Nat} (hstart : start ≤ offset)
    (h : (start :: more).Pairwise (· < ·)) :
    ∃ last, (start :: more)[more.countP (· ≤ offset)]? = some last ∧ last ≤ offset := by
  induction more generalizing start with
  | nil => exact ⟨start, rfl, hstart⟩
  | cons next more ih =>
    obtain ⟨hnext, hmore⟩ := List.pairwise_cons.mp h
    by_cases hle : next ≤ offset
    · obtain ⟨last, hlast, hlastle⟩ := ih hle hmore
      refine ⟨last, ?_, hlastle⟩
      rw [List.countP_cons_of_pos (by simpa using hle), List.getElem?_cons_succ]
      exact hlast
    · rw [countP_cons_eq_zero hmore (Nat.lt_of_not_le hle)]
      exact ⟨start, rfl, hstart⟩

theorem lineStart?_succ (text : List Char) (k : Nat) :
    lineStart? text (k + 1) = (lineStarts text)[k]? := by
  simp only [lineStart?, lineTable, List.length_append, List.length_singleton,
    Nat.add_lt_add_iff_right]
  split
  · rename_i hk
    exact List.getElem?_append_left hk
  · rename_i hk
    exact (List.getElem?_eq_none (Nat.le_of_not_lt hk)).symm

theorem place_spec (text : List Char) (h : offset < lineSentinel) :
    (place text offset).line = 1 + ((utf8 text).take offset).count 0x0A ∧
      ∃ start, lineStart? text (place text offset).line = some start ∧ start ≤ offset ∧
        (place text offset).column = offset - start + 1 := by
  have hcount := count_take_utf8 offset 0 text
  rw [Nat.zero_add] at hcount
  obtain ⟨start, hstart, hle⟩ :
      ∃ start, (lineStarts text)[(furtherLines 0 text).countP (· ≤ offset)]? = some start ∧
        start ≤ offset :=
    exists_getElem?_countP (Nat.zero_le offset) (pairwise_lineStarts text)
  have hindex : partitionPoint (· ≤ offset) (lineTable text) - 1 =
      (furtherLines 0 text).countP (· ≤ offset) := by
    rw [partitionPoint_lineTable text h, lineStarts, List.countP_cons_of_pos (by simp)]
    rfl
  have hentry : (lineTable text).getD ((furtherLines 0 text).countP (· ≤ offset)) 0 = start := by
    have hlt := (List.getElem?_eq_some_iff.mp hstart).1
    rw [List.getD_eq_getElem?_getD, lineTable, List.getElem?_append_left hlt, hstart]
    rfl
  have hplace : place text offset =
      ⟨(furtherLines 0 text).countP (· ≤ offset) + 1, offset - start + 1⟩ := by
    simp only [place, hindex, hentry]
  rw [hplace, hcount]
  exact ⟨Nat.add_comm _ 1, start, (lineStart?_succ text _).trans hstart, hle, rfl⟩

theorem exists_of_lineStart? (h : lineStart? text line = some start) :
    ∃ k, line = k + 1 ∧ (lineStarts text)[k]? = some start := by
  cases line with
  | zero => cases h
  | succ k => exact ⟨k, rfl, (lineStart?_succ text k).symm.trans h⟩

/-- A line starts at the beginning of the text or behind a line feed. -/
theorem exists_of_lineStart?_text (h : lineStart? text line = some start) :
    ∃ before rest, text = before ++ rest ∧ byteSize before = start ∧
      ∀ ch, before.getLast? = some ch → ch = '\n' := by
  obtain ⟨k, -, hk⟩ := exists_of_lineStart? h
  rcases List.mem_cons.mp (List.mem_of_getElem? hk) with rfl | hmem
  · exact ⟨[], text, rfl, rfl, fun ch hch => by cases hch⟩
  · obtain ⟨before, rest, rfl, rfl⟩ := exists_of_mem_furtherLines hmem
    refine ⟨before ++ ['\n'], rest, by simp, (Nat.zero_add _).symm, fun ch hch => ?_⟩
    rw [List.getLast?_concat] at hch
    exact (Option.some.inj hch).symm

theorem count_take_lineStart? (h : lineStart? text line = some start) :
    1 + ((utf8 text).take start).count 0x0A = line := by
  obtain ⟨k, rfl, hk⟩ := exists_of_lineStart? h
  have hcount := countP_le_of_getElem? (pairwise_lineStarts text) hk
  rw [lineStarts, List.countP_cons_of_pos (by simp)] at hcount
  rw [count_take_utf8 start 0 text, Nat.zero_add, Nat.add_comm]
  exact hcount

theorem place_lineStart? (h : lineStart? text line = some start) (hbound : start < lineSentinel) :
    place text start = ⟨line, 1⟩ := by
  obtain ⟨hline, first, hfirst, hle, hcolumn⟩ := place_spec text hbound
  rw [count_take_lineStart? h] at hline
  obtain rfl : start = first := by
    rw [hline, h] at hfirst
    exact Option.some.inj hfirst
  rw [Nat.sub_self] at hcolumn
  generalize place text start = p at hline hcolumn ⊢
  cases p
  cases hline
  cases hcolumn
  rfl

theorem isSome_lineStart?_iff :
    (lineStart? text line).isSome = true ↔ 1 ≤ line ∧ line ≤ 1 + text.count '\n' := by
  cases line with
  | zero => simp [lineStart?]
  | succ k =>
    rw [lineStart?_succ, isSome_getElem?, lineStarts, List.length_cons, length_furtherLines]
    omega

theorem lineStart?_lt_lineStart? {line' start' : Nat} (h : lineStart? text line = some start)
    (h' : lineStart? text line' = some start') (hlt : line < line') : start < start' := by
  obtain ⟨k, rfl, hk⟩ := exists_of_lineStart? h
  obtain ⟨k', rfl, hk'⟩ := exists_of_lineStart? h'
  obtain ⟨hlen, rfl⟩ := List.getElem?_eq_some_iff.mp hk
  obtain ⟨hlen', rfl⟩ := List.getElem?_eq_some_iff.mp hk'
  exact List.pairwise_iff_getElem.mp (pairwise_lineStarts text) k k' hlen hlen' (by omega)

theorem lineStart?_le_byteSize (h : lineStart? text line = some start) : start ≤ byteSize text := by
  obtain ⟨k, -, hk⟩ := exists_of_lineStart? h
  rcases List.mem_cons.mp (List.mem_of_getElem? hk) with rfl | hmem
  · exact Nat.zero_le _
  · have := le_of_mem_furtherLines start hmem
    omega

theorem feed_notMem_of_place (hbound : offset < lineSentinel)
    (h : lineStart? text (place text offset).line = some start) (hle : start ≤ offset) :
    0x0A ∉ ((utf8 text).take offset).drop start := by
  have hline := (place_spec text hbound).1
  have hcount := count_take_lineStart? h
  have htake : ((utf8 text).take offset).take start = (utf8 text).take start := by
    rw [List.take_take, Nat.min_eq_left hle]
  have hsplit : ((utf8 text).take offset).count 0x0A = ((utf8 text).take start).count 0x0A +
      (((utf8 text).take offset).drop start).count 0x0A := by
    rw [← htake, ← List.count_append, List.take_append_drop]
  rw [← List.count_eq_zero]
  omega

theorem place_lt_place {offset' : Nat} (hlt : offset < offset') (hbound : offset' < lineSentinel) :
    (place text offset).line < (place text offset').line ∨
      (place text offset).line = (place text offset').line ∧
        (place text offset).column < (place text offset').column := by
  obtain ⟨hline, start, hstart, hle, hcolumn⟩ := place_spec text (Nat.lt_trans hlt hbound)
  obtain ⟨hline', start', hstart', hle', hcolumn'⟩ := place_spec text hbound
  have hcount : ((utf8 text).take offset).count 0x0A ≤ ((utf8 text).take offset').count 0x0A :=
    (List.take_sublist_take_left (Nat.le_of_lt hlt)).count_le 0x0A
  by_cases hsame : (place text offset).line = (place text offset').line
  · rw [hsame, hstart'] at hstart
    obtain rfl := Option.some.inj hstart
    exact .inr ⟨hsame, by omega⟩
  · exact .inl (by omega)

end Text

namespace Source

open Text

variable {s : Source} {offset line start : Nat}

theorem place_eq_ok_iff {p : Place} :
    s.place offset = .ok p ↔ offset < offsetBound ∧ Text.place s.text.toList offset = p := by
  unfold place
  split <;> simp [*]

theorem exists_place (h : offset < offsetBound) : ∃ p, s.place offset = .ok p :=
  ⟨_, place_eq_ok_iff.mpr ⟨h, rfl⟩⟩

/-- In a text that is shorter than the bound of offsets, places and offsets determine each
other. The line of an offset is told by the line feeds in front of it, with none of them
between the start of the line and the offset, and the column is counted from that start; the
line that is asked for by itself is the same, and the column is remembered with it. There is
one more line than there are line feeds; later lines start later, each at its first column;
and later offsets have later places. -/
theorem places_of_offsets (s : Source) (hsize : s.length < offsetBound) :
    let bytes := utf8 s.text.toList
    (∀ offset < offsetBound, ∃ p start, s.place offset = .ok p ∧
      p.line = 1 + (bytes.take offset).count 0x0A ∧ s.lineStart? p.line = some start ∧
      start + p.column - 1 = offset ∧ 1 ≤ p.column ∧ 0x0A ∉ (bytes.take offset).drop start ∧
      s.lineAt offset = .ok (p.line, { s with column := p.column })) ∧
    (∀ line, (s.lineStart? line).isSome = true ↔
      1 ≤ line ∧ line ≤ 1 + s.text.toList.count '\n') ∧
    (∀ line line' start start', s.lineStart? line = some start → s.lineStart? line' = some start' →
      line < line' → start < start') ∧
    (∀ line start, s.lineStart? line = some start → s.place start = .ok ⟨line, 1⟩) ∧
    ∀ offset offset' p p', s.place offset = .ok p → s.place offset' = .ok p' → offset < offset' →
      p.line < p'.line ∨ p.line = p'.line ∧ p.column < p'.column := by
  intro bytes
  refine ⟨fun offset hoffset => ?_, fun line => isSome_lineStart?_iff,
    fun line line' start start' => lineStart?_lt_lineStart?, fun line start hstart => ?_, ?_⟩
  · obtain ⟨hline, start, hstart, hle, hcolumn⟩ := place_spec s.text.toList hoffset
    have hplace : s.place offset = .ok (Text.place s.text.toList offset) :=
      place_eq_ok_iff.mpr ⟨hoffset, rfl⟩
    refine ⟨_, start, hplace, hline, hstart, by omega, by omega, ?_, ?_⟩
    · exact feed_notMem_of_place hoffset hstart hle
    · rw [lineAt, hplace]
      rfl
  · have hbound := Nat.lt_of_le_of_lt (lineStart?_le_byteSize hstart) hsize
    exact place_eq_ok_iff.mpr ⟨hbound, place_lineStart? hstart hbound⟩
  · intro offset offset' p p' hp hp' hlt
    obtain ⟨-, rfl⟩ := place_eq_ok_iff.mp hp
    obtain ⟨hbound, rfl⟩ := place_eq_ok_iff.mp hp'
    exact place_lt_place hlt hbound

theorem places_of_offsets_inside :
    let s := Source.new 0 .user "src/a.ts" "é\n\nü\r"
    s.length < offsetBound ∧ 5 < offsetBound ∧ s.lineStart? 3 = some 4 ∧
      s.place 4 = .ok ⟨3, 1⟩ ∧ s.lineAt 5 = .ok (3, { s with column := 2 }) ∧
      s.lineStart? 4 = none := by
  intro s
  have hsize : s.length < offsetBound := by decide +kernel
  have hoffset : 5 < offsetBound := by decide
  have hthird : s.lineStart? 3 = some 4 := by decide +kernel
  have hcount : 1 + ((utf8 s.text.toList).take 5).count 0x0A = 3 := by decide +kernel
  have hlines : 1 + s.text.toList.count '\n' = 3 := by decide +kernel
  obtain ⟨hplaces, hdefined, -, hfirst, -⟩ := places_of_offsets s hsize
  obtain ⟨p, start, -, hline, hstart, hoffsets, -, -, hlineAt⟩ := hplaces 5 hoffset
  rw [hcount] at hline
  rw [hline, hthird] at hstart
  obtain rfl := Option.some.inj hstart
  have hcolumn : p.column = 2 := by omega
  rw [hline, hcolumn] at hlineAt
  refine ⟨hsize, hoffset, hthird, hfirst 3 4 hthird, hlineAt, ?_⟩
  rw [← Option.not_isSome_iff_eq_none, hdefined, hlines]
  omega

end Source

end TypedScript
