import TypedScript.Proofs.Lexer.DigitRun
import TypedScript.Proofs.Lexer.Escapes
import TypedScript.Proofs.Lexer.Replay

/-! # Escapes that are accepted

An escape is accepted if there is nothing to report of it. This is so exactly if the text
goes on behind the backslash with one of four forms: a row of two hexadecimal digits or of
four behind its letter, a code between braces, or any other character. The code is a run of
digits as in a number, so a separator may stand between two of them.
-/

namespace TypedScript.Lexer

open Text Numeral

def IsHexRow (n : Nat) (row : List Char) : Prop :=
  row.length = n ∧ ∀ ch ∈ row, (Radix.hexadecimal.digit? ch).isSome = true

/-- What an escape is behind its backslash; `IsCode` says which runs may stand in braces. -/
inductive IsEscapeForm (IsCode : List Char → Prop) : List Char → Prop
  | byte {row : List Char} (h : IsHexRow 2 row) : IsEscapeForm IsCode ('x' :: row)
  | unit {row : List Char} (h : IsHexRow 4 row) : IsEscapeForm IsCode ('u' :: row)
  | braced {run : List Char} (h : IsCode run) (hsmall : Radix.hexadecimal.value run ≤ 0x10FFFF) :
    IsEscapeForm IsCode ('u' :: '\x7b' :: (run ++ ['\x7d']))
  | other {ch : Char} (h : ch ≠ 'x' ∧ ch ≠ 'u') : IsEscapeForm IsCode [ch]

variable {c start : Cursor} {ch : Char} {n : Nat} {text : List Char}
  {IsCode : List Char → Prop}

theorem isEscapeForm_byte_iff :
    (∃ form, form <+: 'x' :: text ∧ IsEscapeForm IsCode form) ↔
      ∃ row, row <+: text ∧ IsHexRow 2 row := by
  constructor
  · rintro ⟨form, hbegins, hform⟩
    cases hform with
    | byte hrow => exact ⟨_, (List.cons_prefix_cons.mp hbegins).2, hrow⟩
    | unit => exact absurd (List.cons_prefix_cons.mp hbegins).1 (by decide)
    | braced => exact absurd (List.cons_prefix_cons.mp hbegins).1 (by decide)
    | other hne => exact absurd (List.cons_prefix_cons.mp hbegins).1 hne.1
  · rintro ⟨row, hbegins, hrow⟩
    exact ⟨_, List.cons_prefix_cons.mpr ⟨rfl, hbegins⟩, .byte hrow⟩

theorem isEscapeForm_unit_iff :
    (∃ form, form <+: 'u' :: text ∧ IsEscapeForm IsCode form) ↔
      (∃ row, row <+: text ∧ IsHexRow 4 row) ∨
      ∃ run, '\x7b' :: (run ++ ['\x7d']) <+: text ∧ IsCode run ∧
        Radix.hexadecimal.value run ≤ 0x10FFFF := by
  constructor
  · rintro ⟨form, hbegins, hform⟩
    cases hform with
    | byte => exact absurd (List.cons_prefix_cons.mp hbegins).1 (by decide)
    | unit hrow => exact .inl ⟨_, (List.cons_prefix_cons.mp hbegins).2, hrow⟩
    | braced hcode hsmall =>
      exact .inr ⟨_, (List.cons_prefix_cons.mp hbegins).2, hcode, hsmall⟩
    | other hne => exact absurd (List.cons_prefix_cons.mp hbegins).1 hne.2
  · rintro (⟨row, hbegins, hrow⟩ | ⟨run, hbegins, hcode, hsmall⟩)
    · exact ⟨_, List.cons_prefix_cons.mpr ⟨rfl, hbegins⟩, .unit hrow⟩
    · exact ⟨_, List.cons_prefix_cons.mpr ⟨rfl, hbegins⟩, .braced hcode hsmall⟩

theorem hexValue?_lt (h : hexValue? ch = some n) : n < 16 := by
  have hle : ∀ low high : Char, (low ≤ ch && ch ≤ high) = true →
      ch.toNat - low.toNat ≤ high.toNat - low.toNat := by
    intro low high hbounds
    simp only [Bool.and_eq_true, decide_eq_true_eq] at hbounds
    exact Nat.sub_le_sub_right (UInt32.le_iff_toNat_le.mp hbounds.2) _
  unfold hexValue? at h
  split at h
  · rename_i hdigit
    have hnine : ch.toNat - 48 ≤ 9 := hle '0' '9' hdigit
    have hn : ch.toNat - 48 = n := Option.some.inj h
    omega
  · split at h
    · rename_i hlower
      have hfive : ch.toNat - 97 ≤ 5 := hle 'a' 'f' hlower
      have hn : ch.toNat - 97 + 10 = n := Option.some.inj h
      omega
    · split at h
      · rename_i hupper
        have hfive : ch.toNat - 65 ≤ 5 := hle 'A' 'F' hupper
        have hn : ch.toNat - 65 + 10 = n := Option.some.inj h
        omega
      · cases h

theorem digit?_hexadecimal (ch : Char) : Radix.hexadecimal.digit? ch = hexValue? ch := by
  rw [Radix.digit?]
  cases h : hexValue? ch with
  | none => rfl
  | some n => simp [Option.filter, Radix.base, hexValue?_lt h]

theorem isHexRow_cons_iff {row : List Char} :
    IsHexRow (n + 1) (ch :: row) ↔ (hexValue? ch).isSome = true ∧ IsHexRow n row := by
  simp only [IsHexRow, List.length_cons, Nat.add_right_cancel_iff, List.forall_mem_cons,
    digit?_hexadecimal]
  exact and_left_comm

theorem not_isHexRow_of_brace {row : List Char} (h : row <+: '\x7b' :: text) :
    ¬ IsHexRow (n + 1) row := by
  rintro ⟨hlength, hdigits⟩
  obtain ⟨first, more, rfl⟩ := List.exists_cons_of_length_eq_add_one hlength
  obtain rfl := (List.cons_prefix_cons.mp h).1
  exact absurd (hdigits _ List.mem_cons_self) (by decide)

theorem readHexRow_eq_complete_iff (value : Nat) (hc : c.inside = 0) :
    (∃ unit stop, readHexRow n value c = .complete unit stop) ↔
      ∃ row, row <+: c.rest ∧ IsHexRow n row := by
  constructor
  · intro h
    induction n generalizing value c with
    | zero => exact ⟨[], List.nil_prefix, rfl, List.forall_mem_nil _⟩
    | succ n ih =>
      obtain ⟨unit, stop, h⟩ := h
      unfold readHexRow at h
      split at h
      · cases h
      · rename_i ch hch
        split at h
        · cases h
        · rename_i digit hdigit
          have hstep := Cursor.passes_advance_one hch (utf8Size_of_hexValue? hdigit)
          obtain ⟨row, hbegins, hrow⟩ := ih _ hstep.inside_eq' ⟨unit, stop, h⟩
          refine ⟨ch :: row, ?_, isHexRow_cons_iff.mpr ⟨by rw [hdigit]; rfl, hrow⟩⟩
          rw [hstep.rest_eq]
          exact List.cons_prefix_cons.mpr ⟨rfl, hbegins⟩
  · rintro ⟨row, ⟨after, hrest⟩, rfl, hdigits⟩
    obtain ⟨stop, hread, -⟩ := readHexRow_of_digits value hc hrest.symm hdigits
    exact ⟨_, stop, hread⟩

theorem reports_readHexEscape_eq_nil_iff (hc : c.inside = 0)
    {continue_ : Nat → Cursor → Reading String}
    (h : ∀ value stop, (continue_ value stop).reports = []) :
    (readHexEscape false start n c continue_).reports = [] ↔
      ∃ row, row <+: c.rest ∧ IsHexRow n row := by
  rw [← readHexRow_eq_complete_iff 0 hc]
  cases hrow : readHexRow n 0 c with
  | complete unit stop => simp [readHexEscape, hrow, h]
  | badDigit place => simp [readHexEscape, badHexEscape, hrow]
  | cutOff place => simp [readHexEscape, badHexEscape, hrow]

theorem outOfRange_iff (n : Nat) :
    (decide (UInt64.size ≤ n) || decide ((0x10FFFF : UInt64) < .ofNat n)) = true ↔
      0x10FFFF < n := by
  rw [Bool.or_eq_true, decide_eq_true_eq, decide_eq_true_eq, UInt64.lt_iff_toNat_lt]
  have hlimit : (0x10FFFF : UInt64).toNat = 0x10FFFF := rfl
  rcases Nat.lt_or_ge n UInt64.size with hfits | hlarge
  · have hn : (UInt64.ofNat n).toNat = n := UInt64.toNat_ofNat_of_lt hfits
    rw [hn, hlimit]
    omega
  · have hsize : 0x10FFFF < UInt64.size := by decide
    exact ⟨fun _ => Nat.lt_of_lt_of_le hsize hlarge, fun _ => .inl hlarge⟩

/-- Between braces everything is right exactly if the code is in range and its brace is
closed. -/
theorem bracedFaults_eq_nil_iff :
    bracedFaults c (readDigits .hexadecimal start c) = [] ↔
      Radix.hexadecimal.value (digitRun .hexadecimal c) ≤ 0x10FFFF ∧
        (readDigits .hexadecimal start c).stop.char? = some '\x7d' := by
  simp only [bracedFaults, List.append_eq_nil_iff]
  refine and_congr ?_ ?_
  · rw [ite_eq_right_iff, ← Nat.not_lt, ← outOfRange_iff, value_readDigits]
    simp only [reduceCtorEq, imp_false]
    rfl
  · constructor
    · intro h
      split at h
      · cases h
      · split at h
        · assumption
        · cases h
    · intro h
      rw [atEnd_of_char? h, if_neg Bool.false_ne_true, if_pos h]

theorem reports_readBracedEscape (start c : Cursor) :
    (readBracedEscape false start c).reports =
      (readDigits .hexadecimal start c).reports ++
        bracedFaults c (readDigits .hexadecimal start c) := by
  simp only [readBracedEscape]
  split
  · rename_i hnone
    rw [hnone, List.append_nil]
  · rfl

theorem reports_readBracedEscape_eq_nil_iff (hc : c.inside = 0) :
    (readBracedEscape false start c).reports = [] ↔
      ∃ run, run ++ ['\x7d'] <+: c.rest ∧ IsGrouped .hexadecimal run ∧
        Radix.hexadecimal.value run ≤ 0x10FFFF := by
  have hpart := passes_readDigits .hexadecimal start hc
  rw [reports_readBracedEscape, List.append_eq_nil_iff, reports_readDigits_eq_nil_iff,
    bracedFaults_eq_nil_iff]
  constructor
  · rintro ⟨⟨hgrouped, -⟩, hsmall, hclose⟩
    obtain ⟨-, rest, hrest⟩ := Cursor.char?_eq_some_iff.mp hclose
    refine ⟨digitRun .hexadecimal c, ⟨rest, ?_⟩, hgrouped, hsmall⟩
    rw [List.append_assoc, hpart.rest_eq, hrest]
    rfl
  · rintro ⟨run, ⟨rest, hrest⟩, hgrouped, hsmall⟩
    rw [List.append_assoc] at hrest
    have hrun : digitRun .hexadecimal c = run :=
      digitRun_of_isGrouped hc hrest.symm hgrouped (by rintro _ ⟨⟩; decide)
    rw [hrun] at hpart ⊢
    refine ⟨⟨hgrouped, nofun, Nat.lt_of_le_of_lt hsmall (by decide)⟩, hsmall, ?_⟩
    exact Cursor.char?_eq_some_iff.mpr ⟨hpart.inside_eq', rest, hpart.rest_eq_of_append hrest.symm⟩

theorem reports_readEscapeAfter_other (tagged : Bool) (start c : Cursor)
    (h : ch ≠ 'x' ∧ ch ≠ 'u') : (readEscapeAfter tagged start ch c).reports = [] := by
  unfold readEscapeAfter
  split
  · split <;> rfl
  · exact absurd rfl h.2
  · exact absurd rfl h.1
  · rfl
  · split <;> rfl

theorem reports_readEscapeAfter_unit_eq_nil_iff (start : Cursor) (hc : c.inside = 0) :
    (readEscapeAfter false start 'u' c).reports = [] ↔
      ∃ form, form <+: 'u' :: c.rest ∧ IsEscapeForm (IsGrouped .hexadecimal) form := by
  rw [isEscapeForm_unit_iff]
  -- An opening brace is no digit, so at most one of the two forms fits.
  by_cases hbrace : c.char? = some '\x7b'
  · have hstep := Cursor.passes_advance_one hbrace rfl
    have hrow : ¬ ∃ row, row <+: c.rest ∧ IsHexRow 4 row := by
      rintro ⟨row, hbegins, hrow⟩
      rw [hstep.rest_eq] at hbegins
      exact not_isHexRow_of_brace hbegins hrow
    have hread : readEscapeAfter false start 'u' c = readBracedEscape false start (c.advance 1) :=
      if_pos hbrace
    rw [hread, reports_readBracedEscape_eq_nil_iff hstep.inside_eq', or_iff_right hrow,
      hstep.rest_eq]
    simp only [List.singleton_append, List.cons_prefix_cons, true_and]
  · have hrun : ¬ ∃ run, '\x7b' :: (run ++ ['\x7d']) <+: c.rest ∧ IsGrouped .hexadecimal run ∧
        Radix.hexadecimal.value run ≤ 0x10FFFF := by
      rintro ⟨run, ⟨rest, hrest⟩, -⟩
      exact hbrace (Cursor.char?_eq_some_iff.mpr ⟨hc, _, hrest.symm⟩)
    have hread : readEscapeAfter false start 'u' c = readHexEscape false start 4 c readPair :=
      if_neg hbrace
    rw [hread, or_iff_left hrun]
    exact reports_readHexEscape_eq_nil_iff hc reports_readPair

theorem reports_readEscapeAfter_eq_nil_iff (start : Cursor) (ch : Char) (hc : c.inside = 0) :
    (readEscapeAfter false start ch c).reports = [] ↔
      ∃ form, form <+: ch :: c.rest ∧ IsEscapeForm (IsGrouped .hexadecimal) form := by
  by_cases hbyte : ch = 'x'
  · subst hbyte
    rw [isEscapeForm_byte_iff]
    exact reports_readHexEscape_eq_nil_iff hc fun _ _ => rfl
  · by_cases hunit : ch = 'u'
    · subst hunit
      exact reports_readEscapeAfter_unit_eq_nil_iff start hc
    · have hform : IsEscapeForm (IsGrouped .hexadecimal) [ch] := .other ⟨hbyte, hunit⟩
      rw [reports_readEscapeAfter_other false start c ⟨hbyte, hunit⟩]
      exact ⟨fun _ => ⟨[ch], ⟨c.rest, rfl⟩, hform⟩, fun _ => rfl⟩

theorem reports_readEscape_of_lone (tagged : Bool) (hc : c.inside = 0) (h : c.rest = ['\\']) :
    (readEscape tagged c).reports = [.point .unexpectedEnd (c.pos + 1)] := by
  have hslash := Cursor.passes_advance_one (Cursor.char?_eq_some_iff.mpr ⟨hc, [], h⟩) rfl
  have hrest : (c.advance 1).rest = [] := hslash.rest_eq_of_append h
  have hnone : (c.advance 1).char? = none :=
    (Cursor.char?_eq_none_iff hslash.inside_eq').mpr hrest
  have hend : (c.advance 1).endPos = c.pos + 1 := by
    rw [Cursor.endPos, hslash.inside_eq', hrest, hslash.pos_eq]
    rfl
  simp only [readEscape, hnone, hend]

theorem reports_readEscape_eq_nil_iff (h : c.char? = some '\\') :
    (readEscape false c).reports = [] ↔
      ∃ form, '\\' :: form <+: c.rest ∧ IsEscapeForm (IsGrouped .hexadecimal) form := by
  obtain ⟨hc, rest, hrest⟩ := Cursor.char?_eq_some_iff.mp h
  cases rest with
  | nil =>
    rw [reports_readEscape_of_lone false hc hrest]
    refine ⟨fun hnil => absurd hnil (List.cons_ne_nil _ _), ?_⟩
    rintro ⟨form, hbegins, hform⟩
    rw [hrest, List.cons_prefix_cons, List.prefix_nil] at hbegins
    rw [hbegins.2] at hform
    cases hform
  | cons ch rest =>
    obtain ⟨d, hread, hpart⟩ := readEscape_of_rest false hc hrest
    rw [hread, reports_readEscapeAfter_eq_nil_iff c ch hpart.inside_eq', hrest,
      hpart.rest_eq_of_append hrest]
    simp only [List.cons_prefix_cons, true_and]

/-- Wherever a backslash stands, the reader of escapes has nothing to report exactly if the
text goes on with a form of an escape, digits in braces being grouped as those of numbers
are; what it reports is what it adds to the log. -/
theorem escape_silent_iff (l : Lexer) (h : l.cursor.char? = some '\\') :
    let reports := (Operation.escape false).reports l
    (reports = [] ↔
      ∃ form, '\\' :: form <+: l.cursor.rest ∧ IsEscapeForm (IsGrouped .hexadecimal) form) ∧
    (l.takeEscape false).2.log = l.log.pushAll (reports.map (·.message l.source)) :=
  ⟨reports_readEscape_eq_nil_iff h, l.log_take _⟩

theorem escape_silent_iff_grouped :
    let l := Lexer.new 0 "\\u\x7b01_0F_fFe\x7d" .empty
    l.cursor.char? = some '\\' ∧ (Operation.escape false).reports l = [] := by
  intro l
  have hrest : l.cursor.rest = "\\u\x7b01_0F_fFe\x7d".toList := by decide +kernel
  have hslash : l.cursor.char? = some '\\' := by decide +kernel
  refine ⟨hslash, (escape_silent_iff l hslash).1.mpr ⟨"u\x7b01_0F_fFe\x7d".toList, ?_, ?_⟩⟩
  · rw [hrest]
    exact List.prefix_rfl
  · have hgrouped : IsGrouped .hexadecimal "01_0F_fFe".toList :=
      .cons rfl (.separated rfl (.cons rfl (.separated rfl (.cons rfl (.cons rfl (.single rfl))))))
    exact .braced hgrouped (by decide)

/-- A separator between digits in braces is accepted, though no digit. -/
theorem escape_silent_at_separator :
    let l := Lexer.new 0 "\\u\x7b1_0\x7d" .empty
    let IsDigits := fun run : List Char =>
      run ≠ [] ∧ ∀ ch ∈ run, (Radix.hexadecimal.digit? ch).isSome = true
    l.cursor.char? = some '\\' ∧ (Operation.escape false).reports l = [] ∧
      ¬ ∃ form, '\\' :: form <+: l.cursor.rest ∧ IsEscapeForm IsDigits form := by
  intro l IsDigits
  have hrest : l.cursor.rest = ['\\', 'u', '\x7b', '1', '_', '0', '\x7d'] := by decide +kernel
  refine ⟨by decide +kernel, by decide +kernel, ?_⟩
  rintro ⟨form, hbegins, hform⟩
  rw [hrest] at hbegins
  have hunit := isEscapeForm_unit_iff.mp ⟨form, (List.cons_prefix_cons.mp hbegins).2, hform⟩
  rcases hunit with ⟨row, hbegins, hrow⟩ | ⟨run, hbegins, ⟨hne, hdigits⟩, -⟩
  · exact not_isHexRow_of_brace hbegins hrow
  · -- The run would have to go on over the separator.
    have hrun := (List.cons_prefix_cons.mp hbegins).2
    match run, hne, hdigits with
    | [first], _, _ =>
      exact absurd (List.cons_prefix_cons.mp (List.cons_prefix_cons.mp hrun).2).1 (by decide)
    | first :: second :: more, _, hdigits =>
      obtain rfl := (List.cons_prefix_cons.mp (List.cons_prefix_cons.mp hrun).2).1
      exact absurd (hdigits '_' (List.mem_cons_of_mem _ List.mem_cons_self)) (by decide)

end TypedScript.Lexer
