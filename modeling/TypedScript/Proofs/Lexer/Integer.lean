import TypedScript.Proofs.Lexer.Spelling
import TypedScript.Proofs.Numeral.Written

/-! # Integer literals

A run of digits with separators between some of them is read as the number it denotes, with
nothing to report as long as the number fits. An integer literal is such a run, behind the
mark of its radix unless the number is decimal. The digits of a decimal number begin with
a zero only if the number is zero, so that no radix is taken from them.
-/

namespace TypedScript.Lexer

open Text Numeral

variable {c : Cursor} {ch : Char} {r : Radix} {run after : List Char}

theorem separatorReport?_of_isSome (strictZero : Bool) (start pos : Nat) (before : Option Char)
    (h : (r.digit? ch).isSome = true) :
    separatorReport? strictZero start ((before, ch), pos) = none := by
  refine if_neg ?_
  rintro rfl
  rw [digit?_separator] at h
  cases h

/-- No separator of a run is at fault, wherever the rest of a run that is at `pos` began. -/
theorem filterMap_separatorReport?_eq_nil {strictZero : Bool} {start pos : Nat}
    (hrun : IsGrouped r run) (hpos : start ≤ pos)
    (hzero : strictZero = true → pos = start → ¬ ['0', '_'] <+: run) (before : Option Char) :
    (((before :: run.map some).zip run).zipIdx pos).filterMap
      (separatorReport? strictZero start) = [] := by
  -- Behind its first digit a run is past `start`, so a zero there is no lone one in front.
  induction hrun generalizing pos before with
  | single hdigit => simp [separatorReport?_of_isSome _ _ _ _ hdigit]
  | cons hdigit _ ih =>
    simp only [List.map_cons, List.zip_cons_cons, List.zipIdx_cons]
    rw [List.filterMap_cons_none (separatorReport?_of_isSome _ _ _ _ hdigit)]
    exact ih (Nat.le_succ_of_le hpos) (fun _ hstart => by omega) _
  | @separated digit run hdigit _ ih =>
    have hne : digit ≠ '_' := by
      rintro rfl
      rw [digit?_separator] at hdigit
      cases hdigit
    have hfirst : (strictZero && decide (digit = '0') && decide (pos + 1 = start + 1)) = false := by
      refine Bool.eq_false_iff.mpr fun hall => ?_
      simp only [Bool.and_eq_true, decide_eq_true_eq] at hall
      obtain ⟨⟨hstrict, rfl⟩, hstart⟩ := hall
      exact hzero hstrict (by omega) ⟨run, rfl⟩
    have hnone : separatorReport? strictZero start ((some digit, '_'), pos + 1) = none := by
      simp only [separatorReport?, separatorFault?, hne, hfirst, if_true, if_false,
        Bool.false_eq_true, Option.map_none]
    simp only [List.map_cons, List.zip_cons_cons, List.zipIdx_cons]
    rw [List.filterMap_cons_none (separatorReport?_of_isSome _ _ _ _ hdigit),
      List.filterMap_cons_none hnone]
    exact ih (by omega) (fun _ hstart => by omega) _

theorem isDigitOrSeparator_of_mem (hrun : IsGrouped r run) (h : ch ∈ run) :
    isDigitOrSeparator r ch = true := by
  rcases hrun.isSome_of_mem h with hdigit | rfl
  · rw [isDigitOrSeparator, hdigit, Bool.true_or]
  · rw [isDigitOrSeparator, beq_self_eq_true, Bool.or_true]

/-- A run of digits that is not prolonged is read as its number. -/
theorem readDigits_of_isGrouped (literal : Cursor) (hc : c.inside = 0)
    (h : c.rest = run ++ after) (hrun : IsGrouped r run)
    (hzero : r = .decimal → ¬ ['0', '_'] <+: run)
    (hafter : ∀ ch, after.head? = some ch → isDigitOrSeparator r ch = false)
    (hfits : r.value run < UInt64.size) :
    ∃ stop, readDigits r literal c = ⟨⟨.ofNat (r.value run), false⟩, stop, []⟩ ∧
      c.Passes run stop := by
  have hpasses := Cursor.passes_skipChars_append hc h
    (fun _ => isDigitOrSeparator_of_mem hrun) hafter
  have hchars : c.chars.takeWhile (isDigitOrSeparator r) = run := by
    have hall := Cursor.passes_skipChars hc (isDigitOrSeparator r)
    have hstop := hall.rest_eq
    rw [h, hpasses.rest_eq_of_append h] at hstop
    rw [Cursor.chars, if_pos hc, h]
    exact (List.append_cancel_right hstop).symm
  have hseparators : separatorReports (r = .decimal) c.pos run = [] :=
    filterMap_separatorReport?_eq_nil hrun (Nat.le_refl _)
      (fun hdecimal _ => hzero (of_decide_eq_true hdecimal)) none
  have hsmall : decide (UInt64.size ≤ r.value run) = false :=
    decide_eq_false (Nat.not_le_of_lt hfits)
  refine ⟨_, ?_, hpasses⟩
  simp only [readDigits_eq, hchars, hseparators, hrun.ne_nil, Digits.low, hsmall, trailingReports,
    hrun.getLast?_ne, Bool.false_and, Bool.false_eq_true, if_false, List.append_nil]

theorem isDecimal_of_isSome (h : (Radix.decimal.digit? ch).isSome = true) :
    isDecimal ch = true := by
  obtain ⟨k, hk⟩ := Option.isSome_iff_exists.mp h
  obtain ⟨hvalue, hlt⟩ := Option.filter_eq_some_iff.mp hk
  have hten : k < 10 := of_decide_eq_true hlt
  unfold hexValue? at hvalue
  split at hvalue
  · assumption
  · split at hvalue
    · have hsum := Option.some.inj hvalue
      omega
    · split at hvalue
      · have hsum := Option.some.inj hvalue
        omega
      · cases hvalue

theorem isDecimal_of_mem_toDigits {n : Nat} (h : ch ∈ Nat.toDigits 10 n) : isDecimal ch = true := by
  obtain ⟨k, hk, rfl⟩ := isDigit_of_mem_toDigits (r := .decimal) h
  exact isDecimal_of_isSome (by rw [digit?_digitChar hk]; rfl)

theorem exists_toDigits_eq_cons (n : Nat) :
    ∃ first rest, Nat.toDigits 10 n = first :: rest ∧ isDecimal first = true := by
  obtain ⟨first, rest, hfirst⟩ := List.exists_cons_of_ne_nil
    (Nat.toDigits_ne_nil (n := n) (b := 10))
  exact ⟨first, rest, hfirst, isDecimal_of_mem_toDigits (n := n) (hfirst ▸ List.mem_cons_self)⟩

/-- The decimal form begins with a zero only where it is nothing else. -/
theorem toDigits_of_head_eq_zero {n : Nat} (h : (Nat.toDigits 10 n).head? = some '0') :
    Nat.toDigits 10 n = ['0'] := by
  suffices hzero : n = 0 by
    rw [hzero]
    rfl
  induction n using Nat.strongRecOn with
  | _ n ih =>
    rw [Nat.toDigits_eq_if (by decide)] at h
    split at h
    · exact Nat.digitChar_eq_zero.mp (Option.some.inj h)
    · rename_i hge
      obtain ⟨first, rest, hfirst, -⟩ := exists_toDigits_eq_cons (n / 10)
      have hhead : (Nat.toDigits 10 (n / 10)).head? = some '0' := by
        rw [hfirst] at h ⊢
        exact h
      have hquotient := ih (n / 10) (by omega) hhead
      omega

theorem mem_digits_of_isDecimal (h : isDecimal ch = true) :
    ch ∈ ['0', '1', '2', '3', '4', '5', '6', '7', '8', '9'] := by
  simp only [isDecimal, Bool.and_eq_true, decide_eq_true_eq, Char.le_def,
    UInt32.le_iff_toNat_le] at h
  have hch : ch = Char.ofNat ch.toNat := (Char.ofNat_toNat ch).symm
  have hlow : 48 ≤ ch.toNat := h.1
  have hhigh : ch.toNat ≤ 57 := h.2
  generalize ch.toNat = n at hch hlow hhigh
  have hn : n = 48 ∨ n = 49 ∨ n = 50 ∨ n = 51 ∨ n = 52 ∨ n = 53 ∨ n = 54 ∨ n = 55 ∨ n = 56 ∨
      n = 57 := by
    omega
  rw [hch]
  rcases hn with rfl | rfl | rfl | rfl | rfl | rfl | rfl | rfl | rfl | rfl <;> decide

theorem inCase_of_isDecimal (upper : Bool) (h : isDecimal ch = true) : inCase upper ch = ch := by
  have hall : (['0', '1', '2', '3', '4', '5', '6', '7', '8', '9'].all fun ch =>
      ch.toUpper == ch) = true := by
    decide
  rw [inCase, beq_iff_eq.mp (List.all_eq_true.mp hall ch (mem_digits_of_isDecimal h)), ite_self]

/-- However a decimal number is written, a zero in front of it stands alone. -/
theorem write_toDigits_of_head_eq_zero (upper separated : Nat → Bool) {n : Nat}
    (h : (write upper separated 0 (Nat.toDigits 10 n)).head? = some '0') :
    write upper separated 0 (Nat.toDigits 10 n) = ['0'] := by
  have hhead : (Nat.toDigits 10 n).head? = some '0' := by
    obtain ⟨first, rest, hfirst, hdigit⟩ := exists_toDigits_eq_cons n
    rw [head?_write, hfirst] at h
    rw [hfirst]
    rwa [List.head?_cons, Option.map_some, inCase_of_isDecimal _ hdigit] at h
  rw [toDigits_of_head_eq_zero hhead]
  exact congrArg ([·]) (inCase_of_isDecimal (upper 0) (by decide))

theorem isIdentifierPart_of_hexValue? {n : Nat} (h : hexValue? ch = some n) :
    isIdentifierPart ch = true := by
  have hascii : isAscii ch = true := by
    have hle : ch.toNat ≤ 127 :=
      UInt32.le_iff_toNat_le.mp (Char.utf8Size_eq_one_iff.mp (utf8Size_of_hexValue? h))
    exact decide_eq_true (Nat.lt_succ_of_le hle)
  have hletter : (isAsciiLetter ch || isDecimal ch) = true := by
    unfold hexValue? at h
    simp only [isAsciiLetter, Bool.or_eq_true, Bool.and_eq_true, decide_eq_true_eq]
    split at h
    · exact .inr ‹_›
    · split at h
      · rename_i hlower
        simp only [Bool.and_eq_true, decide_eq_true_eq] at hlower
        exact .inl (.inl ⟨hlower.1, Char.le_trans hlower.2 (by decide)⟩)
      · split at h
        · rename_i hupper
          simp only [Bool.and_eq_true, decide_eq_true_eq] at hupper
          exact .inl (.inr ⟨hupper.1, Char.le_trans hupper.2 (by decide)⟩)
        · cases h
  rw [isIdentifierPart, if_pos hascii, hletter]
  rfl

theorem isDigitOrSeparator_eq_false (r : Radix) (h : isIdentifierPart ch = false) :
    isDigitOrSeparator r ch = false := by
  refine Bool.eq_false_iff.mpr fun hpart => ?_
  rcases Bool.or_eq_true_iff.mp hpart with hdigit | hseparator
  · obtain ⟨k, hk⟩ := Option.isSome_iff_exists.mp hdigit
    rw [isIdentifierPart_of_hexValue? (Option.filter_eq_some_iff.mp hk).1] at h
    cases h
  · obtain rfl := beq_iff_eq.mp hseparator
    exact absurd h (by decide)

theorem isDecimal_eq_false (h : isIdentifierPart ch = false) : isDecimal ch = false := by
  refine Bool.eq_false_iff.mpr fun hdecimal => ?_
  have hnone := isDigitOrSeparator_eq_false .decimal h
  rw [isDigitOrSeparator_of_isDecimal hdecimal] at hnone
  cases hnone

theorem isExponentMark_eq_false (h : isIdentifierPart ch = false) :
    Decimal.isExponentMark ch = false := by
  refine Bool.eq_false_iff.mpr fun hmark => ?_
  simp only [Decimal.isExponentMark, Bool.or_eq_true, beq_iff_eq] at hmark
  rcases hmark with rfl | rfl <;> exact absurd h (by decide)

/-- What follows a number goes on neither with a word nor with a fraction. -/
def EndsNumber (after : List Char) : Prop :=
  ∀ ch, after.head? = some ch → isIdentifierPart ch = false ∧ ch ≠ '.'

theorem EndsNumber.of_space (h : ∀ ch, after.head? = some ch → ch = ' ') : EndsNumber after := by
  intro ch hch
  obtain rfl := h ch hch
  decide

theorem pieceAt_number (handling : WordHandling) (limit : Nat) (h : c.char? = some ch)
    (hdigit : isDecimal ch = true) :
    pieceAt handling limit c = .token (if isInteger c then .integer else .float) c := by
  have hall : (['0', '1', '2', '3', '4', '5', '6', '7', '8', '9'].all fun ch =>
      !isIdentifierStart ch && !(isSpace ch || isLineBreak ch) &&
        (ch != '\x22' && ch != '\x27') && ch != '\x60') = true := by
    decide
  have hch := List.all_eq_true.mp hall ch (mem_digits_of_isDecimal hdigit)
  simp only [Bool.and_eq_true, Bool.not_eq_true', bne_iff_ne] at hch
  obtain ⟨⟨⟨hword, hblank⟩, hquote⟩, hbacktick⟩ := hch
  unfold pieceAt
  rw [h]
  simp only [hword, hblank, hquote, hbacktick, hdigit, decide_false, Bool.or_false,
    Bool.false_eq_true, if_false, if_true]

theorem isInteger_of_isGrouped (hc : c.inside = 0) (h : c.rest = run ++ after)
    (hrun : IsGrouped .decimal run) (hafter : EndsNumber after) : isInteger c = true := by
  have hplain : isInteger.plain c.chars = true := by
    have hpart : ∀ ch ∈ run, (isDecimal ch || ch == '_') = true := by
      intro ch hch
      rcases hrun.isSome_of_mem hch with hdigit | rfl
      · rw [isDecimal_of_isSome hdigit, Bool.true_or]
      · rfl
    rw [Cursor.chars, if_pos hc, h, isInteger.plain, List.dropWhile_append_of_pos hpart]
    cases after with
    | nil => rfl
    | cons ch after =>
      obtain ⟨hword, hpoint⟩ := hafter ch rfl
      have hseparator : ch ≠ '_' := by
        rintro rfl
        exact absurd hword (by decide)
      rw [List.dropWhile_cons_of_neg (by simp [isDecimal_eq_false hword, hseparator])]
      simp [hpoint, isExponentMark_eq_false hword]
  unfold isInteger
  split
  · rename_i hchars
    rw [← hchars, hplain, Bool.or_true]
  · exact hplain

theorem isInteger_of_ofLetter? {letter : Char} {rest : List Char} (hc : c.inside = 0)
    (h : c.rest = '0' :: letter :: rest) (hletter : Radix.ofLetter? letter = some r) :
    isInteger c = true := by
  rw [isInteger, Cursor.chars, if_pos hc, h]
  simp only [hletter, Option.isSome_some, Bool.true_or]

theorem isGrouped_of_decimal (upper separated : Nat → Bool) (n : Nat) :
    IsGrouped .decimal (write upper separated 0 (Nat.toDigits 10 n)) :=
  isGrouped_write upper separated 0 Nat.toDigits_ne_nil
    fun _ => isDigit_of_mem_toDigits (r := .decimal)

theorem exists_text_eq_cons (s : IntegerStyle) (n : Nat) :
    ∃ first rest, s.text n = first :: rest ∧ isDecimal first = true := by
  rcases s.text_cases n with ⟨-, htext⟩ | ⟨letter, -, htext⟩
  · obtain ⟨digit, digits, hdigits, hdigit⟩ := exists_toDigits_eq_cons n
    have hhead : (s.text n).head? = some digit := by
      rw [htext, head?_write, hdigits]
      exact congrArg some (inCase_of_isDecimal _ hdigit)
    obtain ⟨rest, hrest⟩ := List.head?_eq_some_iff.mp hhead
    exact ⟨digit, rest, hrest, hdigit⟩
  · exact ⟨'0', _, htext, by decide⟩

theorem pieceAt_integer (handling : WordHandling) (limit : Nat) (s : IntegerStyle) {n : Nat}
    (hc : c.inside = 0) (h : c.rest = s.text n ++ after) (hafter : EndsNumber after) :
    pieceAt handling limit c = .token .integer c := by
  have hinteger : isInteger c = true := by
    rcases s.text_cases n with ⟨-, htext⟩ | ⟨letter, hletter, htext⟩
    · rw [htext] at h
      exact isInteger_of_isGrouped hc h (isGrouped_of_decimal s.upper s.separated n) hafter
    · rw [htext] at h
      exact isInteger_of_ofLetter? hc h hletter
  obtain ⟨first, rest, hfirst, hdigit⟩ := exists_text_eq_cons s n
  rw [hfirst] at h
  rw [pieceAt_number handling limit (Cursor.char?_eq_some_iff.mpr ⟨hc, _, h⟩) hdigit, hinteger,
    if_pos rfl]

theorem readInteger_of_decimal
    (h : ∀ letter rest, c.chars = '0' :: letter :: rest →
      Radix.ofLetter? letter = none ∧ isOctal letter = false) :
    readInteger c =
      ⟨(readDigits .decimal c c).value.value, (readDigits .decimal c c).stop,
        (readDigits .decimal c c).reports⟩ := by
  unfold readInteger
  split
  · rename_i letter _ _ hchars
    obtain ⟨hletter, hoctal⟩ := h letter _ hchars
    simp only [hletter, hoctal, Bool.false_eq_true, if_false]
  · rfl

theorem readInteger_of_ofLetter? {letter second : Char} {rest : List Char} (hc : c.inside = 0)
    (h : c.rest = '0' :: letter :: second :: rest) (hletter : Radix.ofLetter? letter = some r) :
    readInteger c =
      ⟨(readDigits r c (c.advance 2)).value.value, (readDigits r c (c.advance 2)).stop,
        (readDigits r c (c.advance 2)).reports⟩ := by
  rw [readInteger, Cursor.chars, if_pos hc, h]
  simp only [hletter]

theorem isDecimal_of_isOctal (h : isOctal ch = true) : isDecimal ch = true := by
  simp only [isOctal, isDecimal, Bool.and_eq_true, decide_eq_true_eq] at h ⊢
  exact ⟨h.1, Char.le_trans h.2 (by decide)⟩

theorem not_octal_of_isIdentifierPart (h : isIdentifierPart ch = false) :
    Radix.ofLetter? ch = none ∧ isOctal ch = false := by
  constructor
  · unfold Radix.ofLetter?
    split <;> first | rfl | exact absurd h (by decide)
  · refine Bool.eq_false_iff.mpr fun hoctal => ?_
    have hdecimal := isDecimal_of_isOctal hoctal
    rw [isDecimal_eq_false h] at hdecimal
    cases hdecimal

theorem readInteger_write_toDigits (upper separated : Nat → Bool) {n : Nat} (hc : c.inside = 0)
    (h : c.rest = write upper separated 0 (Nat.toDigits 10 n) ++ after) (hn : n < UInt64.size)
    (hafter : EndsNumber after) :
    ∃ stop, readInteger c = ⟨.ofNat n, stop, []⟩ ∧
      c.Passes (write upper separated 0 (Nat.toDigits 10 n)) stop := by
  have hvalue : Radix.decimal.value (write upper separated 0 (Nat.toDigits 10 n)) = n := by
    exact (value_write upper separated 0 fun _ => isDigit_of_mem_toDigits (r := .decimal)).trans
      (value_toDigits .decimal n)
  have hzero : ¬ ['0', '_'] <+: write upper separated 0 (Nat.toDigits 10 n) := by
    rintro ⟨rest, hrest⟩
    have halone := write_toDigits_of_head_eq_zero upper separated (by rw [← hrest]; rfl)
    rw [← hrest] at halone
    cases halone
  obtain ⟨stop, hread, hpart⟩ := readDigits_of_isGrouped c hc h
    (isGrouped_of_decimal upper separated n) (fun _ => hzero)
    (fun ch hch => isDigitOrSeparator_eq_false .decimal (hafter ch hch).1) (by rwa [hvalue])
  refine ⟨stop, ?_, hpart⟩
  rw [readInteger_of_decimal, hread, hvalue]
  -- No radix is named: a zero in front stands alone, and what follows it is no letter.
  intro letter rest hchars
  rw [Cursor.chars, if_pos hc, h] at hchars
  have halone := write_toDigits_of_head_eq_zero upper separated (n := n) <| by
      obtain ⟨first, more, hfirst⟩ := List.exists_cons_of_ne_nil
        (isGrouped_of_decimal upper separated n).ne_nil
      rw [hfirst] at hchars ⊢
      exact congrArg List.head? hchars
  have hletter : after.head? = some letter := by
    rw [halone, List.singleton_append, List.cons.injEq] at hchars
    rw [hchars.2]
    rfl
  exact not_octal_of_isIdentifierPart (hafter letter hletter).1

theorem readInteger_text (s : IntegerStyle) {n : Nat} (hc : c.inside = 0)
    (h : c.rest = s.text n ++ after) (hn : n < UInt64.size) (hafter : EndsNumber after) :
    ∃ stop, readInteger c = ⟨.ofNat n, stop, []⟩ ∧ c.Passes (s.text n) stop := by
  rcases s.text_cases n with ⟨-, htext⟩ | ⟨letter, hletter, htext⟩
  · rw [htext] at h ⊢
    exact readInteger_write_toDigits s.upper s.separated hc h hn hafter
  · rw [htext] at h ⊢
    have hrun := s.isGrouped_digits n
    have hmark := Cursor.passes_advance_two hc h rfl
      (utf8Size_of_ofLetter? (by rw [hletter]; rfl))
    have hdecimal : s.radix ≠ .decimal := by
      intro hradix
      rw [hradix] at hletter
      unfold Radix.ofLetter? at hletter
      split at hletter <;> cases hletter
    obtain ⟨stop, hread, hpart⟩ := readDigits_of_isGrouped c hmark.inside_eq'
      (hmark.rest_eq_of_append h) hrun (fun hradix => absurd hradix hdecimal)
      (fun ch hch => isDigitOrSeparator_eq_false s.radix (hafter ch hch).1)
      (by rwa [s.value_digits])
    refine ⟨stop, ?_, hmark.trans hpart⟩
    obtain ⟨second, rest, hsecond⟩ := List.exists_cons_of_ne_nil hrun.ne_nil
    rw [hsecond] at h
    rw [readInteger_of_ofLetter? hc h hletter, hread, s.value_digits]

theorem takeInteger_text {l : Lexer} {gap : List Char} (handling : WordHandling) (s : IntegerStyle)
    (value : UInt64) (hpart : l.cursor.Passes gap c) (hgap : ∀ ch ∈ gap, ch = ' ')
    (h : c.rest = s.text value.toNat ++ after) (hafter : EndsNumber after) :
    ∃ last, (l.next handling).2.token = .integer ∧
      (l.next handling).2.takeInteger = (value, last) ∧ Silent l last ∧
      c.Passes (s.text value.toNat) last.cursor := by
  have hc := hpart.inside_eq'
  have hpiece := pieceAt_integer handling noLimit s hc h hafter
  obtain ⟨htoken, hcursor, hsilent⟩ := silent_next hpart hgap hpiece
  obtain ⟨stop, hread, hstop⟩ := readInteger_text s hc h value.toNat_lt_size hafter
  rw [← hcursor] at hread
  refine ⟨(l.next handling).2.takeInteger.2, htoken, ?_,
    hsilent.trans (silent_take (by rw [hread])), ?_⟩
  · rw [takeInteger, hread, UInt64.ofNat_toNat]
    rfl
  · rw [takeInteger, hread]
    exact hstop

/-- An integer literal that makes up a text, or is followed by what cannot go on with a number,
is one token with the number it is written for, and there is nothing to report. -/
theorem next_takeInteger_new (source : SourceId) (log : Diagnostic.Log) (handling : WordHandling)
    (s : IntegerStyle) (value : UInt64) (after : List Char)
    (hafter : ∀ ch, after.head? = some ch → isIdentifierPart ch = false ∧ ch ≠ '.') :
    let literal := s.text value.toNat
    let l := Lexer.new source (String.ofList (literal ++ after)) log
    let found := (l.next handling).2
    let last := found.takeInteger.2
    (l.next handling).1 = .integer ∧ found.takeInteger.1 = value ∧
      last.cursor = ⟨byteSize literal, after, 0⟩ ∧ last.log = log ∧ last.comments = #[] := by
  intro literal l found last
  have hcursor : l.cursor = .start (literal ++ after) := by
    rw [← String.toList_ofList (l := literal ++ after)]
    refine cursor_new_of_head source log fun ch hch => ?_
    obtain ⟨first, rest, hfirst, hdigit⟩ := exists_text_eq_cons s value.toNat
    rw [String.toList_ofList, show literal = first :: rest from hfirst] at hch
    obtain rfl := Option.some.inj hch
    constructor <;> rintro rfl <;> exact absurd hdigit (by decide)
  have hrest : l.cursor.rest = literal ++ after := by
    rw [hcursor]
    rfl
  obtain ⟨read, htoken, hread, hsilent, hpart⟩ := takeInteger_text handling s value
    (.refl (by rw [hcursor]; rfl)) (List.forall_mem_nil _) hrest hafter
  have hlast : last = read := congrArg Prod.snd hread
  refine ⟨htoken, congrArg Prod.fst hread, ?_, ?_, ?_⟩
  · rw [hlast, hpart.eq_of_rest_eq (hpart.rest_eq_of_append hrest), hcursor]
    exact congrArg (Cursor.mk · after 0) (Nat.zero_add _)
  · exact hlast ▸ hsilent.log_eq
  · exact hlast ▸ hsilent.comments_eq

theorem next_takeInteger_new_largest :
    let s : IntegerStyle := ⟨.hexadecimal, true, 1, (· % 2 == 0), (· % 4 == 0)⟩
    let largest : UInt64 := 0xFFFFFFFFFFFFFFFF
    let l := Lexer.new 0 "0X0_fFfF_fFfF_fFfF_fFfF;" .empty
    let found := (l.next .standard).2
    (∀ ch, [';'].head? = some ch → isIdentifierPart ch = false ∧ ch ≠ '.') ∧
      String.ofList (s.text largest.toNat ++ [';']) = "0X0_fFfF_fFfF_fFfF_fFfF;" ∧
      (l.next .standard).1 = .integer ∧ found.takeInteger.1 = largest ∧
      found.takeInteger.2.cursor = ⟨23, [';'], 0⟩ ∧ found.takeInteger.2.log = .empty := by
  intro s largest l found
  have hafter : ∀ ch, [';'].head? = some ch → isIdentifierPart ch = false ∧ ch ≠ '.' := by
    intro ch hch
    obtain rfl := Option.some.inj hch
    decide
  have htext : s.text largest.toNat = "0X0_fFfF_fFfF_fFfF_fFfF".toList := by decide
  have hall := next_takeInteger_new 0 .empty .standard s largest [';'] hafter
  rw [htext] at hall ⊢
  obtain ⟨htoken, hvalue, hcursor, hlog, -⟩ := hall
  exact ⟨hafter, rfl, htoken, hvalue, hcursor, hlog⟩

end TypedScript.Lexer
