import Mathlib.Algebra.Ring.Parity
import Mathlib.Data.List.DropRight
import TypedScript.Proofs.Lexer.Place

/-! # Regular expression literals

A pattern ends at the first slash in front of which the run of backslashes is not odd, or at
the first line break, or with the text. The reader keeps no more of what it has read than
whether the next character is escaped, and that is the parity of the run. Of the flags that
are read a byte keeps which ones have occurred, and a flag stays set from the first one that
is none or occurs again.
-/

namespace TypedScript.Lexer

open Text

variable {seen part rest word : List Char} {ch other : Char} {escaped : Bool} {pos n : Nat}

def backslashes (seen : List Char) : Nat :=
  (seen.rtakeWhile (· = '\\')).length

/-- Behind `seen` a pattern ends in front of the character: it is a slash that is not escaped,
or a line break, which no backslash escapes. -/
def EndsPattern (seen : List Char) (ch : Char) : Prop :=
  ch = '/' ∧ ¬ Odd (backslashes seen) ∨ ch ∈ ['\n', '\r', '\u2028', '\u2029']

/-- Behind `seen` a pattern goes on with `part`, and `rest` follows it: nothing in `part` ends
the pattern, and what follows does, if it is not the end of the text. -/
structure PatternTail (seen part rest : List Char) : Prop where
  inner : ∀ front ch back, part = front ++ ch :: back → ¬ EndsPattern (seen ++ front) ch
  behind : ∀ ch, rest.head? = some ch → EndsPattern (seen ++ part) ch

/-- A backslash escapes what follows it unless it is escaped itself. -/
theorem odd_backslashes_concat (seen : List Char) (ch : Char) :
    Odd (backslashes (seen ++ [ch])) ↔ ch = '\\' ∧ ¬ Odd (backslashes seen) := by
  rw [backslashes, List.rtakeWhile_concat]
  by_cases hch : ch = '\\'
  · rw [if_pos (decide_eq_true hch), List.length_append, List.length_singleton, Nat.odd_add_one]
    exact (and_iff_right hch).symm
  · rw [if_neg (by simpa using hch)]
    simp [hch]

namespace PatternTail

theorem nil (h : ∀ ch, rest.head? = some ch → EndsPattern seen ch) : PatternTail seen [] rest where
  inner front ch back hpart := by simp at hpart
  behind ch hch := by
    rw [List.append_nil]
    exact h ch hch

theorem cons (hch : ¬ EndsPattern seen ch) (h : PatternTail (seen ++ [ch]) part rest) :
    PatternTail seen (ch :: part) rest where
  inner front other back hpart := by
    cases front with
    | nil =>
      obtain ⟨rfl, -⟩ := List.cons_eq_cons.mp hpart
      rwa [List.append_nil]
    | cons first front =>
      obtain ⟨rfl, hmore⟩ := List.cons_eq_cons.mp hpart
      rw [List.append_cons]
      exact h.inner front other back hmore
  behind other hother := by
    rw [List.append_cons]
    exact h.behind other hother

end PatternTail

/-- From where the next character is escaped just if the run of backslashes is odd, the
search goes on up to the end of the pattern, and says whether a slash is there. -/
theorem patternEnd_tail (hescaped : escaped = true ↔ Odd (backslashes seen)) (pos : Nat)
    (rest : List Char) :
    let ending := patternEnd escaped pos rest
    ∃ part, (⟨pos, rest, 0⟩ : Cursor).Passes part ending.1 ∧
      PatternTail seen part ending.1.rest ∧ (ending.2 = true ↔ ending.1.char? = some '/') := by
  fun_induction patternEnd escaped pos rest generalizing seen with
  | case1 escaped pos =>
    exact ⟨[], .refl rfl, .nil (by simp), by simp [Cursor.char?]⟩
  | case2 escaped pos ch rest hslash =>
    simp only [Bool.and_eq_true, Bool.not_eq_true', decide_eq_true_eq] at hslash
    obtain ⟨hfree, rfl⟩ := hslash
    have hends : EndsPattern seen '/' := .inl ⟨rfl, fun hodd => by simp [hescaped.mpr hodd] at hfree⟩
    exact ⟨[], .refl rfl, .nil (by simpa using hends), by simp [Cursor.char?]⟩
  | case3 escaped pos ch rest hslash hbreak =>
    have hne : ch ≠ '/' := by
      rintro rfl
      exact absurd hbreak (by decide)
    have hends : EndsPattern seen ch := .inr (isLineBreak_iff.mp hbreak)
    exact ⟨[], .refl rfl, .nil (by simpa using hends), by simpa [Cursor.char?] using hne⟩
  | case4 escaped pos ch rest hslash hbreak ih =>
    have hopen : ¬ EndsPattern seen ch := by
      rintro (⟨rfl, hodd⟩ | hends)
      · exact hslash (by simpa using hescaped.not.mpr hodd)
      · exact hbreak (isLineBreak_iff.mpr hends)
    have hnext : (!escaped && ch = '\\') = true ↔ Odd (backslashes (seen ++ [ch])) := by
      rw [odd_backslashes_concat, ← hescaped, Bool.and_eq_true, Bool.not_eq_true', decide_eq_true_eq,
        Bool.not_eq_true, and_comm]
    obtain ⟨part, hpart, htail, hclosed⟩ := ih hnext
    have hstep : (⟨pos, ch :: rest, 0⟩ : Cursor).Passes [ch] ⟨pos + ch.utf8Size, rest, 0⟩ :=
      ⟨rfl, rfl, rfl, rfl⟩
    exact ⟨ch :: part, hstep.trans hpart, .cons hopen htail, hclosed⟩

def areFlags (word : List Char) : Bool :=
  word.all (fun c => c == 'g' || c == 'i' || c == 'm') && word.Nodup

namespace FlagState

/-- The state says of the word which flags are in it, and whether it is one of flags. -/
structure Tells (s : FlagState) (word : List Char) : Prop where
  seen : ∀ ch bit, flagBit? ch = some bit → (s.seen &&& bit ≠ 0 ↔ ch ∈ word)
  invalid : s.invalid = false ↔ areFlags word = true

end FlagState

theorem isSome_flagBit?_iff : (flagBit? ch).isSome = true ↔ ch ∈ ['g', 'i', 'm'] := by
  unfold flagBit?
  split <;> simp_all

theorem flagBit?_and_ne_zero {bit bit' : UInt8} (h : flagBit? ch = some bit)
    (h' : flagBit? other = some bit') : bit &&& bit' ≠ 0 ↔ other = ch := by
  unfold flagBit? at h h'
  split at h <;> split at h' <;> cases h <;> cases h' <;> decide

theorem areFlags_iff :
    areFlags word = true ↔ (∀ ch ∈ word, ch ∈ ['g', 'i', 'm']) ∧ word.Nodup := by
  simp [areFlags, or_assoc]

theorem areFlags_concat :
    areFlags (word ++ [ch]) = true ↔
      areFlags word = true ∧ (flagBit? ch).isSome = true ∧ ch ∉ word := by
  rw [areFlags_iff, areFlags_iff, isSome_flagBit?_iff, List.forall_mem_append,
    List.forall_mem_singleton, List.nodup_append]
  simp only [List.mem_singleton, forall_eq, ← List.forall_mem_ne']
  constructor
  · rintro ⟨⟨hword, hch⟩, hnodup, -, hnew⟩
    exact ⟨⟨hword, hnodup⟩, hch, hnew⟩
  · rintro ⟨⟨hword, hnodup⟩, hch, hnew⟩
    exact ⟨⟨hword, hch⟩, hnodup, List.pairwise_singleton _ ch, hnew⟩

theorem or_and (a b c : UInt8) : (a ||| b) &&& c = a &&& c ||| b &&& c := by
  apply UInt8.toNat_inj.mp
  rw [UInt8.toNat_and, UInt8.toNat_or, UInt8.toNat_or, UInt8.toNat_and, UInt8.toNat_and]
  exact Nat.and_or_distrib_right _ _ _

namespace FlagState

variable {s : FlagState}

theorem tells_start : start.Tells [] where
  seen ch bit _ := by simp [start]
  invalid := by simp [start, areFlags]

theorem Tells.push (h : s.Tells word) (ch : Char) : (s.push ch).Tells (word ++ [ch]) := by
  have hconcat : areFlags (word ++ [ch]) = true ↔
      s.invalid = false ∧ (flagBit? ch).isSome = true ∧ ch ∉ word := by
    rw [areFlags_concat, h.invalid]
  cases hbit : flagBit? ch with
  | none =>
    have hpush : s.push ch = { s with invalid := true } := by rw [FlagState.push, hbit]
    rw [hpush]
    refine ⟨fun other bit hother => ?_, by simp [hconcat, hbit]⟩
    have hne : other ≠ ch := by
      rintro rfl
      rw [hbit] at hother
      cases hother
    simp [h.seen other bit hother, hne]
  | some bit =>
    have hpush : s.push ch = ⟨s.seen ||| bit, s.invalid || s.seen &&& bit != 0⟩ := by
      rw [FlagState.push, hbit]
    rw [hpush]
    refine ⟨fun other bit' hother => ?_, ?_⟩
    · calc (s.seen ||| bit) &&& bit' ≠ 0
          ↔ s.seen &&& bit' ≠ 0 ∨ bit &&& bit' ≠ 0 := by
            rw [or_and, ne_eq, UInt8.or_eq_zero_iff, not_and_or]
        _ ↔ other ∈ word ∨ other = ch :=
            or_congr (h.seen other bit' hother) (flagBit?_and_ne_zero hbit hother)
        _ ↔ other ∈ word ++ [ch] := by
            rw [List.mem_append, List.mem_singleton]
    · rw [hconcat, hbit, ← h.seen ch bit hbit]
      simp

/-- The state behind a word says of the word what has to be known of it. -/
theorem Tells.foldl {front : List Char} (h : s.Tells front) (word : List Char) :
    (word.foldl FlagState.push s).Tells (front ++ word) := by
  induction word generalizing s front with
  | nil => rwa [List.append_nil]
  | cons ch word ih =>
    rw [List.append_cons]
    exact ih (h.push ch)

end FlagState

theorem areFlags_eq_false_iff : areFlags word = false ↔
    (∃ ch ∈ word, ch ∉ ['g', 'i', 'm']) ∨ ∃ ch ∈ ['g', 'i', 'm'], 2 ≤ word.count ch := by
  rw [← Bool.not_eq_true, areFlags_iff, not_and_or, List.nodup_iff_count]
  constructor
  · rintro (hother | htwice)
    · left
      simpa using hother
    · obtain ⟨ch, hch⟩ := not_forall.mp htwice
      have hcount : 2 ≤ word.count ch := Nat.lt_of_not_le hch
      by_cases hflag : ch ∈ ['g', 'i', 'm']
      · exact .inr ⟨ch, hflag, hcount⟩
      · exact .inl ⟨ch, List.count_pos_iff.mp (Nat.zero_lt_of_lt hcount), hflag⟩
  · rintro (⟨ch, hch, hother⟩ | ⟨ch, -, hcount⟩)
    · exact .inl fun hall => hother (hall ch hch)
    · exact .inr fun hall => Nat.not_lt_of_le (hall ch) hcount

variable {c : Cursor}

theorem readPattern_tail (hc : c.inside = 0) :
    let read := readPattern c
    ∃ pattern, c.Passes pattern read.stop ∧ read.value = String.ofList pattern ∧
      PatternTail [] pattern read.stop.rest ∧
      read.reports = if read.stop.char? = some '/' then []
        else [⟨.unterminatedRegexp, c.pos, read.stop.pos, []⟩] := by
  intro read
  have hstart : false = true ↔ Odd (backslashes []) := by decide
  obtain ⟨pattern, hpart, htail, hclosed⟩ := patternEnd_tail hstart c.pos c.rest
  have hplace : (⟨c.pos, c.rest, 0⟩ : Cursor) = c := by rw [← hc]
  have hread : read = ⟨c.textTo (patternEnd false c.pos c.rest).1.pos,
      (patternEnd false c.pos c.rest).1,
      if (patternEnd false c.pos c.rest).2 then []
        else [⟨.unterminatedRegexp, c.pos, (patternEnd false c.pos c.rest).1.pos, []⟩]⟩ := by
    simp only [read, readPattern, Cursor.toEdge_of_inside_eq hc]
  rw [hplace] at hpart
  rw [hread]
  refine ⟨pattern, hpart, hpart.textTo_eq, htail, ?_⟩
  simp only [hclosed]

theorem readRegexpFlags_word (hc : c.inside = 0) :
    let read := readRegexpFlags c
    ∃ word, c.Passes word read.stop ∧ read.value = String.ofList word ∧
      (∀ ch ∈ word, isIdentifierPart ch = true) ∧
      (∀ ch, read.stop.char? = some ch → isIdentifierPart ch = false) ∧
      read.reports = if (word.foldl FlagState.push .start).invalid = true then
        [⟨.invalidRegexpFlags, c.pos, read.stop.pos, []⟩] else [] := by
  intro read
  have hchars : c.chars = c.rest := if_pos hc
  have hread : read = ⟨String.ofList (c.rest.takeWhile isIdentifierPart),
      c.skipChars isIdentifierPart,
      if ((c.rest.takeWhile isIdentifierPart).foldl FlagState.push .start).invalid = true then
        [⟨.invalidRegexpFlags, c.pos, (c.skipChars isIdentifierPart).pos, []⟩] else []⟩ := by
    rw [← hchars]
    rfl
  rw [hread]
  exact ⟨_, Cursor.passes_skipChars hc _, rfl, List.all_eq_true.mp List.all_takeWhile,
    fun ch hch => eq_false_of_char?_skipChars hch, rfl⟩

/-- From every edge of a text a pattern is read up to its first slash that is not behind an
odd run of backslashes, its first line break or the end of the text, whichever comes first,
and what is read is reported unless a slash is there. Flags are read as the longest run of
characters of identifiers. The run is reported if the flag is set behind it, and it is set
exactly if a character of the run is none of the three flags or one of them occurs twice. -/
theorem regexp_extent (text : String) {n : Nat} (h : OnEdge text.toList n) :
    let c := Cursor.ofOffset text.toList n
    let pattern := readPattern c
    let flags := readRegexpFlags c
    (∃ part, c.Passes part pattern.stop ∧ pattern.value = String.ofList part ∧
      (∀ front ch back, part = front ++ ch :: back → ¬ EndsPattern front ch) ∧
      (∀ ch, pattern.stop.char? = some ch → EndsPattern part ch) ∧
      pattern.reports = if pattern.stop.char? = some '/' then []
        else [⟨.unterminatedRegexp, n, pattern.stop.pos, []⟩]) ∧
    ∃ word, c.Passes word flags.stop ∧ flags.value = String.ofList word ∧
      (∀ ch ∈ word, isIdentifierPart ch = true) ∧
      (∀ ch, flags.stop.char? = some ch → isIdentifierPart ch = false) ∧
      let invalid := (word.foldl FlagState.push .start).invalid
      (flags.reports = if invalid then [⟨.invalidRegexpFlags, n, flags.stop.pos, []⟩] else []) ∧
        (invalid = true ↔ (∃ ch ∈ word, ch ∉ ['g', 'i', 'm']) ∨
          ∃ ch ∈ ['g', 'i', 'm'], 2 ≤ word.count ch) := by
  intro c pattern flags
  obtain ⟨hc, hpos⟩ := Cursor.ofOffset_of_onEdge h
  obtain ⟨part, hpart, hvalue, htail, hreports⟩ := readPattern_tail hc
  obtain ⟨word, hword, hflags, hin, hout, hinvalid⟩ := readRegexpFlags_word hc
  rw [hpos] at hreports hinvalid
  refine ⟨⟨part, hpart, hvalue, htail.inner, fun ch hch => ?_, hreports⟩,
    word, hword, hflags, hin, hout, ?_⟩
  · refine htail.behind ch ?_
    rwa [Cursor.char?, if_pos hpart.inside_eq'] at hch
  · have htells := FlagState.tells_start.foldl word
    have hstate : (word.foldl FlagState.push .start).invalid = true ↔ areFlags word = false := by
      rw [← Bool.not_eq_false, htells.invalid, Bool.not_eq_true]
      rfl
    exact ⟨hinvalid, hstate.trans areFlags_eq_false_iff⟩

theorem regexp_extent_escaped :
    let text := "=/é\\/ü\\\\/gmg;"
    let pattern := readPattern (.ofOffset text.toList 2)
    let flags := readRegexpFlags (.ofOffset text.toList 11)
    OnEdge text.toList 2 ∧ OnEdge text.toList 11 ∧
      pattern.value = "é\\/ü\\\\" ∧ pattern.reports = [] ∧
      flags.value = "gmg" ∧ flags.reports = [⟨.invalidRegexpFlags, 11, 14, []⟩] := by
  intro text pattern flags
  have hpattern : OnEdge text.toList 2 := by decide +kernel
  have hflags : OnEdge text.toList 11 := by decide +kernel
  have hslash : pattern.stop.char? = some '/' := by decide +kernel
  have hstop : flags.stop.pos = 14 := by decide +kernel
  have hread : flags.value = "gmg" := by decide +kernel
  obtain ⟨⟨part, -, -, -, -, hsilent⟩, -⟩ := regexp_extent text hpattern
  obtain ⟨-, word, -, hword, -, -, hreports, hinvalid⟩ := regexp_extent text hflags
  have hgmg : word = ['g', 'm', 'g'] := by
    rw [← String.toList_ofList (l := word), ← hword]
    exact congrArg String.toList hread
  subst hgmg
  have htwice : 2 ≤ ['g', 'm', 'g'].count 'g' := by decide
  refine ⟨hpattern, hflags, by decide +kernel, hsilent.trans (if_pos hslash), hread, ?_⟩
  rw [hreports, if_pos (hinvalid.mpr (.inr ⟨'g', by decide, htwice⟩)), hstop]

end TypedScript.Lexer
