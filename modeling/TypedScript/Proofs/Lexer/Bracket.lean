import TypedScript.Proofs.Lexer.Maximal

/-! # Closing brackets one at a time

A skip that looks for a closing `>` keeps punctuators to one character. So it sees neither
a longer punctuator nor a comment, and what it passes over in front of the bracket is
loose: blanks, and characters that begin no token. It stops right behind one bracket,
and a run of brackets with nothing but loose characters between them is closed by as many
skips as there are brackets.
-/

namespace TypedScript.Lexer

open Text

variable {c next : Cursor} {ch : Char} {handling : WordHandling} {what : Skipped}
  {skipped : List Skipped} {token : Token} {stop : Cursor} {gap after : List Char}

instance (ch : Char) : Decidable (BeginsNothing ch) :=
  decidable_of_iff
    (isSpace ch = false ∧ isLineBreak ch = false ∧ isIdentifierStart ch = false ∧
      isDecimal ch = false ∧ (ch ≠ '\x22' ∧ ch ≠ '\x27' ∧ ch ≠ '\x60') ∧
      ∀ mark ∈ Punctuator.all, mark.text.toList.head? ≠ some ch)
    ⟨fun ⟨h1, h2, h3, h4, h5, h6⟩ => ⟨h1, h2, h3, h4, h5, fun mark => h6 mark mark.mem_all⟩,
      fun ⟨h1, h2, h3, h4, h5, h6⟩ => ⟨h1, h2, h3, h4, h5, fun mark _ => h6 mark⟩⟩

def isLoose (ch : Char) : Bool :=
  isSpace ch || isLineBreak ch || decide (BeginsNothing ch)

theorem isIdentifierStart_of_isLineBreak (h : isLineBreak ch = true) :
    isIdentifierStart ch = false := by
  simp only [isLineBreak, Bool.or_eq_true, beq_iff_eq] at h
  rcases h with ((rfl | rfl) | rfl) | rfl <;> decide +kernel

theorem isIdentifierStart_of_isSpace (h : isSpace ch = true) : isIdentifierStart ch = false := by
  -- The spaces from U+2000 to U+200B are a range, the others are told one by one.
  have hrange : '\u2000' ≤ ch ∧ ch ≤ '\u200B' → isIdentifierStart ch = false := by
    rintro ⟨hfirst, hlast⟩
    have hfirst : 0x2000 ≤ ch.toNat := UInt32.le_iff_toNat_le.mp hfirst
    have hlast : ch.toNat ≤ 0x200B := UInt32.le_iff_toNat_le.mp hlast
    have hall : ∀ n < 12, isIdentifierStart (Char.ofNat (0x2000 + n)) = false := by
      decide +kernel
    have hch := hall (ch.toNat - 0x2000) (by omega)
    rwa [Nat.add_sub_cancel' hfirst, Char.ofNat_toNat] at hch
  simp only [isSpace, Bool.or_eq_true, Bool.and_eq_true, decide_eq_true_eq, beq_iff_eq] at h
  rcases h with ((((((((((rfl | rfl) | rfl) | rfl) | rfl) | rfl) | rfl) | h) | rfl) | rfl) | rfl) | rfl
  case inl.inl.inl.inl.inr => exact hrange h
  all_goals decide +kernel

theorem isLoose_greater : isLoose '>' = false := by
  decide +kernel

theorem pieceAt_of_isLoose (hch : c.char? = some ch) (h : isLoose ch = true) :
    ∃ what, pieceAt handling 1 c = .skipped what c.skipChar := by
  obtain ⟨hc, rest, hrest⟩ := Cursor.char?_eq_some_iff.mp hch
  simp only [isLoose, Bool.or_eq_true, decide_eq_true_eq] at h
  unfold pieceAt
  rw [hch]
  rcases h with hblank | hnothing
  · have hword : isIdentifierStart ch = false :=
      hblank.elim isIdentifierStart_of_isSpace isIdentifierStart_of_isLineBreak
    refine ⟨.blank c.pos c.skipChar.pos, ?_⟩
    simp only [hword, Bool.or_eq_true, hblank, Bool.false_eq_true, if_false, if_true]
  · obtain ⟨hspace, hbreak, hword, hdigit, ⟨hdouble, hsingle, hbacktick⟩, hmark⟩ := hnothing
    refine ⟨.stray c.pos c.skipChar.pos, ?_⟩
    simp only [hword, hspace, hbreak, hdigit, hdouble, hsingle, hbacktick, Nat.lt_irrefl,
      decide_false, Bool.or_false, Bool.false_and, Bool.false_eq_true, if_false]
    rw [punctuatorAt_eq, Cursor.chars, if_pos hc, hrest,
      (Punctuator.longest?_eq_none_iff (Nat.le_max_right _ _)).mpr hmark]

theorem isLoose_of_skipped (hch : c.char? = some ch)
    (h : pieceAt handling 1 c = .skipped what next) : isLoose ch = true ∧ next = c.skipChar := by
  unfold pieceAt at h
  rw [hch] at h
  simp only [Nat.lt_irrefl, decide_false, Bool.false_and, Bool.false_eq_true, if_false] at h
  split at h
  · exact absurd h (wordAt_ne_skipped _ _ _ _)
  rename_i hword
  split at h
  · rename_i hblank
    cases h
    exact ⟨by rw [isLoose, hblank, Bool.true_or], rfl⟩
  rename_i hblank
  split at h
  · cases h
  rename_i hquote
  split at h
  · cases h
  rename_i hbacktick
  split at h
  · cases h
  rename_i hdigit
  obtain ⟨-, rfl, hmark⟩ := stray_of_punctuatorAt hch h
  simp only [Bool.or_eq_true, not_or, Bool.not_eq_true, decide_eq_true_eq] at hword hblank hquote hdigit
  have hnothing : BeginsNothing ch :=
    ⟨hblank.1, hblank.2, hword, hdigit, ⟨hquote.1, hquote.2, hbacktick⟩, hmark⟩
  exact ⟨by rw [isLoose, decide_eq_true hnothing, Bool.or_true], rfl⟩

theorem pieceAt_greater (hch : c.char? = some '>') :
    pieceAt handling 1 c = .token (.punctuator .greater) (c.advance 1) := by
  obtain ⟨hc, rest, hrest⟩ := Cursor.char?_eq_some_iff.mp hch
  have hlongest : Punctuator.longest? (max 1 1) ('>' :: rest) = some .greater := by
    refine Punctuator.longest?_eq_some_iff.mpr ⟨⟨⟨rest, rfl⟩, Nat.le_refl 1⟩, fun mark hmark => ?_⟩
    exact hmark.length_le
  have hhead : Punctuator.greater.text.toList.head? = some '>' := rfl
  rw [pieceAt_of_head hch hhead fun h => absurd h (Nat.lt_irrefl 1), punctuatorAt_eq, Cursor.chars,
    if_pos hc, hrest, hlongest]
  rfl

theorem skipChars_skipChar {p : Char → Bool} (hch : c.char? = some ch) (hp : p ch = true) :
    c.skipChar.skipChars p = c.skipChars p := by
  obtain ⟨hc, rest, hrest⟩ := Cursor.char?_eq_some_iff.mp hch
  have hfirst := Cursor.passes_skipChar hch
  have hmore := Cursor.passes_skipChars hfirst.inside_eq' p
  have hall := Cursor.passes_skipChars hc p
  rw [hfirst.rest_eq_of_append hrest] at hmore
  rw [hrest, List.takeWhile_cons_of_pos hp] at hall
  exact (hfirst.trans hmore).unique hall

theorem toEdge_skipChar (hc : c.inside ≠ 0) (hproper : c.Proper) : c.skipChar.toEdge = c.toEdge := by
  have hlt := hproper.resolve_left hc
  have hskip : c.skipChar = c.advance 1 := by rw [Cursor.skipChar, (chars_of_inside_ne hc).2]; rfl
  obtain ⟨pos, rest, inside⟩ := c
  cases rest with
  | nil => exact absurd hlt (Nat.not_lt_zero _)
  | cons ch rest =>
    have hlt : inside < ch.utf8Size := by simpa using hlt
    rw [hskip, Cursor.advance, Cursor.into]
    split
    · simp only [Cursor.toEdge, Nat.add_one_ne_zero, if_false, if_neg hc, Nat.add_sub_cancel]
    · have hlast : inside + 1 - ch.utf8Size = 0 := by omega
      rw [hlast, Cursor.into_of_lt (.inl rfl), Cursor.toEdge_of_inside_eq rfl, Cursor.toEdge, if_neg hc]
      simp

/-- A scan that keeps to one character stops at the first one that is not loose, on or
behind the edge it begins at or before. -/
theorem start_scanFrom_one (handling : WordHandling) (skipped : List Skipped) (hproper : c.Proper) :
    (scanFrom handling 1 skipped c).start = c.toEdge.skipChars isLoose := by
  fun_induction scanFrom handling 1 skipped c with
  | case1 skipped c hend =>
    obtain ⟨pos, rest, inside⟩ := c
    obtain rfl : rest = [] := List.isEmpty_iff.mp hend
    obtain rfl : inside = 0 := hproper.elim id fun hlt => absurd hlt (Nat.not_lt_zero _)
    rfl
  | case2 skipped c hend token stop hpiece =>
    obtain ⟨ch, hch⟩ := exists_char?_of_token hpiece
    have hloose : isLoose ch = false := Bool.eq_false_iff.mpr fun hloose => by
      obtain ⟨what, hskipped⟩ := pieceAt_of_isLoose hch hloose
      rw [hpiece] at hskipped
      cases hskipped
    rw [Cursor.toEdge_of_inside_eq (Cursor.char?_eq_some_iff.mp hch).1]
    exact (Cursor.skipChars_eq_self hch hloose).symm
  | case3 skipped c hend what next hpiece hlt ih =>
    by_cases hc : c.inside = 0
    · obtain ⟨ch, rest, hrest⟩ := List.exists_cons_of_ne_nil fun hnil => hend (List.isEmpty_iff.mpr hnil)
      have hch := Cursor.char?_eq_some_iff.mpr ⟨hc, rest, hrest⟩
      obtain ⟨hloose, rfl⟩ := isLoose_of_skipped hch hpiece
      have hstep := Cursor.passes_skipChar hch
      rw [ih hstep.reaches.proper, Cursor.toEdge_of_inside_eq hstep.inside_eq',
        Cursor.toEdge_of_inside_eq hc, skipChars_skipChar hch hloose]
    · rw [pieceAt, (chars_of_inside_ne hc).2] at hpiece
      cases hpiece
      rw [ih (c.proper_advance _), toEdge_skipChar hc hproper]

theorem token_scan_one_iff (handling : WordHandling) (hproper : c.Proper) :
    (scan handling 1 c).token = .punctuator .greater ↔
      (c.toEdge.skipChars isLoose).char? = some '>' := by
  rw [← start_scanFrom_one handling [] hproper]
  rcases piece_scanFrom handling 1 [] c with ⟨hend, htoken, -⟩ | hpiece
  · have hrest : (scanFrom handling 1 [] c).start.rest = [] := List.isEmpty_iff.mp hend
    rw [scan, htoken, Cursor.char?, hrest]
    simp
  · constructor
    · intro htoken
      rw [scan] at htoken
      rw [htoken] at hpiece
      have hpart := passes_of_pieceAt hpiece rfl
      exact Cursor.char?_eq_some_iff.mpr ⟨hpart.inside_eq, _, hpart.rest_eq⟩
    · intro hch
      rw [pieceAt_greater hch] at hpiece
      injection hpiece with htoken
      exact htoken.symm

/-- On the edge stand loose characters, and behind them a closing bracket. -/
structure ClosesBehind (c : Cursor) (gap after : List Char) : Prop where
  rest_eq : c.toEdge.rest = gap ++ '>' :: after
  loose : ∀ ch ∈ gap, isLoose ch = true

namespace ClosesBehind

theorem passes (h : ClosesBehind c gap after) :
    c.toEdge.Passes gap (c.toEdge.skipChars isLoose) ∧
      (c.toEdge.skipChars isLoose).char? = some '>' := by
  have hpart := Cursor.passes_skipChars_append c.inside_toEdge h.rest_eq h.loose fun ch hch => by
    obtain rfl := Option.some.inj hch
    exact isLoose_greater
  exact ⟨hpart, Cursor.char?_eq_some_iff.mpr
    ⟨hpart.inside_eq', after, hpart.rest_eq_of_append h.rest_eq⟩⟩

theorem exists_iff :
    (∃ gap after, ClosesBehind c gap after) ↔ (c.toEdge.skipChars isLoose).char? = some '>' := by
  constructor
  · rintro ⟨gap, after, h⟩
    exact h.passes.2
  · intro hch
    have hpart := Cursor.passes_skipChars c.inside_toEdge isLoose
    obtain ⟨-, after, hafter⟩ := Cursor.char?_eq_some_iff.mp hch
    exact ⟨_, after, hafter ▸ hpart.rest_eq,
      fun ch hch => List.all_eq_true.mp List.all_takeWhile ch hch⟩

end ClosesBehind

def behindBracket (c : Cursor) (gap after : List Char) : Cursor :=
  ⟨c.toEdge.pos + byteSize gap + 1, after, 0⟩

variable {l : Lexer}

theorem limitFor_greater : limitFor (.punctuator .greater) = 1 :=
  if_pos rfl

theorem skip_greater_iff (handling : WordHandling) (hproper : l.cursor.Proper) :
    (l.skip (.punctuator .greater) handling).1 = true ↔
      ∃ gap after, ClosesBehind l.cursor gap after := by
  rw [ClosesBehind.exists_iff, ← token_scan_one_iff handling hproper, ← limitFor_greater]
  by_cases hfound : (scan handling (limitFor (.punctuator .greater)) l.cursor).token =
      .punctuator .greater
  · simp [skip_of_token_eq hfound, hfound]
  · simp [skip_of_token_ne hfound, hfound]

theorem skip_of_closesBehind (handling : WordHandling) (hproper : l.cursor.Proper)
    (h : ClosesBehind l.cursor gap after) :
    let skipped := l.skip (.punctuator .greater) handling
    skipped.1 = true ∧ skipped.2.cursor = behindBracket l.cursor gap after ∧
      skipped.2.tokenPos = l.cursor.toEdge.pos + byteSize gap ∧
      skipped.2.token = .punctuator .greater ∧ skipped.2.lookahead = none := by
  obtain ⟨hgap, hch⟩ := h.passes
  have hfound := (token_scan_one_iff handling hproper).mpr hch
  have hstart : (scan handling 1 l.cursor).start = l.cursor.toEdge.skipChars isLoose :=
    start_scanFrom_one handling [] hproper
  have hstop : (scan handling 1 l.cursor).stop = behindBracket l.cursor gap after := by
    rcases piece_scanFrom handling 1 [] l.cursor with ⟨-, hend, -⟩ | hpiece
    · cases hfound.symm.trans hend
    · change pieceAt handling 1 (scan handling 1 l.cursor).start =
        .token _ (scan handling 1 l.cursor).stop at hpiece
      rw [hstart, pieceAt_greater hch] at hpiece
      injection hpiece with _ hstop
      have hall := hgap.trans (Cursor.passes_advance_one hch rfl)
      have hrest : l.cursor.toEdge.rest = (gap ++ ['>']) ++ after := by
        rw [h.rest_eq, List.append_assoc]
        rfl
      rw [← hstop, hall.eq_of_rest_eq (hall.rest_eq_of_append hrest), byteSize_append,
        ← Nat.add_assoc]
      rfl
  rw [← limitFor_greater] at hfound hstart hstop
  rw [skip_of_token_eq hfound]
  exact ⟨rfl, hstop, (congrArg Cursor.pos hstart).trans hgap.pos_eq, rfl, rfl⟩

/-- How many skips of a closing bracket succeed one after the other, up to the first one
that misses it. -/
def closings : List WordHandling → Lexer → Nat
  | [], _ => 0
  | handling :: more, l =>
    let (found, next) := l.skip (.punctuator .greater) handling
    if found then closings more next + 1 else 0

def bracketsAhead (text : List Char) : Nat :=
  (text.takeWhile fun ch => isLoose ch || ch == '>').count '>'

theorem bracketsAhead_of_isLoose (h : isLoose ch = true) (text : List Char) :
    bracketsAhead (ch :: text) = bracketsAhead text := by
  have hne : ch ≠ '>' := by
    rintro rfl
    exact absurd h (Bool.eq_false_iff.mp isLoose_greater)
  rw [bracketsAhead, List.takeWhile_cons_of_pos (by simp [h]), List.count_cons_of_ne hne]
  rfl

theorem bracketsAhead_gap (h : ∀ ch ∈ gap, isLoose ch = true) (text : List Char) :
    bracketsAhead (gap ++ text) = bracketsAhead text := by
  induction gap with
  | nil => rfl
  | cons ch gap ih =>
    obtain ⟨hch, hmore⟩ := List.forall_mem_cons.mp h
    rw [List.cons_append, bracketsAhead_of_isLoose hch, ih hmore]

theorem bracketsAhead_greater (text : List Char) :
    bracketsAhead ('>' :: text) = bracketsAhead text + 1 := by
  rw [bracketsAhead, List.takeWhile_cons_of_pos (by simp), List.count_cons_self]
  rfl

theorem bracketsAhead_eq_zero (h : ¬ ∃ gap after, ClosesBehind c gap after) :
    bracketsAhead c.toEdge.rest = 0 := by
  rw [ClosesBehind.exists_iff] at h
  have hpart := Cursor.passes_skipChars c.inside_toEdge isLoose
  have hloose : ∀ ch ∈ c.toEdge.rest.takeWhile isLoose, isLoose ch = true := fun ch hch =>
    List.all_eq_true.mp List.all_takeWhile ch hch
  rw [hpart.rest_eq, bracketsAhead_gap hloose]
  have hrest : (c.toEdge.skipChars isLoose).rest = c.toEdge.rest.dropWhile isLoose :=
    hpart.rest_eq_of_append List.takeWhile_append_dropWhile.symm
  cases hafter : (c.toEdge.skipChars isLoose).rest with
  | nil => rfl
  | cons ch after =>
    have hhead := List.head?_dropWhile_not isLoose c.toEdge.rest
    rw [← hrest, hafter] at hhead
    have hne : ch ≠ '>' := by
      rintro rfl
      exact h (Cursor.char?_eq_some_iff.mpr ⟨hpart.inside_eq', after, hafter⟩)
    rw [bracketsAhead, List.takeWhile_cons_of_neg (by simpa [hne] using hhead)]
    rfl

theorem closings_eq (handlings : List WordHandling) (hproper : l.cursor.Proper) :
    closings handlings l = min handlings.length (bracketsAhead l.cursor.toEdge.rest) := by
  induction handlings generalizing l with
  | nil => exact (Nat.zero_min _).symm
  | cons handling more ih =>
    by_cases hcloses : ∃ gap after, ClosesBehind l.cursor gap after
    · obtain ⟨gap, after, h⟩ := hcloses
      obtain ⟨hfound, hcursor, -⟩ := skip_of_closesBehind handling hproper h
      have hnext : closings more (l.skip (.punctuator .greater) handling).2 =
          min more.length (bracketsAhead after) := by
        rw [ih (by rw [hcursor]; exact .inl rfl), hcursor, Cursor.toEdge_of_inside_eq rfl]
        rfl
      rw [h.rest_eq, bracketsAhead_gap h.loose, bracketsAhead_greater, List.length_cons,
        Nat.add_min_add_right, ← hnext]
      simp only [closings, hfound, if_true]
    · have hmissed : (l.skip (.punctuator .greater) handling).1 = false :=
        Bool.eq_false_iff.mpr fun hfound => hcloses ((skip_greater_iff handling hproper).mp hfound)
      rw [bracketsAhead_eq_zero hcloses, Nat.min_zero]
      simp only [closings, hmissed, Bool.false_eq_true, if_false]

namespace Session

/-- In every session a skip of a closing bracket finds one exactly if it is the first
character that is not loose, and stops right behind it, whatever follows. So one skip
after the other succeeds for each bracket of the run that is ahead, and no further. A
comment is not loose; its first slash is met as any other. -/
theorem skip_greater_of_run (source : SourceId) (text : String) (log : Diagnostic.Log)
    (actions : List Action) (handling : WordHandling) :
    let l := ((Session.new source text log).run actions).lexer
    let skipped := l.skip (.punctuator .greater) handling
    (skipped.1 = true ↔ ∃ gap after, ClosesBehind l.cursor gap after) ∧
      (∀ gap after, ClosesBehind l.cursor gap after →
        skipped.2.cursor = behindBracket l.cursor gap after ∧
        skipped.2.tokenPos = l.cursor.toEdge.pos + byteSize gap ∧
        skipped.2.token = .punctuator .greater ∧ skipped.2.lookahead = none) ∧
      (∀ gap after, l.cursor.toEdge.rest = gap ++ '/' :: after →
        (∀ ch ∈ gap, isLoose ch = true) → skipped.1 = false) ∧
      ∀ handlings : List WordHandling,
        closings handlings l = min handlings.length (bracketsAhead l.cursor.toEdge.rest) := by
  intro l skipped
  have hproper : l.cursor.Proper := ((proper_new source text log).run actions).lexer
  refine ⟨skip_greater_iff handling hproper, fun gap after h => ?_, fun gap after h hgap => ?_,
    fun handlings => closings_eq handlings hproper⟩
  · exact (skip_of_closesBehind handling hproper h).2
  · refine Bool.eq_false_iff.mpr fun hfound => ?_
    have hgreater := ClosesBehind.exists_iff.mp ((skip_greater_iff handling hproper).mp hfound)
    have hpart := Cursor.passes_skipChars_append l.cursor.inside_toEdge h hgap fun ch hch => by
      obtain rfl := Option.some.inj hch
      decide +kernel
    obtain ⟨-, rest, hrest⟩ := Cursor.char?_eq_some_iff.mp hgreater
    rw [hpart.rest_eq_of_append h] at hrest
    cases hrest

theorem skip_greater_of_run_nested :
    let l := ((Session.new 0 "a # >\n>>=b" .empty).run
      [.perform (.next .standard), .perform .identifier]).lexer
    let skipped := l.skip (.punctuator .greater) .standard
    skipped.1 = true ∧ skipped.2.cursor = ⟨5, "\n>>=b".toList, 0⟩ ∧ skipped.2.tokenPos = 4 ∧
      closings [.standard, .preferIdentifier, .standard, .standard] l = 3 := by
  intro l skipped
  have hcursor : l.cursor = ⟨1, " # >\n>>=b".toList, 0⟩ := by decide +kernel
  have hcloses : ClosesBehind l.cursor " # ".toList "\n>>=b".toList := by
    rw [hcursor]
    exact ⟨rfl, List.all_eq_true.mp (by decide +kernel)⟩
  obtain ⟨hfound, hstop, -, hcount⟩ := skip_greater_of_run 0 "a # >\n>>=b" .empty
    [.perform (.next .standard), .perform .identifier] .standard
  obtain ⟨hbehind, hpos, -⟩ := hstop _ _ hcloses
  refine ⟨hfound.mpr ⟨_, _, hcloses⟩, ?_, ?_, ?_⟩
  · rw [hbehind, hcursor]
    rfl
  · rw [hpos, hcursor]
    rfl
  · rw [hcount, hcursor]
    decide +kernel

/-- A bracket behind a comment is the next token, and yet no skip finds it. -/
theorem skip_greater_missed :
    let l := Lexer.new 0 "/* c */>" .empty
    (scan .standard noLimit l.cursor).skipped = [.comment .block "/* c */" 0 7] ∧
      (scan .standard noLimit l.cursor).start = ⟨7, ['>'], 0⟩ ∧
      (l.next .standard).1 = .punctuator .greater ∧
      (l.skip (.punctuator .greater) .standard).1 = false := by
  decide +kernel

end Session

end TypedScript.Lexer
