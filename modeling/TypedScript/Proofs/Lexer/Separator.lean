import TypedScript.Proofs.Diagnostic.Distinct
import TypedScript.Proofs.Lexer.Bounds
import TypedScript.Proofs.Lexer.NumberExtent
import TypedScript.Proofs.Lexer.Replay

/-! # Misplaced separators

A separator is misplaced at either end of a run of digits and separators, behind another
separator, and behind a lone zero in front of a decimal number. The same place may be
misplaced for two reasons, and is reported for each; the log keeps one of two messages that
agree. The reader of digits and the reader of the parts of a float report the same of the
same run.
-/

namespace TypedScript.Lexer

open Text Numeral Diagnostic

variable {c : Cursor} {ch : Char} {r : Radix} {run : List Char} {strictZero : Bool}
  {start pos : Nat} {before : Option Char} {code : Code}

/-- The separators of the run from `start` on that are misplaced: what each is reported as, and
where. -/
inductive Misplaced (strictZero : Bool) (start : Nat) : List Char → Code → Nat → Prop
  | leading (back : List Char) : Misplaced strictZero start ('_' :: back) .separatorNotAllowed start
  | trailing (front : List Char) :
      Misplaced strictZero start (front ++ ['_']) .separatorNotAllowed (start + front.length)
  | afterZero (hstrict : strictZero = true) (back : List Char) :
      Misplaced strictZero start ('0' :: '_' :: back) .separatorNotAllowed (start + 1)
  | consecutive (front back : List Char) :
      Misplaced strictZero start (front ++ '_' :: '_' :: back) .consecutiveSeparators
        (start + front.length + 1)

theorem getLast?_cons_or (front : List Char) :
    (ch :: front).getLast?.or before = front.getLast?.or (some ch) := by
  rw [List.getLast?_cons]
  cases front.getLast? <;> rfl

/-- A report of a run is one of a separator and the character in front of it. -/
theorem mem_separatorReportsFrom_iff {x : Report} :
    x ∈ separatorReportsFrom strictZero start before pos run ↔
      ∃ front back code, run = front ++ '_' :: back ∧
        separatorFault? strictZero start (pos + front.length) (front.getLast?.or before) =
          some code ∧ x = .point code (pos + front.length) := by
  induction run generalizing before pos with
  | nil => simp [separatorReportsFrom]
  | cons ch run ih =>
    have hpos (front : List Char) : pos + (ch :: front).length = pos + 1 + front.length := by
      rw [List.length_cons]
      omega
    rw [separatorReportsFrom_cons, List.mem_append, ih, Option.mem_toList]
    constructor
    · rintro (hx | ⟨front, back, code, rfl, hcode, rfl⟩)
      · rw [separatorReport?] at hx
        split at hx
        · rename_i hch
          obtain ⟨code, hcode, rfl⟩ := Option.map_eq_some_iff.mp hx
          exact ⟨[], run, code, by rw [hch]; rfl, hcode, rfl⟩
        · cases hx
      · rw [← hpos] at hcode ⊢
        exact ⟨ch :: front, back, code, rfl, by rwa [getLast?_cons_or], rfl⟩
    · rintro ⟨front, back, code, hrun, hcode, rfl⟩
      cases front with
      | nil =>
        obtain ⟨rfl, rfl⟩ := List.cons.inj hrun
        exact .inl (congrArg (Option.map (Report.point · pos)) hcode)
      | cons first front =>
        obtain ⟨rfl, rfl⟩ := List.cons.inj hrun
        rw [hpos, getLast?_cons_or] at hcode
        exact .inr ⟨front, back, code, rfl, hcode, by rw [hpos]⟩

theorem mem_separatorReports_iff {x : Report} :
    x ∈ separatorReports strictZero start run ↔
      ∃ front back code, run = front ++ '_' :: back ∧
        separatorFault? strictZero start (start + front.length) front.getLast? = some code ∧
        x = .point code (start + front.length) := by
  simp only [separatorReports, mem_separatorReportsFrom_iff, Option.or_none]

theorem mem_trailingReports_iff {x : Report} :
    x ∈ trailingReports start run ↔
      ∃ front, run = front ++ ['_'] ∧ x = .point .separatorNotAllowed (start + front.length) := by
  unfold trailingReports
  split
  · rename_i hlast
    obtain ⟨front, rfl⟩ := List.getLast?_eq_some_iff.mp hlast
    simp
  · rename_i hlast
    refine iff_of_false List.not_mem_nil ?_
    rintro ⟨front, rfl, -⟩
    exact hlast List.getLast?_concat

theorem misplaced_of_separatorFault? {front : List Char} (back : List Char)
    (h : separatorFault? strictZero start (start + front.length) front.getLast? = some code) :
    Misplaced strictZero start (front ++ '_' :: back) code (start + front.length) := by
  cases hlast : front.getLast? with
  | none =>
    obtain rfl := List.getLast?_eq_none_iff.mp hlast
    cases h
    exact .leading back
  | some last =>
    obtain ⟨front, rfl⟩ := List.getLast?_eq_some_iff.mp hlast
    rw [hlast, List.length_append, List.length_singleton, separatorFault?] at h
    rw [List.length_append, List.length_singleton, List.append_assoc]
    split at h
    · rename_i hseparator
      cases hseparator
      cases h
      exact .consecutive front back
    · split at h
      · rename_i hzero
        cases h
        simp only [Bool.and_eq_true, decide_eq_true_eq] at hzero
        obtain ⟨⟨hstrict, rfl⟩, hpos⟩ := hzero
        obtain rfl : front = [] := List.length_eq_zero_iff.mp (by omega)
        exact .afterZero hstrict back
      · cases h

theorem mem_runReports_iff {x : Report} :
    x ∈ separatorReports strictZero start run ++ trailingReports start run ↔
      ∃ code pos, Misplaced strictZero start run code pos ∧ x = .point code pos := by
  rw [List.mem_append, mem_separatorReports_iff, mem_trailingReports_iff]
  constructor
  · rintro (⟨front, back, code, rfl, hcode, rfl⟩ | ⟨front, rfl, rfl⟩)
    · exact ⟨_, _, misplaced_of_separatorFault? back hcode, rfl⟩
    · exact ⟨_, _, .trailing front, rfl⟩
  · rintro ⟨code, pos, h, rfl⟩
    cases h with
    | leading back => exact .inl ⟨[], back, _, rfl, rfl, rfl⟩
    | trailing front => exact .inr ⟨front, rfl, rfl⟩
    | afterZero hstrict back =>
      refine .inl ⟨['0'], back, .separatorNotAllowed, rfl, ?_, rfl⟩
      simp [separatorFault?, hstrict]
    | consecutive front back =>
      refine .inl ⟨front ++ ['_'], back, .consecutiveSeparators, ?_, ?_, ?_⟩
      · rw [List.append_assoc]
        rfl
      · rw [List.getLast?_concat]
        rfl
      · rw [List.length_append, List.length_singleton, Nat.add_assoc]

theorem runReports_eq_nil_iff_forall :
    separatorReports strictZero start run ++ trailingReports start run = [] ↔
      ∀ code pos, ¬ Misplaced strictZero start run code pos := by
  rw [List.eq_nil_iff_forall_not_mem]
  constructor
  · exact fun hnone code pos h => hnone _ (mem_runReports_iff.mpr ⟨code, pos, h, rfl⟩)
  · intro hnone x hx
    obtain ⟨code, pos, h, -⟩ := mem_runReports_iff.mp hx
    exact hnone code pos h

theorem isSome_digit?_of_ne (h : isDigitOrSeparator r ch = true) (hne : ch ≠ '_') :
    (r.digit? ch).isSome = true :=
  (Bool.or_eq_true_iff.mp h).resolve_right fun hseparator => hne (beq_iff_eq.mp hseparator)

/-- No separator of a run is misplaced exactly if each one stands between two digits, and behind
a lone zero only where that is allowed. -/
theorem forall_not_misplaced_iff (hrun : ∀ ch ∈ run, isDigitOrSeparator r ch = true) :
    (∀ code pos, ¬ Misplaced strictZero start run code pos) ↔
      ∀ front back, run = front ++ '_' :: back →
        (∃ digit, front.getLast? = some digit ∧ (r.digit? digit).isSome) ∧
        (∃ digit, back.head? = some digit ∧ (r.digit? digit).isSome) ∧
        (strictZero = true → front ≠ ['0']) := by
  constructor
  · rintro hnone front back rfl
    refine ⟨?_, ?_, ?_⟩
    · cases hlast : front.getLast? with
      | none =>
        obtain rfl := List.getLast?_eq_none_iff.mp hlast
        exact absurd (.leading back) (hnone _ _)
      | some digit =>
        obtain ⟨front, rfl⟩ := List.getLast?_eq_some_iff.mp hlast
        refine ⟨digit, rfl, isSome_digit?_of_ne (hrun digit (by simp)) ?_⟩
        rintro rfl
        rw [List.append_assoc] at hnone
        exact hnone _ _ (.consecutive front back)
    · cases back with
      | nil => exact absurd (.trailing front) (hnone _ _)
      | cons digit back =>
        refine ⟨digit, rfl, isSome_digit?_of_ne (hrun digit (by simp)) ?_⟩
        rintro rfl
        exact hnone _ _ (.consecutive front back)
    · rintro hstrict rfl
      exact hnone _ _ (.afterZero hstrict back)
  · intro htidy code pos h
    cases h with
    | leading back =>
      obtain ⟨⟨_, hlast, -⟩, -⟩ := htidy [] back rfl
      cases hlast
    | trailing front =>
      obtain ⟨-, ⟨_, hhead, -⟩, -⟩ := htidy front [] rfl
      cases hhead
    | afterZero hstrict back => exact (htidy ['0'] back rfl).2.2 hstrict rfl
    | consecutive front back =>
      obtain ⟨-, ⟨_, hhead, hdigit⟩, -⟩ := htidy front ('_' :: back) rfl
      cases hhead
      rw [digit?_separator] at hdigit
      cases hdigit

theorem isOfSeparator_of_mem_runReports {x : Report}
    (hx : x ∈ separatorReports strictZero start run ++ trailingReports start run) :
    x.code.isOfSeparator = true :=
  (List.mem_append.mp hx).elim (isOfSeparator_of_mem_separatorReports x)
    (isOfSeparator_of_mem_trailingReports x)

/-- What the reader of digits reports of separators is what the run is reported for. -/
theorem filter_isOfSeparator_readDigits (r : Radix) (literal c : Cursor) :
    (readDigits r literal c).reports.filter (·.code.isOfSeparator) =
      separatorReports (r = .decimal) c.pos (digitRun r c) ++
        trailingReports c.pos (digitRun r c) := by
  by_cases hnil : digitRun r c = []
  · have hrun : c.chars.takeWhile (isDigitOrSeparator r) = [] := hnil
    rw [hnil]
    simp only [readDigits_eq, hrun]
    cases r <;> rfl
  · rw [reports_readDigits literal hnil, List.filter_append, List.filter_eq_self.mpr,
      List.filter_eq_nil_iff.mpr, List.append_nil]
    · intro x hx
      split at hx
      · rw [List.mem_singleton.mp hx]
        exact Bool.false_ne_true
      · cases hx
    · exact fun x hx => isOfSeparator_of_mem_runReports hx

theorem pos_skipChars_digitRun (r : Radix) (c : Cursor) :
    (c.skipChars (isDigitOrSeparator r)).pos = c.pos + (digitRun r c).length := by
  by_cases hc : c.inside = 0
  · have hone : ∀ ch ∈ digitRun r c, ch.utf8Size = 1 := fun ch hch =>
      utf8Size_of_isDigitOrSeparator r ch (isDigitOrSeparator_of_mem_digitRun ch hch)
    rw [← byteSize_eq_length hone]
    exact (passes_readDigits r c hc).pos_eq
  · rw [Cursor.skipChars, if_neg hc, digitRun, Cursor.chars, if_neg hc]
    rfl

/-- The lexer has passed the run, and what was recorded of separators on the way is that those of
the run are misplaced: each message once, and none that agrees with one that was there before. -/
structure RecordsMisplaced (strictZero : Bool) (run : List Char) (l after : Lexer) : Prop where
  pos_eq : after.pos = l.pos + run.length
  messages : ∃ new, after.log.messages.toList = l.log.messages.toList ++ new ∧ new.Nodup ∧
    ∀ m, m.code.isOfSeparator = true →
      (m ∈ new ↔ (∃ code pos, Misplaced strictZero l.pos run code pos ∧
          m = .create code .error [] (some (.point l.source pos)) none) ∧
        ∀ x ∈ l.log.messages.toList, ¬ x.Agrees m)

theorem exists_new_of_take {α : Type} {l : Lexer} (hlog : l.log.Indexed) (reading : Reading α) :
    ∃ new, (l.take reading).2.log.messages.toList = l.log.messages.toList ++ new ∧ new.Nodup ∧
      ∀ m, m ∈ new ↔ (∃ x ∈ reading.reports, x.message l.source = m) ∧
        ∀ x ∈ l.log.messages.toList, ¬ x.Agrees m := by
  have hspan : ∀ m ∈ reading.reports.map (·.message l.source), m.span.isSome = true :=
    span_isSome_of_mem_map
  have hseverity : ∀ m ∈ reading.reports.map (·.message l.source), m.severity = .error := by
    intro m hm
    obtain ⟨x, -, rfl⟩ := List.mem_map.mp hm
    rfl
  rw [log_take, hlog.messages_pushAll]
  refine ⟨_, rfl, (Log.nodup_distinct hspan).filter _, fun m => ?_⟩
  rw [List.mem_filter, Log.mem_distinct_iff hspan
    (fun a ha b hb => (hseverity a ha).trans (hseverity b hb).symm), Log.isNew_iff, ← List.mem_map]
  exact and_congr_right fun hm => forall_prop_of_true (hspan m hm)

theorem recordsMisplaced_take {α : Type} {l : Lexer} (hlog : l.log.Indexed) (reading : Reading α)
    (hpos : reading.stop.pos = l.pos + run.length)
    (hreports : reading.reports.filter (·.code.isOfSeparator) =
      separatorReports strictZero l.pos run ++ trailingReports l.pos run) :
    RecordsMisplaced strictZero run l (l.take reading).2 := by
  obtain ⟨new, hmessages, hnodup, hnew⟩ := exists_new_of_take hlog reading
  refine ⟨hpos, new, hmessages, hnodup, fun m hm => ?_⟩
  rw [hnew]
  refine and_congr_left fun _ => ⟨?_, ?_⟩
  · rintro ⟨x, hx, rfl⟩
    have hmem : x ∈ reading.reports.filter (·.code.isOfSeparator) := List.mem_filter.mpr ⟨hx, hm⟩
    rw [hreports, mem_runReports_iff] at hmem
    obtain ⟨code, pos, hplace, rfl⟩ := hmem
    exact ⟨code, pos, hplace, rfl⟩
  · rintro ⟨code, pos, hplace, rfl⟩
    have hmem := mem_runReports_iff.mpr ⟨code, pos, hplace, rfl⟩
    rw [← hreports] at hmem
    exact ⟨_, (List.mem_filter.mp hmem).1, rfl⟩

/-- Whatever the log took before, reading the run of digits and separators at a lexer records that
the separators at its ends, those behind another, and the one behind a lone zero in front of a
decimal number or of a float are misplaced, each at its place, and nothing else of separators.
The readers of decimal digits and of the whole part of a float report the same, and they report
nothing exactly if each separator stands between two digits, and none behind a lone zero. -/
theorem recordsMisplaced_of_run {l : Lexer} (hlog : l.log.Indexed) (literal : Cursor) :
    (∀ r, RecordsMisplaced (r = .decimal) (digitRun r l.cursor) l
      (l.take (readDigits r literal l.cursor)).2) ∧
    (∀ strictZero, RecordsMisplaced strictZero (digitRun .decimal l.cursor) l
      (l.take (skipFloatRun strictZero l.cursor)).2) ∧
    (readDigits .decimal literal l.cursor).reports.filter (·.code.isOfSeparator) =
      (skipFloatRun true l.cursor).reports ∧
    ((skipFloatRun true l.cursor).reports = [] ↔
      ∀ front back, digitRun .decimal l.cursor = front ++ '_' :: back →
        (∃ digit, front.getLast? = some digit ∧ isDecimal digit = true) ∧
        (∃ digit, back.head? = some digit ∧ isDecimal digit = true) ∧ front ≠ ['0']) := by
  refine ⟨fun r => ?_, fun strictZero => ?_, ?_, ?_⟩
  · exact recordsMisplaced_take hlog _ (pos_skipChars_digitRun r l.cursor)
      (filter_isOfSeparator_readDigits r literal l.cursor)
  · refine recordsMisplaced_take hlog _ ?_ ?_
    · rw [stop_skipFloatRun]
      exact pos_skipChars_digitRun .decimal l.cursor
    · rw [reports_skipFloatRun]
      exact List.filter_eq_self.mpr fun x hx => isOfSeparator_of_mem_runReports hx
  · rw [filter_isOfSeparator_readDigits, reports_skipFloatRun]
    rfl
  · rw [reports_skipFloatRun, runReports_eq_nil_iff_forall,
      forall_not_misplaced_iff isDigitOrSeparator_of_mem_digitRun]
    simp only [isSome_digit?_decimal, forall_const]

/-- The second separator stands behind another, the last one at the end. -/
theorem recordsMisplaced_of_run_doubled :
    let l := Lexer.new 0 "0__1_" .empty
    let run := ['0', '_', '_', '1', '_']
    l.log.Indexed ∧ RecordsMisplaced true run l (l.take (readDigits .decimal l.cursor l.cursor)).2 ∧
      RecordsMisplaced false run l (l.take (skipFloatRun false l.cursor)).2 ∧
      Misplaced true 0 run .separatorNotAllowed 1 ∧
      Misplaced true 0 run .consecutiveSeparators 2 ∧
      Misplaced true 0 run .separatorNotAllowed 4 ∧
      (skipFloatRun true l.cursor).reports ≠ [] := by
  intro l run
  have hlog : l.log.Indexed := Log.indexed_empty
  have hrun : digitRun .decimal l.cursor = run := by decide +kernel
  obtain ⟨hdigits, hfloat, -, hnone⟩ := recordsMisplaced_of_run hlog l.cursor
  rw [hrun] at hnone
  have hdecimal := hdigits .decimal
  have hpart := hfloat false
  rw [hrun] at hdecimal hpart
  refine ⟨hlog, hdecimal, hpart, .afterZero rfl ['_', '1', '_'], .consecutive ['0'] ['1', '_'],
    .trailing ['0', '_', '_', '1'], fun hnil => ?_⟩
  exact (hnone.mp hnil ['0'] ['_', '1', '_'] rfl).2.2 rfl

end TypedScript.Lexer
