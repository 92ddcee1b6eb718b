import TypedScript.Proofs.Lexer.Glance
import TypedScript.Proofs.Text.Break

/-! # The line breaks a peek has noted

Whether a line break lies in front of the next token is noted by a peek that asks for it
and has to look for the token. A peek that is answered with the kept token notes nothing,
so the note stays that of an earlier look. It is about the kept token if the look that has
found this one asked for it, and if no reader has been called since.
-/

namespace TypedScript.Lexer

open Text Diagnostic

/-- A look for the next token: whether it noted line breaks, where the lexer stood, and
where the token that it found starts. -/
structure Look where
  noted : Bool
  start : Nat
  stop : Nat
deriving DecidableEq

/-- What the lexer has noted is what lies in front of the token of the last look that noted
line breaks; nothing is noted before there was one. -/
def Notes (text : List Char) (past : List Look) (l : Lexer) : Prop :=
  l.lookaheadOnNewLine = true ↔
    ∃ k, (past.filter (·.noted)).getLast? = some k ∧ BreakBetween text k.start k.stop

/-- The kept token is that of the last look; if it is known to belong here, that look was
made where the lexer stands. -/
def Kept (past : List Look) (here : Prop) (l : Lexer) : Prop :=
  l.lookahead.isSome = true →
    ∃ k, past.getLast? = some k ∧ k.stop = l.lookaheadPos ∧ (here → k.start = l.pos)

namespace Session

def look? (s : Session) : Action → Option Look
  | .perform (.peek noteNewLine handling limit) =>
    if s.lexer.lookahead.isSome then none
    else some ⟨noteNewLine, s.lexer.pos, (scan handling limit s.lexer.cursor).start.pos⟩
  | _ => none

def looks (s : Session) : List Action → List Look
  | [] => []
  | a :: actions => (s.look? a).toList ++ (s.act a).looks actions

variable {text : List Char} {past : List Look} {s : Session}

theorem getLast?_filter_concat {k : Look} (h : k.noted = true) :
    ((past ++ [k]).filter (·.noted)).getLast? = some k := by
  simp [h]

theorem notes_peek {l : Lexer} (hl : l.cursor.Stands text False) (hlook : l.lookahead = none)
    (h : Notes text past l) (noteNewLine : Bool) (handling : WordHandling) (limit : Nat) :
    let k : Look := ⟨noteNewLine, l.pos, (scan handling limit l.cursor).start.pos⟩
    Notes text (past ++ [k]) (l.peek noteNewLine handling limit).2 := by
  intro k
  cases noteNewLine with
  | true =>
    have hlast : ((past ++ [k]).filter (·.noted)).getLast? = some k := getLast?_filter_concat rfl
    have hflag : (l.peek true handling limit).2.lookaheadOnNewLine =
        l.cursor.lineBreakBefore k.stop := by
      simp only [peek, hlook, if_true]
      rfl
    rw [Notes, hflag, hlast, Cursor.lineBreakBefore_iff hl]
    simp only [Option.some.injEq, exists_eq_left', k]
    rfl
  | false =>
    have hpast : (past ++ [k]).filter (·.noted) = past.filter (·.noted) := by
      simp [k]
    rw [Notes, hpast]
    simp only [peek, hlook, Bool.false_eq_true, if_false]
    exact h

theorem lookaheadOnNewLine_skip (l : Lexer) (token : Token) (handling : WordHandling) :
    (l.skip token handling).2.lookaheadOnNewLine = l.lookaheadOnNewLine := by
  by_cases hfound : (scan handling (limitFor token) l.cursor).token = token
  · rw [skip_of_token_eq hfound]
    rfl
  · rw [skip_of_token_ne hfound]
    rfl

theorem notes_act (hl : s.lexer.cursor.Stands text False) (h : Notes text past s.lexer)
    (a : Action) : Notes text (past ++ (s.look? a).toList) (s.act a).lexer := by
  cases a with
  | perform op =>
    cases op with
    | peek noteNewLine handling limit =>
      cases hlook : s.lexer.lookahead with
      | none =>
        simp only [look?, hlook]
        exact notes_peek hl hlook h noteNewLine handling limit
      | some token => simpa [look?, act, Operation.apply, peek, hlook] using h
    | skip token handling =>
      have hflag : (s.act (.perform (.skip token handling))).lexer.lookaheadOnNewLine =
          s.lexer.lookaheadOnNewLine := lookaheadOnNewLine_skip s.lexer token handling
      simp only [look?, Option.toList_none, List.append_nil]
      rwa [Notes, hflag]
    -- Nothing else looks for the next token, or touches the note.
    | _ =>
      simp only [look?, Option.toList_none, List.append_nil]
      exact h
  | mark =>
    simp only [look?, Option.toList_none, List.append_nil]
    exact h
  | reset i =>
    simp only [look?, Option.toList_none, List.append_nil]
    cases hm : s.marks[i]? with
    | none => simpa [act, hm] using h
    | some m =>
      simp only [act, hm]
      exact h

theorem kept_act {here : Prop} (h : Kept past here s.lexer) {a : Action}
    (ha : here → a.Meets (fun l op => op.ReadsUnseen l) s.lexer) :
    Kept (past ++ (s.look? a).toList) here (s.act a).lexer := by
  cases a with
  | perform op =>
    cases op with
    | next handling => exact fun hsome => absurd hsome Bool.false_ne_true
    | peek noteNewLine handling limit =>
      cases hlook : s.lexer.lookahead with
      | none =>
        simp only [look?, hlook, act, Operation.apply, peek]
        exact fun _ => ⟨_, List.getLast?_concat, rfl, fun _ => rfl⟩
      | some token => simpa [look?, act, Operation.apply, peek, hlook] using h
    | skip token handling =>
      simp only [look?, Option.toList_none, List.append_nil]
      by_cases hfound : (scan handling (limitFor token) s.lexer.cursor).token = token
      · simp only [act, Operation.apply, skip_of_token_eq hfound]
        exact fun hsome => absurd hsome Bool.false_ne_true
      · simp only [act, Operation.apply, skip_of_token_ne hfound]
        exact h
    | afterNumber =>
      simp only [look?, Option.toList_none, List.append_nil]
      exact h
    -- A reader moves away from the place of a look that is kept.
    | _ =>
      simp only [look?, Option.toList_none, List.append_nil]
      intro hsome
      obtain ⟨k, hk, hstop, -⟩ := h hsome
      refine ⟨k, hk, hstop, fun hhere => ?_⟩
      have hnone : s.lexer.lookahead = none := ha hhere
      have hkept : s.lexer.lookahead.isSome = true := hsome
      rw [hnone] at hkept
      cases hkept
  | mark =>
    simp only [look?, Option.toList_none, List.append_nil]
    exact h
  | reset i =>
    simp only [look?, Option.toList_none, List.append_nil]
    cases hm : s.marks[i]? with
    | none => simpa [act, hm] using h
    | some m =>
      simp only [act, hm]
      exact fun hsome => absurd hsome Bool.false_ne_true

theorem looks_concat (s : Session) (actions : List Action) (a : Action) :
    s.looks (actions ++ [a]) = s.looks actions ++ ((s.run actions).look? a).toList := by
  induction actions generalizing s with
  | nil => simp [looks, run]
  | cons first actions ih =>
    rw [List.cons_append, looks, looks, ih, List.append_assoc]
    rfl

theorem notes_run (hsound : s.Sound text False) (h : Notes text past s.lexer)
    (actions : List Action) : Notes text (past ++ s.looks actions) (s.run actions).lexer := by
  induction actions generalizing s past with
  | nil =>
    rw [looks, List.append_nil]
    exact h
  | cons a actions ih =>
    rw [looks, ← List.append_assoc]
    exact ih (hsound.act False.elim).1 (notes_act hsound.lexer.cursor h a)

theorem kept_run {here : Prop} (h : Kept past here s.lexer) (actions : List Action)
    (hactions : here → s.Throughout (fun l op => op.ReadsUnseen l) actions) :
    Kept (past ++ s.looks actions) here (s.run actions).lexer := by
  induction actions generalizing s past with
  | nil =>
    rw [looks, List.append_nil]
    exact h
  | cons a actions ih =>
    rw [looks, ← List.append_assoc]
    exact ih (kept_act h fun hhere => (hactions hhere).1) fun hhere => (hactions hhere).2

theorem lookahead_peek (l : Lexer) (noteNewLine : Bool) (handling : WordHandling) (limit : Nat) :
    (l.peek noteNewLine handling limit).2.lookahead.isSome = true := by
  cases hlook : l.lookahead with
  | none => simp [peek, hlook]
  | some token => simp [peek, hlook]

/-- In every session, after a peek that asks for line breaks one is noted just if one lies
in front of the token of the last look that asked. The kept token is that of the last look
at all. So the note is about what lies between the lexer and the kept token if that look
asked, and was made where the lexer stands; which it was if no reader has been called
since. -/
theorem lineBreakNoted_of_run (source : SourceId) (text : String) (log : Log)
    (actions : List Action) (handling : WordHandling) (limit : Nat) :
    let start := Session.new source text log
    let l := (start.run actions).lexer
    let peeked := (l.peek true handling limit).2
    let looks := start.looks (actions ++ [.perform (.peek true handling limit)])
    (peeked.lookaheadOnNewLine = true ↔ ∃ k, (looks.filter (·.noted)).getLast? = some k ∧
      BreakBetween text.toList k.start k.stop) ∧
    (l.lookahead.isSome = true → peeked = l) ∧
    ∃ last, looks.getLast? = some last ∧ last.stop = peeked.lookaheadPos ∧
      (start.Throughout (fun l op => op.ReadsUnseen l) actions → last.start = peeked.pos) ∧
      (last.noted = true → last.start = peeked.pos → (peeked.lookaheadOnNewLine = true ↔
        BreakBetween text.toList peeked.pos peeked.lookaheadPos)) := by
  intro start l peeked looks
  have hsound : start.Sound text.toList False :=
    ⟨placed_new source text log False, by simp [start, Session.new]⟩
  have hlooks := looks_concat start actions (.perform (.peek true handling limit))
  have hnotes : Notes text.toList looks peeked := by
    have hbegun : Notes text.toList [] start.lexer := by
      simp [Notes, start, Session.new, Lexer.new]
    have hrun := notes_run hsound hbegun actions
    simp only [looks, hlooks]
    exact notes_act (hsound.run actions False.elim).1.lexer.cursor hrun _
  have hkept : Kept looks (start.Throughout (fun l op => op.ReadsUnseen l) actions) peeked := by
    have hbegun : Kept [] (start.Throughout (fun l op => op.ReadsUnseen l) actions) start.lexer :=
      fun hsome => absurd hsome Bool.false_ne_true
    have hrun := kept_run hbegun actions id
    simp only [looks, hlooks]
    exact kept_act hrun fun _ => trivial
  obtain ⟨last, hlast, hstop, hhere⟩ := hkept (lookahead_peek l true handling limit)
  refine ⟨hnotes, fun hsome => ?_, last, hlast, hstop, hhere, fun hnoted hstart => ?_⟩
  · obtain ⟨token, hlook⟩ := Option.isSome_iff_exists.mp hsome
    simp [peeked, peek, hlook]
  · obtain ⟨before, hbefore⟩ := List.getLast?_eq_some_iff.mp hlast
    have hown : (looks.filter (·.noted)).getLast? = some last := by
      rw [hbefore]
      exact getLast?_filter_concat hnoted
    refine Iff.trans hnotes ?_
    rw [hown, ← hstart, ← hstop]
    simp

theorem lineBreakNoted_of_run_behind :
    let start := Session.new 0 "a\n b" .empty
    let actions := [.perform (.peek false .standard noLimit), .perform (.next .standard),
      .perform .identifier, .perform (.peek true .alwaysIdentifier 1), .mark,
      .perform (.skip (.punctuator .dot) .standard)]
    let l := (start.run actions).lexer
    let peeked := (l.peek true .standard noLimit).2
    start.Throughout (fun l op => op.ReadsUnseen l) actions ∧ l.lookahead.isSome = true ∧
      start.looks (actions ++ [.perform (.peek true .standard noLimit)]) =
        [⟨false, 0, 0⟩, ⟨true, 1, 3⟩] ∧
      peeked = l ∧ peeked.lookaheadOnNewLine = true ∧
      BreakBetween "a\n b".toList peeked.pos peeked.lookaheadPos := by
  intro start actions l peeked
  have hreads : start.Throughout (fun l op => op.ReadsUnseen l) actions := by decide +kernel
  have hkept : l.lookahead.isSome = true := by decide +kernel
  have hlooks : start.looks (actions ++ [.perform (.peek true .standard noLimit)]) =
      [⟨false, 0, 0⟩, ⟨true, 1, 3⟩] := by
    decide +kernel
  obtain ⟨-, hsame, last, hlast, -, hhere, hbreak⟩ :=
    lineBreakNoted_of_run 0 "a\n b" .empty actions .standard noLimit
  have hnoted : last.noted = true := by
    have hlast : (start.looks (actions ++ [.perform (.peek true .standard noLimit)])).getLast? =
        some last := hlast
    rw [hlooks] at hlast
    obtain rfl := Option.some.inj hlast
    rfl
  have hflag : peeked.lookaheadOnNewLine = true := by decide +kernel
  exact ⟨hreads, hkept, hlooks, hsame hkept, hflag, (hbreak hnoted (hhere hreads)).mp hflag⟩

/-- A line break is missed if the token behind it was first looked for without asking. -/
theorem lineBreak_missed :
    let start := Session.new 0 "a\nb" .empty
    let actions := [.perform (.next .standard), .perform .identifier,
      .perform (.peek false .standard noLimit)]
    let peeked := ((start.run actions).lexer.peek true .standard noLimit).2
    start.Throughout (fun l op => op.ReadsUnseen l) actions ∧
      peeked.pos = 1 ∧ peeked.lookaheadPos = 2 ∧
      BreakBetween "a\nb".toList peeked.pos peeked.lookaheadPos ∧
      peeked.lookaheadOnNewLine = false := by
  intro start actions peeked
  have hpos : peeked.pos = 1 := by decide +kernel
  have hstop : peeked.lookaheadPos = 2 := by decide +kernel
  refine ⟨by decide +kernel, hpos, hstop, ?_, by decide +kernel⟩
  rw [hpos, hstop]
  exact ⟨['a'], '\n', ['b'], rfl, rfl, by decide, by decide⟩

end Session

end TypedScript.Lexer
