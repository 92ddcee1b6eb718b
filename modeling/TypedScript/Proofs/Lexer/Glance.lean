import TypedScript.Proofs.Lexer.Place

/-! # What a peek answers for

A peek keeps the token that it finds, and until that is let go every other peek answers
with it. It is let go by the step to the next token, by a skip that finds its token and by
the return to a mark, but neither by a reader nor by a peek that asks for something else.
So the answer belongs to the first peek since then: to its place, to how it classified
words, and to its limit. The place is that of the lexer as long as no reader is called
between a peek and what lets its token go.
-/

namespace TypedScript.Lexer

open Text Diagnostic

/-- Where the next token was looked for, and how. -/
structure Glance where
  pos : Nat
  handling : WordHandling
  limit : Nat
deriving DecidableEq

def Glance.scan (text : List Char) (g : Glance) : Scan :=
  Lexer.scan g.handling g.limit (.ofOffset text g.pos)

/-- The lookahead of the lexer is what the kept glance finds, if there is one. -/
structure Answers (text : List Char) (kept : Option Glance) (l : Lexer) : Prop where
  lookahead_eq : l.lookahead = kept.map fun g => (g.scan text).token
  lookaheadPos_eq : ∀ g ∈ kept, l.lookaheadPos = (g.scan text).start.pos

def Operation.ReadsUnseen (l : Lexer) : Operation → Prop
  | .identifier | .string _ _ | .escape _ | .integer | .float | .pattern | .flags =>
    l.lookahead = none
  | .next _ | .peek _ _ _ | .skip _ _ | .afterNumber => True

instance (l : Lexer) : (op : Operation) → Decidable (op.ReadsUnseen l)
  | .identifier | .string _ _ | .escape _ | .integer | .float | .pattern | .flags =>
    inferInstanceAs (Decidable (_ = none))
  | .next _ | .peek _ _ _ | .skip _ _ | .afterNumber => inferInstanceAs (Decidable True)

theorem Answers.of_lookahead {text : List Char} {l : Lexer} (h : l.lookahead = none) :
    Answers text none l :=
  ⟨h, by simp⟩

namespace Session

def keep (s : Session) (kept : Option Glance) : Action → Option Glance
  | .perform (.next _) => none
  | .perform (.peek _ handling limit) => kept.or (some ⟨s.lexer.pos, handling, limit⟩)
  | .perform (.skip token handling) => if (s.lexer.skip token handling).1 then none else kept
  | .perform _ | .mark => kept
  | .reset i => if s.marks[i]?.isSome then none else kept

/-- The glance that is kept after all the actions: the first one since glances were last
let go. -/
def keptAfter (s : Session) (kept : Option Glance) : List Action → Option Glance
  | [] => kept
  | a :: actions => (s.act a).keptAfter (s.keep kept a) actions

variable {text : List Char} {kept : Option Glance} {s : Session}

theorem answers_peek {l : Lexer} (hplace : Cursor.ofOffset text l.pos = l.cursor)
    (h : Answers text kept l) (noteNewLine : Bool) (handling : WordHandling) (limit : Nat) :
    let first := kept.getD ⟨l.pos, handling, limit⟩
    let peeked := l.peek noteNewLine handling limit
    Answers text (some first) peeked.2 ∧ peeked.1 = (first.scan text).token := by
  intro first peeked
  cases kept with
  | none =>
    have hlook : l.lookahead = none := h.lookahead_eq
    have hscan : first.scan text = scan handling limit l.cursor := by
      rw [← hplace]
      rfl
    simp only [peeked, Lexer.peek, hlook]
    refine ⟨⟨?_, ?_⟩, ?_⟩
    · rw [Option.map_some, hscan]
      rfl
    · rintro g ⟨⟩
      rw [hscan]
      rfl
    · rw [hscan]
      rfl
  | some g =>
    have hlook : l.lookahead = some (g.scan text).token := h.lookahead_eq
    simp only [peeked, Lexer.peek, hlook]
    exact ⟨h, rfl⟩

theorem answers_skip {l : Lexer} (h : Answers text kept l) (token : Token)
    (handling : WordHandling) :
    let skipped := l.skip token handling
    Answers text (if skipped.1 then none else kept) skipped.2 := by
  intro skipped
  by_cases hfound : (scan handling (limitFor token) l.cursor).token = token
  · simp only [skipped, skip_of_token_eq hfound, if_true]
    exact .of_lookahead rfl
  · simp only [skipped, skip_of_token_ne hfound, Bool.false_eq_true, if_false]
    exact ⟨h.lookahead_eq, h.lookaheadPos_eq⟩

theorem answers_act (hplace : Cursor.ofOffset text s.lexer.pos = s.lexer.cursor)
    (h : Answers text kept s.lexer) (a : Action) :
    Answers text (s.keep kept a) (s.act a).lexer := by
  cases a with
  | perform op =>
    cases op with
    | next handling => exact .of_lookahead rfl
    | peek noteNewLine handling limit =>
      have hpeek := (answers_peek hplace h noteNewLine handling limit).1
      cases kept <;> exact hpeek
    | skip token handling => exact answers_skip h token handling
    -- A reader moves the lexer and leaves the lookahead as it is.
    | _ => exact ⟨h.lookahead_eq, h.lookaheadPos_eq⟩
  | mark => exact h
  | reset i =>
    cases hm : s.marks[i]? with
    | none => simpa [keep, act, hm] using h
    | some m =>
      simp only [keep, act, hm]
      exact .of_lookahead rfl

theorem pos_keep (h : Answers text kept s.lexer) (hpos : ∀ g ∈ kept, g.pos = s.lexer.pos)
    {a : Action} (ha : a.Meets (fun l op => op.ReadsUnseen l) s.lexer) :
    ∀ g ∈ s.keep kept a, g.pos = (s.act a).lexer.pos := by
  -- Where a reader is called no glance is kept.
  have hread : s.lexer.lookahead = none → kept = none := fun hlook =>
    Option.map_eq_none_iff.mp (h.lookahead_eq.symm.trans hlook)
  cases a with
  | perform op =>
    cases op with
    | next handling => simp [keep]
    | peek noteNewLine handling limit =>
      have hstay : (s.lexer.peek noteNewLine handling limit).2.pos = s.lexer.pos :=
        congrArg Cursor.pos (cursor_peek s.lexer noteNewLine handling limit).1
      intro g hg
      refine Eq.trans ?_ hstay.symm
      cases kept with
      | none =>
        obtain rfl := Option.some.inj hg
        rfl
      | some first => exact hpos g hg
    | skip token handling =>
      intro g hg
      by_cases hfound : (scan handling (limitFor token) s.lexer.cursor).token = token
      · simp [keep, skip_of_token_eq hfound] at hg
      · simp only [keep, act, Operation.apply, skip_of_token_ne hfound] at hg ⊢
        exact hpos g hg
    | afterNumber => exact hpos
    | _ =>
      rw [hread ha]
      simp [keep]
  | mark => exact hpos
  | reset i =>
    cases hm : s.marks[i]? with
    | none => simpa [keep, act, hm] using hpos
    | some m => simp [keep, hm]

theorem answers_run (hsound : s.Sound text False) (hproper : s.Proper)
    (h : Answers text kept s.lexer) (actions : List Action) :
    Answers text (s.keptAfter kept actions) (s.run actions).lexer := by
  induction actions generalizing s kept with
  | nil => exact h
  | cons a actions ih =>
    have hplace := Cursor.ofOffset_pos hsound.lexer.cursor hproper.lexer
    exact ih (hsound.act False.elim).1 (hproper.act a) (answers_act hplace h a)

theorem pos_keptAfter (hsound : s.Sound text False) (hproper : s.Proper)
    (h : Answers text kept s.lexer) (hpos : ∀ g ∈ kept, g.pos = s.lexer.pos)
    (actions : List Action) (hactions : s.Throughout (fun l op => op.ReadsUnseen l) actions) :
    ∀ g ∈ s.keptAfter kept actions, g.pos = (s.run actions).lexer.pos := by
  induction actions generalizing s kept with
  | nil => exact hpos
  | cons a actions ih =>
    have hplace := Cursor.ofOffset_pos hsound.lexer.cursor hproper.lexer
    exact ih (hsound.act False.elim).1 (hproper.act a) (answers_act hplace h a)
      (pos_keep h hpos hactions.1) hactions.2

/-- In every session a peek answers for the first glance since glances were last let go,
its own if there is none. That glance was at the place of the lexer if no reader has been
called since; so the peek answers for where the lexer stands, if the glance also asked for
the same. -/
theorem peek_of_run (source : SourceId) (text : String) (log : Log) (actions : List Action)
    (noteNewLine : Bool) (handling : WordHandling) (limit : Nat) :
    let start := Session.new source text log
    let l := (start.run actions).lexer
    let here : Glance := ⟨l.pos, handling, limit⟩
    let kept := start.keptAfter none actions
    let first := (kept.getD here).scan text.toList
    let peeked := l.peek noteNewLine handling limit
    (peeked.1 = first.token ∧ peeked.2.lookaheadPos = first.start.pos) ∧
      (start.Throughout (fun l op => op.ReadsUnseen l) actions → ∀ g ∈ kept, g.pos = l.pos) ∧
      ((∀ g ∈ kept, g = here) →
        peeked.1 = (scan handling limit l.cursor).token ∧
        peeked.2.lookaheadPos = (scan handling limit l.cursor).start.pos) := by
  intro start l here kept first peeked
  have hsound : start.Sound text.toList False :=
    ⟨placed_new source text log False, by simp [start, Session.new]⟩
  have hproper : start.Proper := proper_new source text log
  have hnone : Answers text.toList none start.lexer := .of_lookahead rfl
  have hanswers : Answers text.toList kept l := answers_run hsound hproper hnone actions
  obtain ⟨-, hplace⟩ := stands_run source text log actions
  obtain ⟨hafter, htoken⟩ := answers_peek hplace hanswers noteNewLine handling limit
  have hpos := hafter.lookaheadPos_eq _ rfl
  refine ⟨⟨htoken, hpos⟩, pos_keptAfter hsound hproper hnone (by simp) actions, fun hkept => ?_⟩
  have hhere : kept.getD here = here := by
    cases hk : kept with
    | none => rfl
    | some g => exact hkept g hk
  have hfirst : first = scan handling limit l.cursor := by
    rw [← hplace]
    exact congrArg (Glance.scan text.toList) hhere
  rw [← hfirst]
  exact ⟨htoken, hpos⟩

theorem peek_of_run_again :
    let start := Session.new 0 "a  >>é" .empty
    let actions := [.perform (.next .standard), .perform .identifier,
      .perform (.peek false .standard 1), .perform (.skip .identifier .standard), .mark]
    let l := (start.run actions).lexer
    start.Throughout (fun l op => op.ReadsUnseen l) actions ∧
      start.keptAfter none actions = some ⟨l.pos, .standard, 1⟩ ∧
      (l.peek true .standard 1).1 = (scan .standard 1 l.cursor).token := by
  intro start actions l
  have hkept : start.keptAfter none actions = some ⟨l.pos, .standard, 1⟩ := by decide +kernel
  obtain ⟨-, -, hsame⟩ := peek_of_run 0 "a  >>é" .empty actions true .standard 1
  refine ⟨by decide +kernel, hkept, (hsame fun g hg => ?_).1⟩
  exact Option.some.inj (hg.symm.trans hkept)

/-- A peek with a limit answers for a later one without, and a peek in front of a word for
one behind it. -/
theorem peek_ne_scan :
    let limited := ((Session.new 0 ">>=" .empty).run [.perform (.peek false .standard 1)]).lexer
    let behind := ((Session.new 0 "a;" .empty).run [.perform (.next .standard),
      .perform (.peek false .standard noLimit), .perform .identifier]).lexer
    (limited.peek false .standard noLimit).1 = .punctuator .greater ∧
      (scan .standard noLimit limited.cursor).token = .punctuator .shiftRightAssign ∧
      (behind.peek false .standard noLimit).1 = .identifier ∧
      (behind.peek false .standard noLimit).2.lookaheadPos = 0 ∧
      (scan .standard noLimit behind.cursor).token = .punctuator .semicolon ∧
      (scan .standard noLimit behind.cursor).start.pos = 1 := by
  decide +kernel

end Session

end TypedScript.Lexer
