import TypedScript.Proofs.Lexer.Place

/-! # A skip is the next token or nothing

A skip scans as the step to the next token does, unless it looks for a closing `>`. If the
scan finds what is looked for, the skip has made that step. Otherwise it goes back, and
all that is left of the scan is what it has put on record.
-/

namespace TypedScript.Lexer

open Text Diagnostic

variable {l : Lexer} {token : Token} {handling : WordHandling}

theorem limitFor_of_ne (h : token ≠ .punctuator .greater) : limitFor token = noLimit :=
  if_neg h

theorem skip_of_next_eq (htoken : token ≠ .punctuator .greater)
    (h : (l.next handling).1 = token) :
    l.skip token handling = (true, (l.next handling).2) := by
  have hscan : (scan handling (limitFor token) l.cursor).token = token := by
    rw [limitFor_of_ne htoken]
    exact h
  rw [skip_of_token_eq hscan, limitFor_of_ne htoken]
  subst h
  rfl

/-- The scan of a skip that fails leaves nothing but what it has put on record. -/
theorem skip_of_next_ne (htoken : token ≠ .punctuator .greater)
    (h : (l.next handling).1 ≠ token) :
    let after := (l.skip token handling).2
    l.skip token handling = (false, { l with log := after.log, comments := after.comments }) := by
  have hscan : (scan handling (limitFor token) l.cursor).token ≠ token := by
    rw [limitFor_of_ne htoken]
    exact h
  rw [skip_of_token_ne hscan]
  rfl

namespace Session

/-- In every session a skip of a token other than `>` finds it exactly if it is the next
one, and is then the step to it. Otherwise the lexer is as it was, but for its log and
comments; it is back at its place, which its offset alone gives. -/
theorem skip_moves_or_stays (source : SourceId) (text : String) (log : Log)
    (actions : List Action) (token : Token) (handling : WordHandling)
    (htoken : token ≠ .punctuator .greater) :
    let l := ((Session.new source text log).run actions).lexer
    let skipped := l.skip token handling
    let next := l.next handling
    (skipped.1 = true ↔ next.1 = token) ∧
      (skipped.1 = true → skipped.2 = next.2 ∧ skipped.2.token = token ∧
        skipped.2.lookahead = none) ∧
      (skipped.1 = false →
        skipped.2 = { l with log := skipped.2.log, comments := skipped.2.comments }) ∧
      l.pos ≤ byteSize text.toList ∧ Cursor.ofOffset text.toList l.pos = l.cursor := by
  intro l skipped next
  obtain ⟨hstands, hplace⟩ := stands_run source text log actions
  by_cases hnext : next.1 = token
  · have hskipped : skipped = (true, next.2) := skip_of_next_eq htoken hnext
    refine ⟨?_, ?_, ?_, hstands.inText.le_byteSize, hplace⟩
    · simp [hskipped, hnext]
    · rw [hskipped]
      exact fun _ => ⟨rfl, hnext, rfl⟩
    · simp [hskipped]
  · have hskipped := skip_of_next_ne htoken hnext
    have hmissed : skipped.1 = false := congrArg Prod.fst hskipped
    refine ⟨?_, ?_, fun _ => congrArg Prod.snd hskipped, hstands.inText.le_byteSize, hplace⟩
    · simp [hmissed, hnext]
    · simp [hmissed]

theorem skip_moves_or_stays_looked_ahead :
    let l := ((Session.new 0 "# >> é" .empty).run [.perform (.peek true .standard 1)]).lexer
    let missed := l.skip .identifier .standard
    l.lookahead = some (.punctuator .greater) ∧ missed.1 = false ∧
      missed.2.lookahead = l.lookahead ∧
      l.skip (.punctuator .shiftRight) .standard = (true, (l.next .standard).2) := by
  intro l missed
  obtain ⟨hfound, -, hstays, -⟩ := skip_moves_or_stays 0 "# >> é" .empty
    [.perform (.peek true .standard 1)] .identifier .standard (by decide)
  obtain ⟨hfound', hmoves, -⟩ := skip_moves_or_stays 0 "# >> é" .empty
    [.perform (.peek true .standard 1)] (.punctuator .shiftRight) .standard (by decide)
  have hmissed : missed.1 = false := by decide +kernel
  have hshift : (l.next .standard).1 = .punctuator .shiftRight := by decide +kernel
  refine ⟨by decide +kernel, hmissed, by rw [hstays hmissed], ?_⟩
  exact Prod.ext (hfound'.mpr hshift) (hmoves (hfound'.mpr hshift)).1

end Session

end TypedScript.Lexer
