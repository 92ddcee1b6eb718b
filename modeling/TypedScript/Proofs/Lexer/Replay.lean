import TypedScript.Proofs.Lexer.Advance

/-! # Going back and over the same text again

A lexer that goes back to a mark keeps its log, its comments and the last quoted body.
What an operation brings does not depend on them: it depends on the source, the place,
the token and the lookahead, which a mark gives back or clears. So operations that are
done again bring the same again, and each message of theirs has a span by which the log
knows it.
-/

namespace TypedScript.Lexer

open Text Diagnostic

structure Alike (l k : Lexer) : Prop where
  source_eq : l.source = k.source
  cursor_eq : l.cursor = k.cursor
  token_eq : l.token = k.token
  tokenPos_eq : l.tokenPos = k.tokenPos
  lookahead_eq : l.lookahead = k.lookahead

theorem span_isSome_of_mem_map {source : SourceId} {reports : List Report} :
    ∀ m ∈ reports.map (·.message source), m.span.isSome = true := by
  intro m hm
  obtain ⟨r, -, rfl⟩ := List.mem_map.mp hm
  rfl

variable {l k : Lexer}

namespace Operation

theorem alike_apply (op : Operation) (h : Alike l k) :
    (op.apply l).1 = (op.apply k).1 ∧ Alike (op.apply l).2 (op.apply k).2 := by
  obtain ⟨source, cursor, token, tokenPos, lookahead⟩ := l
  obtain ⟨source', cursor', token', tokenPos', lookahead'⟩ := k
  obtain ⟨rfl, rfl, rfl, rfl, rfl⟩ := h
  cases op with
  | peek noteNewLine handling limit =>
    cases lookahead <;> exact ⟨rfl, rfl, rfl, rfl, rfl, rfl⟩
  | skip sought handling =>
    by_cases hfound : (scan handling (limitFor sought) cursor).token = sought
    · simp only [apply]
      rw [skip_of_token_eq hfound, skip_of_token_eq hfound]
      exact ⟨rfl, rfl, rfl, rfl, rfl, rfl⟩
    · simp only [apply]
      rw [skip_of_token_ne hfound, skip_of_token_ne hfound]
      exact ⟨rfl, rfl, rfl, rfl, rfl, rfl⟩
  | _ => exact ⟨rfl, rfl, rfl, rfl, rfl, rfl⟩

def reports (op : Operation) (l : Lexer) : List Report :=
  match op with
  | .next handling => (scan handling noLimit l.cursor).skipped.filterMap Skipped.report?
  | .peek _ handling limit =>
    if l.lookahead.isSome then []
    else (scan handling limit l.cursor).skipped.filterMap Skipped.report?
  | .skip token handling =>
    (scan handling (limitFor token) l.cursor).skipped.filterMap Skipped.report?
  | .identifier => []
  | .string quote? tagged => (readQuoted quote? tagged l.cursor).reports
  | .escape tagged => (readEscape tagged l.cursor).reports
  | .integer => (readInteger l.cursor).reports
  | .float => (readFloat l.cursor).reports
  | .pattern => (readPattern l.cursor).reports
  | .flags => (readRegexpFlags l.cursor).reports
  | .afterNumber => wordAfterNumber l.cursor

theorem reports_eq (op : Operation) (h : Alike l k) : op.reports l = op.reports k := by
  cases op <;> simp only [reports, h.cursor_eq, h.lookahead_eq]

theorem log_apply (op : Operation) (l : Lexer) :
    (op.apply l).2.log = l.log.pushAll ((op.reports l).map (·.message l.source)) := by
  cases op with
  | next handling => exact l.log_next handling
  | peek noteNewLine handling limit =>
    cases hlook : l.lookahead with
    | none =>
      simp only [reports, hlook]
      exact log_peek hlook noteNewLine handling limit
    | some token => simp [reports, apply, Lexer.peek, hlook]
  | skip token handling => exact l.log_skip token handling
  | afterNumber => exact l.log_record _
  | _ => exact l.log_take _

theorem source_apply (op : Operation) (l : Lexer) : (op.apply l).2.source = l.source := by
  cases op with
  | peek noteNewLine handling limit =>
    cases hlook : l.lookahead <;> simp only [apply, Lexer.peek, hlook] <;> rfl
  | skip token handling =>
    simp only [apply]
    by_cases h : (scan handling (limitFor token) l.cursor).token = token
    · rw [skip_of_token_eq h]
      rfl
    · rw [skip_of_token_ne h]
      rfl
  | _ => rfl

end Operation

theorem source_trace (ops : List Operation) (l : Lexer) : (trace ops l).2.source = l.source := by
  induction ops generalizing l with
  | nil => rfl
  | cons op ops ih => exact (ih _).trans (op.source_apply l)

theorem trace_of_alike (ops : List Operation) (h : Alike l k) :
    (trace ops l).1 = (trace ops k).1 ∧
      ∃ ms, (∀ m ∈ ms, m.span.isSome = true) ∧ (trace ops l).2.log = l.log.pushAll ms ∧
        (trace ops k).2.log = k.log.pushAll ms := by
  induction ops generalizing l k with
  | nil => exact ⟨rfl, [], by simp, rfl, rfl⟩
  | cons op ops ih =>
    obtain ⟨houtcome, hnext⟩ := op.alike_apply h
    obtain ⟨hseen, ms, hspan, hl, hk⟩ := ih hnext
    refine ⟨?_, (op.reports l).map (·.message l.source) ++ ms, ?_, ?_, ?_⟩
    · simp only [trace, pos, houtcome, hnext.token_eq, hnext.tokenPos_eq, hnext.cursor_eq, hseen]
    · exact List.forall_mem_append.mpr ⟨span_isSome_of_mem_map, hspan⟩
    · rw [Log.pushAll_append, ← op.log_apply]
      exact hl
    · rw [op.reports_eq h, h.source_eq, Log.pushAll_append, ← op.log_apply]
      exact hk

theorem alike_reset (m : Mark) (h : l.source = k.source) : Alike (l.reset m) (k.reset m) :=
  ⟨h, rfl, rfl, rfl, rfl⟩

/-- Operations that follow a return to a mark are seen the same when the lexer returns to
the mark again, and leave the log as it is. -/
theorem trace_reset_trace_reset (l : Lexer) (m : Mark) (ops : List Operation) :
    let first := trace ops (l.reset m)
    let second := trace ops (first.2.reset m)
    second.1 = first.1 ∧ second.2.log = first.2.log := by
  intro first second
  have halike : Alike (first.2.reset m) (l.reset m) :=
    alike_reset m (source_trace ops (l.reset m))
  obtain ⟨hseen, ms, hspan, hsecond, hfirst⟩ := trace_of_alike ops halike
  refine ⟨hseen, ?_⟩
  have hlog : (first.2.reset m).log = (l.log.pushAll ms) := hfirst
  calc second.2.log = (l.log.pushAll ms).pushAll ms := by rw [← hlog]; exact hsecond
    _ = l.log.pushAll ms := Log.pushAll_pushAll hspan l.log
    _ = first.2.log := hfirst.symm

end TypedScript.Lexer
