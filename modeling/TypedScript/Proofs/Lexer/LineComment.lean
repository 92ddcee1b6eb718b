import TypedScript.Proofs.Lexer.Comments
import TypedScript.Proofs.Lexer.Session

/-! # Where a line comment ends

A line comment ends with the next line feed, or with the text if there is none. Other line
breaks do not end it, so what stands behind one of them is in the comment as well. A comment
stays on one line just if its only other line break is a carriage return in front of its line
feed, or the last character of the text.
-/

namespace TypedScript.Lexer

open Text Diagnostic

variable {text : List Char} {source : SourceId} {x : Comment} {l : Lexer} {c : Cursor}

def lineEndings : List (List Char) :=
  [['\n'], ['\r'], ['\r', '\n'], ['\u2028'], ['\u2029']]

def IsOneLine (text : List Char) : Prop :=
  ∃ body ending, text = body ++ ending ∧ (∀ ch ∈ body, isLineBreak ch = false) ∧
    (ending = [] ∨ ending ∈ lineEndings)

theorem isLineBreak_of_mem_lineEndings {ch : Char} {more : List Char}
    (h : ch :: more ∈ lineEndings) : isLineBreak ch = true := by
  simp only [lineEndings, List.mem_cons, List.cons.injEq, List.not_mem_nil, or_false] at h
  rcases h with ⟨rfl, -⟩ | ⟨rfl, -⟩ | ⟨rfl, -⟩ | ⟨rfl, -⟩ | ⟨rfl, -⟩ <;> rfl

theorem isOneLine_iff_dropWhile : IsOneLine text ↔
    text.dropWhile (fun ch => !isLineBreak ch) = [] ∨
      text.dropWhile (fun ch => !isLineBreak ch) ∈ lineEndings := by
  constructor
  · rintro ⟨body, ending, rfl, hbody, hending⟩
    have hhead : ∀ ch, ending.head? = some ch → (!isLineBreak ch) = false := by
      intro ch hch
      obtain ⟨more, rfl⟩ := List.head?_eq_some_iff.mp hch
      have hmem := hending.resolve_left (List.cons_ne_nil _ _)
      simp [isLineBreak_of_mem_lineEndings hmem]
    have hrun : ∀ ch ∈ body, (!isLineBreak ch) = true := fun ch hch => by simp [hbody ch hch]
    rwa [(span_run_append hrun hhead).2]
  · intro h
    refine ⟨_, _, List.takeWhile_append_dropWhile.symm, fun ch hch => ?_, h⟩
    simpa using List.all_eq_true.mp List.all_takeWhile ch hch

instance (text : List Char) : Decidable (IsOneLine text) :=
  decidable_of_iff _ isOneLine_iff_dropWhile.symm

theorem isOneLine_cons_of_break {ch : Char} (h : isLineBreak ch = true) :
    IsOneLine (ch :: text) ↔ ch :: text ∈ lineEndings := by
  rw [isOneLine_iff_dropWhile, List.dropWhile_cons_of_neg (by simp [h])]
  exact or_iff_right (List.cons_ne_nil _ _)

theorem isOneLine_cons {ch : Char} (h : isLineBreak ch = false) :
    IsOneLine (ch :: text) ↔ IsOneLine text := by
  rw [isOneLine_iff_dropWhile, List.dropWhile_cons_of_pos (by simp [h]), isOneLine_iff_dropWhile]

theorem forall_split_cons_iff {P : Char → List Char → Prop} {ch : Char} :
    (∀ front other back, ch :: text = front ++ other :: back → P other back) ↔
      P ch text ∧ ∀ front other back, text = front ++ other :: back → P other back := by
  constructor
  · intro h
    refine ⟨h [] ch text rfl, fun front other back htext => h (ch :: front) other back ?_⟩
    rw [htext]
    rfl
  · rintro ⟨hch, hrest⟩ front other back hfront
    cases front with
    | nil =>
      obtain ⟨rfl, rfl⟩ := List.cons_eq_cons.mp hfront
      exact hch
    | cons first front => exact hrest front other back (List.cons_eq_cons.mp hfront).2

theorem mem_lineEndings_iff {ch : Char} {line ending : List Char} (hbreak : isLineBreak ch = true)
    (hline : '\n' ∉ ch :: line) (hending : ending = ['\n'] ∨ ending = []) :
    ch :: (line ++ ending) ∈ lineEndings ↔ line = [] ∧ (ch = '\r' ∨ ending = []) := by
  obtain ⟨hch, hline⟩ := List.ne_and_not_mem_of_not_mem_cons hline
  have hfeed : line ≠ ['\n'] := fun h => by simp [h] at hline
  simp only [isLineBreak, Bool.or_eq_true, beq_iff_eq] at hbreak
  rcases hbreak with ((rfl | rfl) | rfl) | rfl
  · exact absurd rfl hch
  all_goals rcases hending with rfl | rfl <;> simp [lineEndings, hfeed]

/-- Up to its line feed a text is one line if a line break in it is the last character, and is
a carriage return where the line feed follows. -/
theorem isOneLine_append_iff {line ending : List Char} (hline : '\n' ∉ line)
    (hending : ending = ['\n'] ∨ ending = []) :
    IsOneLine (line ++ ending) ↔
      ∀ front ch back, line = front ++ ch :: back → isLineBreak ch = true →
        back = [] ∧ (ch = '\r' ∨ ending = []) := by
  induction line with
  | nil =>
    refine ⟨fun _ front ch back h => by simp at h, fun _ => ?_⟩
    rcases hending with rfl | rfl <;> decide
  | cons ch line ih =>
    rw [forall_split_cons_iff (P := fun ch back => isLineBreak ch = true →
      back = [] ∧ (ch = '\r' ∨ ending = [])), List.cons_append]
    cases hbreak : isLineBreak ch with
    | false =>
      rw [isOneLine_cons hbreak, ih (List.not_mem_of_not_mem_cons hline)]
      simp
    | true =>
      rw [isOneLine_cons_of_break hbreak, mem_lineEndings_iff hbreak hline hending]
      constructor
      · rintro ⟨rfl, hmark⟩
        exact ⟨fun _ => ⟨rfl, hmark⟩, fun front other back hsplit => by simp at hsplit⟩
      · intro h
        exact h.1 rfl

/-- The comment is a stretch of the text, and its characters are such as a scan skips there. -/
structure Cites (text : List Char) (source : SourceId) (x : Comment) : Prop where
  split : ∃ before part after, text = before ++ part ++ after ∧ x.text = String.ofList part ∧
    x.span = ⟨source, byteSize before, byteSize before + byteSize part⟩ ∧
    (Skipped.comment x.kind x.text x.span.start x.span.stop).Describes part after

theorem cites_of_pieceAt {handling : WordHandling} {limit : Nat} {what : Skipped} {next : Cursor}
    (hc : c.Stands text False) (hend : c.atEnd = false)
    (h : pieceAt handling limit c = .skipped what next) (hx : what.comment? source = some x) :
    Cites text source x := by
  cases what with
  | blank | openComment | stray => cases hx
  | comment kind body start stop =>
    obtain rfl := Option.some.inj hx
    have hinside : c.inside = 0 := Decidable.byContradiction fun hne => by
      simp [pieceAt, Cursor.char?, hne] at h
    obtain ⟨before, htext, hpos⟩ := hc.split
    rw [hinside, Nat.add_zero] at hpos
    cases covers_pieceAt hinside hend h with
    | @cons _ _ _ part _ _ hpart _ hstart hstop hwhat hnil =>
      cases hnil
      have hstart : start = byteSize before := hstart.trans hpos
      have hstop : stop = byteSize before + byteSize part := by
        rw [← hpos, ← hpart.pos_eq]
        exact hstop
      have hbody : body = String.ofList part := by
        cases hwhat <;> rfl
      refine ⟨before, part, next.rest, ?_, hbody, ?_, hwhat⟩
      · rw [htext, hpart.rest_eq, List.append_assoc]
      · rw [hstart, hstop]

theorem cites_scanFrom (handling : WordHandling) (limit : Nat) (skipped : List Skipped)
    (hc : c.Stands text False)
    (hskipped : ∀ what ∈ skipped, ∀ x, what.comment? source = some x → Cites text source x) :
    ∀ what ∈ (scanFrom handling limit skipped c).skipped,
      ∀ x, what.comment? source = some x → Cites text source x := by
  fun_induction scanFrom handling limit skipped c with
  | case1 | case2 => exact fun what hwhat => hskipped what (List.mem_reverse.mp hwhat)
  | case3 skipped c hend what next hpiece hlt ih =>
    have hend : c.atEnd = false := by simpa using hend
    obtain ⟨honward, -⟩ := onward_of_skipped hc hend hpiece
    apply ih honward.stands
    exact List.forall_mem_cons.mpr ⟨fun x => cites_of_pieceAt hc hend hpiece, hskipped⟩

theorem cites_ahead (hl : l.cursor.Stands text False) : ∀ x ∈ ahead l, Cites text l.source x := by
  intro x hx
  obtain ⟨what, hwhat, hx⟩ := List.mem_filterMap.mp hx
  exact cites_scanFrom .standard noLimit [] hl (by simp) what hwhat x hx

namespace Session

variable {s : Session}

theorem cites_act (hs : s.Sound text False)
    (h : ∀ x ∈ s.lexer.comments.toList, Cites text s.lexer.source x) (a : Action) :
    ∀ x ∈ (s.act a).lexer.comments.toList, Cites text s.lexer.source x := by
  cases a with
  | perform op =>
    intro x hx
    rw [act, op.comments_apply] at hx
    rcases List.mem_append.mp hx with hx | hx
    · exact h x hx
    · split at hx
      · exact cites_ahead hs.lexer.cursor x hx
      · cases hx
  | mark => exact h
  | reset i => cases hm : s.marks[i]? <;> simpa [act, hm, Lexer.reset, restore] using h

theorem cites_run (hs : s.Sound text False)
    (h : ∀ x ∈ s.lexer.comments.toList, Cites text s.lexer.source x) (actions : List Action) :
    ∀ x ∈ (s.run actions).lexer.comments.toList, Cites text s.lexer.source x := by
  induction actions generalizing s with
  | nil => exact h
  | cons a actions ih =>
    have hnext := cites_act hs h a
    rw [← source_act s a] at hnext ⊢
    exact ih (hs.act False.elim).1 hnext

/-- Whatever is done with a lexer, each line comment that it hands over is a stretch of the
text from two slashes through the next line feed, or to the end of the text if there is none.
It stays on one line exactly if every other line break in it is its last character, and is a
carriage return where the line feed follows. -/
theorem lineComments_of_run (source : SourceId) (text : String) (log : Log)
    (actions : List Action) :
    ∀ x ∈ ((Session.new source text log).run actions).lexer.comments.toList, x.kind ≠ .block →
      ∃ before line ending after, text.toList = before ++ (line ++ ending) ++ after ∧
        x.text = String.ofList (line ++ ending) ∧
        x.span = ⟨source, byteSize before, byteSize before + byteSize (line ++ ending)⟩ ∧
        x.kind = (if ['/', '/', '/'] <+: line then .triple else .line) ∧
        ['/', '/'] <+: line ∧ '\n' ∉ line ∧ (ending = ['\n'] ∨ ending = [] ∧ after = []) ∧
        (IsOneLine x.text.toList ↔
          ∀ front ch back, line = front ++ ch :: back → isLineBreak ch = true →
            back = [] ∧ (ch = '\r' ∨ ending = [])) := by
  intro x hx hkind
  have hstart : (Session.new source text log).Sound text.toList False :=
    ⟨placed_new source text log False, by simp [Session.new]⟩
  have hnone : ∀ x ∈ (Session.new source text log).lexer.comments.toList,
      Cites text.toList source x := by
    simp [Session.new, Lexer.new]
  obtain ⟨before, part, after, htext, hpart, hspan, hdescribes⟩ :=
    (cites_run hstart hnone actions x hx).split
  obtain ⟨kind, body, span⟩ := x
  cases hdescribes with
  | block => exact absurd rfl hkind
  | @line _ _ _ body ending _ hbody hending hmarks =>
    have hline : '\n' ∉ '/' :: '/' :: body := by simp [hbody]
    have hend : ending = ['\n'] ∨ ending = [] := hending.imp_right And.left
    refine ⟨before, '/' :: '/' :: body, ending, after, htext, hpart, hspan, ?_,
      List.prefix_append ['/', '/'] body, hline, hending, ?_⟩
    · have hmarks : kind = if ['/'] <+: body then .triple else .line := hmarks
      simpa [List.cons_prefix_cons] using hmarks
    · rw [hpart, String.toList_ofList]
      exact isOneLine_append_iff hline hend

theorem lineComments_of_run_fed :
    let actions := [.perform (.next .standard), .perform .identifier, .mark,
      .perform (.peek false .standard noLimit), .reset 0]
    let x : Comment := ⟨.triple, "/// é\r\n", ⟨0, 2, 10⟩⟩
    x ∈ ((Session.new 0 "a /// é\r\nb" .empty).run actions).lexer.comments.toList ∧
      x.kind ≠ .block ∧ IsOneLine x.text.toList ∧
      ∀ front ch back, "/// é\r".toList = front ++ ch :: back → isLineBreak ch = true →
        back = [] ∧ ch = '\r' := by
  intro actions x
  have hx : x ∈ ((Session.new 0 "a /// é\r\nb" .empty).run actions).lexer.comments.toList := by
    decide +kernel
  have hkind : x.kind ≠ .block := by decide
  have hone : IsOneLine x.text.toList := by decide +kernel
  obtain ⟨before, line, ending, after, -, htext, -, -, -, hline, hending, hiff⟩ :=
    lineComments_of_run 0 "a /// é\r\nb" .empty actions x hx hkind
  have hsplit : line ++ ending = "/// é\r".toList ++ ['\n'] := by
    rw [← String.toList_ofList (l := line ++ ending), ← htext]
    decide +kernel
  have hfeed : ending = ['\n'] := by
    refine hending.resolve_right ?_
    rintro ⟨rfl, -⟩
    rw [List.append_nil] at hsplit
    exact hline (by simp [hsplit])
  subst hfeed
  obtain rfl := List.append_cancel_right hsplit
  refine ⟨hx, hkind, hone, fun front ch back hfront hbreak => ?_⟩
  simpa using hiff.mp hone front ch back hfront hbreak

/-- A comment goes on behind a carriage return, so what stands on the next line is lost. -/
theorem lineComment_over_return :
    let l := ((Session.new 0 "// a\rb" .empty).run [.perform (.next .standard)]).lexer
    l.comments.toList = [⟨.line, "// a\rb", ⟨0, 0, 6⟩⟩] ∧ ¬ IsOneLine "// a\rb".toList ∧
      l.token = .endOfText := by
  decide +kernel

end Session

end TypedScript.Lexer
