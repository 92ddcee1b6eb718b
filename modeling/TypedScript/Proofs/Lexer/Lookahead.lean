import TypedScript.Proofs.Lexer.Replay

/-! # Lookahead leaves no trace

A peek, or an attempt to skip a token that is not there, scans from the place of the
lexer and comes back to it. However words are classified and however short punctuators
are kept, such a scan skips no more than the scan of the next token does, and in the
same way. So what it reports is the beginning of what the next token brings in any case,
and the log takes it once.
-/

namespace TypedScript.Lexer

open Text Diagnostic

variable {limit limit' : Nat} {c next : Cursor} {what : Skipped}

theorem punctuatorAt_of_skipped {ch : Char} (limit' : Nat) (hch : c.char? = some ch)
    (h : punctuatorAt limit c = .skipped what next) :
    punctuatorAt limit' c = .skipped what next := by
  obtain ⟨rfl, rfl, hmark⟩ := stray_of_punctuatorAt hch h
  obtain ⟨hc, rest, hrest⟩ := Cursor.char?_eq_some_iff.mp hch
  rw [punctuatorAt_eq, Cursor.chars, if_pos hc, hrest,
    (Punctuator.longest?_eq_none_iff (Nat.le_max_right _ _)).mpr hmark]

/-- What is skipped with any limit is skipped with one that lets comments be seen, whatever
words are taken for. -/
theorem pieceAt_of_skipped {handling : WordHandling} (handling' : WordHandling)
    (hmany : 1 < limit') (h : pieceAt handling limit c = .skipped what next) :
    pieceAt handling' limit' c = .skipped what next := by
  unfold pieceAt at h ⊢
  split at h
  · exact h
  rename_i ch hch
  obtain ⟨hc, rest, hrest⟩ := Cursor.char?_eq_some_iff.mp hch
  by_cases hword : isIdentifierStart ch = true
  · rw [if_pos hword] at h
    exact absurd h (wordAt_ne_skipped _ _ _ _)
  rw [if_neg hword] at h ⊢
  -- The limit plays no part before the points and slashes.
  iterate 4
    split
    · rwa [if_pos ‹_›] at h
    rw [if_neg ‹_›] at h
  by_cases hlimit : 1 < limit
  · simp only [hlimit, hmany, decide_true, Bool.true_and] at h ⊢
    iterate 3
      split
      · rwa [if_pos ‹_›] at h
      rw [if_neg ‹_›] at h
    exact punctuatorAt_of_skipped limit' hch h
  · simp only [hlimit, decide_false, Bool.false_and, Bool.false_eq_true, if_false] at h
    obtain ⟨-, -, hmark⟩ := stray_of_punctuatorAt hch h
    have hpoint : isPointFloat c = false := Bool.eq_false_iff.mpr fun hp => by
      obtain rfl := Option.some.inj (hch.symm.trans (char?_of_isPointFloat hc hp))
      exact hmark .dot rfl
    have hslash : ∀ second, ['/', second].isPrefixOf c.chars = false := fun second =>
      Bool.eq_false_iff.mpr fun hp => by
        obtain ⟨more, hmore⟩ := Cursor.isPrefixOf_chars hc hp
        rw [hrest] at hmore
        cases hmore
        exact hmark .divide rfl
    simp only [hpoint, hslash, Bool.and_false, Bool.false_eq_true, if_false]
    exact punctuatorAt_of_skipped limit' hch h

theorem prefix_skipped_scanFrom (handling : WordHandling) (limit : Nat) (skipped : List Skipped)
    (c : Cursor) : skipped.reverse <+: (scanFrom handling limit skipped c).skipped := by
  fun_induction scanFrom handling limit skipped c with
  | case1 skipped c hend => exact List.prefix_rfl
  | case2 skipped c hend token stop hpiece => exact List.prefix_rfl
  | case3 skipped c hend what next hpiece hlt ih =>
    rw [List.reverse_cons] at ih
    exact (List.prefix_append _ _).trans ih

theorem scanFrom_of_skipped {handling : WordHandling} {skipped : List Skipped}
    (hend : c.atEnd = false) (h : pieceAt handling limit c = .skipped what next) :
    scanFrom handling limit skipped c = scanFrom handling limit (what :: skipped) next := by
  rw [scanFrom, dif_neg (by simp [hend])]
  split
  · rename_i hpiece
    rw [h] at hpiece
    cases hpiece
  · rename_i hpiece
    rw [h] at hpiece
    cases hpiece
    rfl

theorem prefix_skipped_of_lt (handling handling' : WordHandling) (limit : Nat)
    (hmany : 1 < limit') (skipped : List Skipped) (c : Cursor) :
    (scanFrom handling limit skipped c).skipped <+:
      (scanFrom handling' limit' skipped c).skipped := by
  fun_induction scanFrom handling limit skipped c with
  | case1 skipped c hend => exact prefix_skipped_scanFrom handling' limit' skipped c
  | case2 skipped c hend token stop hpiece =>
    exact prefix_skipped_scanFrom handling' limit' skipped c
  | case3 skipped c hend what next hpiece hlt ih =>
    -- The other scan may stop later, but it takes the same step here.
    rw [scanFrom_of_skipped (by simpa using hend) (pieceAt_of_skipped handling' hmany hpiece)]
    exact ih

theorem one_lt_noLimit : 1 < noLimit := by
  decide

/-- What one scan reports is the beginning of what the scan of the next token reports. -/
theorem messagesOf_scan_noLimit (source : SourceId) (handling handling' : WordHandling)
    (limit : Nat) (c : Cursor) :
    messagesOf source (scan handling limit c).skipped <+:
      messagesOf source (scan handling' noLimit c).skipped :=
  ((prefix_skipped_of_lt handling handling' limit one_lt_noLimit [] c).filterMap _).map _

/-- The lexer `k` stands where `l` does and has reported no more than the next token of `l`
will. -/
structure Glimpsed (handling : WordHandling) (l k : Lexer) : Prop where
  source_eq : k.source = l.source
  cursor_eq : k.cursor = l.cursor
  token_eq : k.token = l.token
  tokenPos_eq : k.tokenPos = l.tokenPos
  log_eq : (k.next handling).2.log = (l.next handling).2.log

variable {l k : Lexer} {handling : WordHandling}

theorem Glimpsed.of_log (h : Glimpsed handling l k) {after : Lexer} (handling' : WordHandling)
    (limit : Nat) (hsource : after.source = k.source) (hcursor : after.cursor = k.cursor)
    (htoken : after.token = k.token) (htokenPos : after.tokenPos = k.tokenPos)
    (hlog : after.log =
      k.log.pushAll (messagesOf k.source (scan handling' limit k.cursor).skipped)) :
    Glimpsed handling l after where
  source_eq := hsource.trans h.source_eq
  cursor_eq := hcursor.trans h.cursor_eq
  token_eq := htoken.trans h.token_eq
  tokenPos_eq := htokenPos.trans h.tokenPos_eq
  log_eq := by
    rw [← h.log_eq, log_next, log_next, hlog, hsource, hcursor]
    exact Log.pushAll_of_prefix span_isSome_of_mem_map
      (messagesOf_scan_noLimit k.source handling' handling limit k.cursor) k.log

theorem Glimpsed.apply (h : Glimpsed handling l k) (p : Probe) (hp : (p.apply k).1 = false) :
    Glimpsed handling l (p.apply k).2 := by
  cases p with
  | peek noteNewLine handling' limit =>
    cases hlook : k.lookahead with
    | none =>
      refine h.of_log handling' limit ?_ ?_ ?_ ?_ (log_peek hlook noteNewLine handling' limit)
      all_goals
        simp only [Probe.apply, peek, hlook]
        rfl
    | some token =>
      simp only [Probe.apply, peek, hlook]
      exact h
  | skip token handling' =>
    have hne : (scan handling' (limitFor token) k.cursor).token ≠ token := fun heq => by
      simp [Probe.apply, skip_of_token_eq heq] at hp
    refine h.of_log handling' (limitFor token) ?_ ?_ ?_ ?_ (log_skip k token handling')
    all_goals
      simp only [Probe.apply, skip_of_token_ne hne]
      rfl

theorem glimpsed_afterProbes (probes : List Probe) (h : Glimpsed handling l k)
    (hstay : noneMoves probes k = true) : Glimpsed handling l (k.afterProbes probes) := by
  induction probes generalizing k with
  | nil => exact h
  | cons p probes ih =>
    obtain ⟨hp, hstay⟩ := Bool.and_eq_true_iff.mp hstay
    exact ih (h.apply p (by simpa using hp)) hstay

structure Same (l k : Lexer) : Prop extends Alike l k where
  log_eq : l.log = k.log

theorem Same.glimpsed (h : Same l k) : Glimpsed handling k l where
  source_eq := h.source_eq
  cursor_eq := h.cursor_eq
  token_eq := h.token_eq
  tokenPos_eq := h.tokenPos_eq
  log_eq := by rw [log_next, log_next, h.log_eq, h.source_eq, h.cursor_eq]

theorem Glimpsed.same_next (h : Glimpsed handling l k) :
    Same (k.next handling).2 (l.next handling).2 where
  source_eq := h.source_eq
  cursor_eq := congrArg (fun c => (scan handling noLimit c).stop) h.cursor_eq
  token_eq := congrArg (fun c => (scan handling noLimit c).token) h.cursor_eq
  tokenPos_eq := congrArg (fun c => (scan handling noLimit c).start.pos) h.cursor_eq
  lookahead_eq := rfl
  log_eq := h.log_eq

theorem same_readCurrent (choice : Choice) (h : Same l k) :
    (l.readCurrent choice).1 = (k.readCurrent choice).1 ∧
      Same (l.readCurrent choice).2 (k.readCurrent choice).2 := by
  obtain ⟨source, cursor, token, tokenPos, lookahead, _, _, _, _, _, _, log⟩ := l
  obtain ⟨source', cursor', token', tokenPos', lookahead', _, _, _, _, _, _, log'⟩ := k
  obtain ⟨⟨rfl, rfl, rfl, rfl, rfl⟩, rfl⟩ := h
  obtain ⟨handling, tagged, checked⟩ := choice
  cases token <;> cases checked <;> exact ⟨rfl, ⟨rfl, rfl, rfl, rfl, rfl⟩, rfl⟩

theorem same_readNext (choice : Choice) (h : Glimpsed choice.handling l k) :
    (k.readNext choice).1 = (l.readNext choice).1 ∧
      Same (k.readNext choice).2 (l.readNext choice).2 := by
  have hnext := h.same_next
  obtain ⟨hvalue, hafter⟩ := same_readCurrent choice hnext
  refine ⟨?_, hafter⟩
  simp only [readNext, pos, hnext.token_eq, hnext.tokenPos_eq, hvalue, hafter.cursor_eq]

theorem same_runProbed (steps : List (List Probe × Choice)) (h : Same l k)
    (hstay : noProbeMoves steps l = true) :
    (runProbed steps l).1 = (runProbed (steps.map fun step => ([], step.2)) k).1 ∧
      Same (runProbed steps l).2 (runProbed (steps.map fun step => ([], step.2)) k).2 := by
  induction steps generalizing l k with
  | nil => exact ⟨rfl, h⟩
  | cons step steps ih =>
    obtain ⟨probes, choice⟩ := step
    obtain ⟨hprobes, hsteps⟩ := Bool.and_eq_true_iff.mp hstay
    have hglimpsed : Glimpsed choice.handling k (l.afterProbes probes) :=
      glimpsed_afterProbes probes h.glimpsed hprobes
    obtain ⟨hlexeme, hnext⟩ := same_readNext choice hglimpsed
    obtain ⟨hrest, hlast⟩ := ih hnext hsteps
    exact ⟨List.cons_eq_cons.mpr ⟨hlexeme, hrest⟩, hlast⟩

/-- Probes that do not move the lexer change nothing of a run: its lexemes, the token and
place where it ends, and the diagnostics are those of the run without them. And where no
lookahead is kept, a peek without a limit finds the token that comes next, at its place. -/
theorem run_of_noProbeMoves (l : Lexer) (steps : List (List Probe × Choice))
    (h : noProbeMoves steps l = true) :
    let probed := runProbed steps l
    let plain := runProbed (steps.map fun step => ([], step.2)) l
    (probed.1 = plain.1 ∧ probed.2.token = plain.2.token ∧
      probed.2.tokenPos = plain.2.tokenPos ∧ probed.2.pos = plain.2.pos ∧
      probed.2.log = plain.2.log) ∧
    ∀ (k : Lexer) noteNewLine handling, k.lookahead = none →
      let peeked := k.peek noteNewLine handling noLimit
      peeked.1 = (peeked.2.next handling).1 ∧
        peeked.2.lookaheadPos = (peeked.2.next handling).2.tokenPos := by
  intro probed plain
  have hsame : Same l l := ⟨⟨rfl, rfl, rfl, rfl, rfl⟩, rfl⟩
  obtain ⟨hlexemes, hlast⟩ := same_runProbed steps hsame h
  refine ⟨⟨hlexemes, hlast.token_eq, hlast.tokenPos_eq, ?_, hlast.log_eq⟩, ?_⟩
  · exact congrArg Cursor.pos hlast.cursor_eq
  · intro k noteNewLine handling hlook
    simp only [peek, hlook]
    exact ⟨rfl, rfl⟩

theorem run_of_noProbeMoves_stray :
    noProbeMoves [([.peek true .alwaysIdentifier 1, .skip (.punctuator .greater) .standard],
        ⟨.standard, false, false⟩)] (Lexer.new 0 "# a >> b" .empty) = true ∧
      (runProbed [([.peek true .alwaysIdentifier 1, .skip (.punctuator .greater) .standard],
        ⟨.standard, false, false⟩)] (Lexer.new 0 "# a >> b" .empty)).2.log =
      (runProbed [([], ⟨.standard, false, false⟩)] (Lexer.new 0 "# a >> b" .empty)).2.log := by
  have hstay : noProbeMoves [([.peek true .alwaysIdentifier 1,
      .skip (.punctuator .greater) .standard], ⟨.standard, false, false⟩)]
      (Lexer.new 0 "# a >> b" .empty) = true := by
    decide +kernel
  obtain ⟨⟨-, -, -, -, hlog⟩, -⟩ := run_of_noProbeMoves _ _ hstay
  exact ⟨hstay, hlog⟩

end TypedScript.Lexer
