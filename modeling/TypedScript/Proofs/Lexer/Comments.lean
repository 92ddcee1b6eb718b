import TypedScript.Proofs.Lexer.Course
import TypedScript.Proofs.Lexer.Lookahead

/-! # How often a comment is handed over

Every scan hands over the comments that it skips, whether the lexer stays behind them or
goes back. So a run that reads a text to its end hands over each comment as it passes over
it, in the order of the text, and once more for every look that went over the comment
before and came back: a peek that keeps no token yet, or a skip that did not find its token.
A scan whose limit is one sees no comments.
-/

namespace TypedScript.Lexer

open Text Diagnostic

variable {limit limit' : Nat} {c d : Cursor} {what : Skipped} {handling : WordHandling}
  {source : SourceId} {text : List Char} {l : Lexer}

theorem skipped_scan_eq (handling handling' : WordHandling) (h : 1 < limit) (h' : 1 < limit')
    (c : Cursor) : (scan handling limit c).skipped = (scan handling' limit' c).skipped := by
  have hprefix := prefix_skipped_of_lt handling handling' limit h' [] c
  have hprefix' := prefix_skipped_of_lt handling' handling limit' h [] c
  exact hprefix.eq_of_length (Nat.le_antisymm hprefix.length_le hprefix'.length_le)

theorem comment?_of_pieceAt {next : Cursor} (hlimit : ¬ 1 < limit)
    (h : pieceAt handling limit c = .skipped what next) : what.comment? source = none := by
  unfold pieceAt at h
  split at h
  · cases h
    rfl
  rename_i ch hch
  split at h
  · exact absurd h (wordAt_ne_skipped _ _ _ _)
  split at h
  · cases h
    rfl
  iterate 3
    split at h
    · cases h
  -- The limit leaves neither floats nor comments to be seen.
  simp only [hlimit, decide_false, Bool.false_and, Bool.false_eq_true, if_false] at h
  obtain ⟨rfl, -, -⟩ := stray_of_punctuatorAt hch h
  rfl

theorem comment?_of_mem_scanFrom (hlimit : ¬ 1 < limit) (handling : WordHandling)
    (skipped : List Skipped) (c : Cursor)
    (hskipped : ∀ what ∈ skipped, what.comment? source = none) :
    ∀ what ∈ (scanFrom handling limit skipped c).skipped, what.comment? source = none := by
  fun_induction scanFrom handling limit skipped c with
  | case1 | case2 => exact fun what hwhat => hskipped what (List.mem_reverse.mp hwhat)
  | case3 skipped c hend what next hpiece hlt ih =>
    exact ih (List.forall_mem_cons.mpr ⟨comment?_of_pieceAt hlimit hpiece, hskipped⟩)

def ahead (l : Lexer) : List Comment :=
  (scan .standard noLimit l.cursor).skipped.filterMap (Skipped.comment? l.source)

theorem comments_scan (l : Lexer) (handling : WordHandling) (limit : Nat) :
    (scan handling limit l.cursor).skipped.filterMap (Skipped.comment? l.source) =
      if 1 < limit then ahead l else [] := by
  split
  · rw [skipped_scan_eq handling .standard ‹_› one_lt_noLimit]
    rfl
  · exact List.filterMap_eq_nil_iff.mpr (comment?_of_mem_scanFrom ‹_› handling [] _ (by simp))

theorem comments_scanNext_ahead (l : Lexer) (handling : WordHandling) (limit : Nat) :
    (l.scanNext handling limit).2.comments.toList =
      l.comments.toList ++ if 1 < limit then ahead l else [] := by
  rw [comments_scanNext, comments_scan]

namespace Operation

def looks : Operation → Lexer → Bool
  | .next _, _ => true
  | .peek _ _ limit, l => l.lookahead.isNone && 1 < limit
  | .skip token _, _ => 1 < limitFor token
  | _, _ => false

def moves : Operation → Lexer → Bool
  | .next _, _ => true
  | .skip token handling, l => (l.skip token handling).1
  | _, _ => false

theorem comments_apply (op : Operation) (l : Lexer) :
    (op.apply l).2.comments.toList =
      l.comments.toList ++ if op.looks l then ahead l else [] := by
  cases op with
  | next handling => exact comments_scanNext_ahead { l with lookahead := none } handling noLimit
  | peek noteNewLine handling limit =>
    cases hlook : l.lookahead with
    | none =>
      simp only [apply, Lexer.peek, looks, hlook, Option.isNone_none, Bool.true_and,
        decide_eq_true_eq]
      exact comments_scanNext_ahead l handling limit
    | some token => simp [apply, Lexer.peek, looks, hlook]
  | skip token handling =>
    simp only [apply, looks, decide_eq_true_eq]
    by_cases hfound : (scan handling (limitFor token) l.cursor).token = token
    · rw [skip_of_token_eq hfound]
      exact comments_scanNext_ahead l handling (limitFor token)
    · rw [skip_of_token_ne hfound]
      exact comments_scanNext_ahead l handling (limitFor token)
  | _ =>
    simp only [looks, Bool.false_eq_true, if_false, List.append_nil]
    rfl

end Operation

theorem comments_stretch (source : SourceId) (token : Token) (c d : Cursor) :
    (stretch token c d).filterMap (Tile.comment? source) = [] := by
  unfold stretch
  split <;> rfl

theorem comments_tiles_scan (l : Lexer) (handling : WordHandling) (limit : Nat) :
    (scan handling limit l.cursor).tiles.filterMap (Tile.comment? l.source) =
      if 1 < limit then ahead l else [] := by
  rw [Scan.tiles, List.filterMap_append, comments_stretch, List.append_nil, filterMap_comment?,
    comments_scan]

/-- An operation leads over the comments that it hands over, or over none. -/
theorem comments_tiles (op : Operation) (l : Lexer) :
    (op.tiles l).filterMap (Tile.comment? l.source) =
      if op.looks l && op.moves l then ahead l else [] := by
  cases op with
  | next handling => exact comments_tiles_scan l handling noLimit
  | peek noteNewLine handling limit => simp [Operation.tiles, Operation.moves]
  | skip token handling =>
    simp only [Operation.tiles, Operation.looks, Operation.moves]
    by_cases hmoves : (l.skip token handling).1 = true
    · simpa [hmoves] using comments_tiles_scan l handling (limitFor token)
    · simp [hmoves]
  | afterNumber => rfl
  | _ => exact comments_stretch _ _ _ _

def Operation.glances (x : Comment) (op : Operation) (l : Lexer) : Nat :=
  if op.looks l && !op.moves l && x ∈ ahead l then 1 else 0

/-- How many of the operations look over the comment and come back. -/
def glances (x : Comment) : List Operation → Lexer → Nat
  | [], _ => 0
  | op :: ops, l => op.glances x l + glances x ops (op.apply l).2

theorem span_of_comment? {tile : Tile} {x : Comment} (h : tile.comment? source = some x) :
    x.span = ⟨source, tile.start, tile.stop⟩ := by
  unfold Tile.comment? at h
  split at h
  · cases h
    rfl
  · cases h

theorem Covers.pairwise_comment? {tiles : List Tile} (h : Covers c tiles d) (source : SourceId) :
    (tiles.filterMap (Tile.comment? source)).Pairwise fun a b =>
      a.span.start < b.span.start ∧ a.span.stop ≤ b.span.start := by
  refine List.pairwise_filterMap.mpr ((h.pairwise_lt.and h.pairwise_le).imp ?_)
  rintro a b ⟨⟨hlt, -⟩, hle⟩ x hx y hy
  rw [span_of_comment? hx, span_of_comment? hy]
  exact ⟨hlt, hle⟩

theorem Covers.nodup_comment? {tiles : List Tile} (h : Covers c tiles d) (source : SourceId) :
    (tiles.filterMap (Tile.comment? source)).Nodup := by
  refine (h.pairwise_comment? source).imp ?_
  rintro x y ⟨hlt, -⟩ rfl
  exact Nat.lt_irrefl _ hlt

theorem nodup_ahead (hl : l.cursor.inside = 0) : (ahead l).Nodup := by
  rw [ahead, ← filterMap_comment?]
  exact (covers_scan .standard noLimit hl).nodup_comment? l.source

theorem count_apply (hl : l.cursor.inside = 0) (op : Operation) (x : Comment) :
    (if op.looks l then ahead l else []).count x =
      ((op.tiles l).filterMap (Tile.comment? l.source)).count x + op.glances x l := by
  have hcount : (ahead l).count x = if x ∈ ahead l then 1 else 0 := (nodup_ahead hl).count
  rw [comments_tiles, Operation.glances]
  cases op.looks l <;> cases op.moves l <;> simp [hcount]

/-- What a run hands over holds what it passes over, and each look that comes back adds one
of each comment it went over. -/
theorem comments_trace (s : Session) (h : Tracked text s.lexer) (ops : List Operation)
    (hfits : s.Throughout (fun l op => op.Fits l ∧ op.QuoteFits text l) (ops.map .perform)) :
    let passed := (tilesOf ops s.lexer).filterMap (Tile.comment? s.lexer.source)
    ∃ heard, (trace ops s.lexer).2.comments.toList = s.lexer.comments.toList ++ heard ∧
      passed.Sublist heard ∧
      ∀ x, heard.count x = passed.count x + glances x ops s.lexer := by
  induction ops generalizing s with
  | nil => exact ⟨[], (List.append_nil _).symm, .slnil, fun x => rfl⟩
  | cons op ops ih =>
    obtain ⟨hop, hops⟩ := hfits
    obtain ⟨heard, hcomments, hsublist, hcount⟩ := ih (s.act (.perform op)) (h.apply op hop) hops
    rw [Session.source_act] at hsublist hcount
    refine ⟨(if op.looks s.lexer then ahead s.lexer else []) ++ heard, ?_, ?_, fun x => ?_⟩
    · rw [← List.append_assoc, ← op.comments_apply]
      exact hcomments
    · rw [tilesOf, List.filterMap_append, comments_tiles]
      refine List.Sublist.append ?_ hsublist
      cases op.looks s.lexer <;> cases op.moves s.lexer <;> simp
    · rw [tilesOf, List.filterMap_append, List.count_append, List.count_append, glances,
        count_apply h.inside_eq, hcount x]
      exact Nat.add_add_add_comm _ _ _ _

/-- A run of operations that reads a text to its end, in which readers are called where
they should be, leads over the whole text. Each comment that it passes over is handed over,
in the order of the text, and once more for each time that the run looked over the comment
and came back. What it looked over and did not pass over comes by those looks alone. -/
theorem comments_of_run (source : SourceId) (text : String) (log : Log) (ops : List Operation)
    (hfits : (Session.new source text log).Throughout
      (fun l op => op.Fits l ∧ op.QuoteFits text.toList l) (ops.map .perform))
    (hend : (trace ops (Lexer.new source text log)).2.token = .endOfText) :
    let l := Lexer.new source text log
    let tiles := tilesOf ops l
    let passed := tiles.filterMap (Tile.comment? source)
    let received := (trace ops l).2.comments.toList
    Covers l.cursor tiles ⟨byteSize text.toList, [], 0⟩ ∧
      passed.Pairwise (fun a b => a.span.stop ≤ b.span.start) ∧ passed.Sublist received ∧
      (∀ x ∈ passed, received.count x = 1 + glances x ops l) ∧
      ∀ x, x ∉ passed → received.count x = glances x ops l := by
  intro l tiles passed received
  have hstart : Tracked text.toList l :=
    ⟨placed_new source text log True, fun hinvalid => by cases hinvalid⟩
  obtain ⟨hcovers, hlast⟩ := covers_trace (Session.new source text log) hstart ops hfits
  obtain ⟨heard, hreceived, hsublist, hcount⟩ :=
    comments_trace (Session.new source text log) hstart ops hfits
  have hreceived : received = heard := hreceived
  have hstop : (trace ops l).2.cursor = ⟨byteSize text.toList, [], 0⟩ := by
    obtain ⟨part, hpart⟩ := hcovers.reaches
    have hstop := hpart.eq_of_rest_eq (hlast.atEnd hend)
    have hpos := hlast.placed.cursor.endPos_eq
    rw [hstop] at hpos
    exact hstop.trans (congrArg (Cursor.mk · [] 0) hpos)
  have hcovers : Covers l.cursor tiles ⟨byteSize text.toList, [], 0⟩ := hstop ▸ hcovers
  have hnodup : passed.Nodup := hcovers.nodup_comment? source
  refine ⟨hcovers, (hcovers.pairwise_comment? source).imp And.right, ?_, fun x hx => ?_,
    fun x hx => ?_⟩
  · rw [hreceived]
    exact hsublist
  · rw [hreceived, hcount x]
    exact congrArg (· + _) (hnodup.count.trans (if_pos hx))
  · rw [hreceived, hcount x]
    exact (congrArg (· + _) (List.count_eq_zero.mpr hx)).trans (Nat.zero_add _)

theorem comments_of_run_looked_ahead :
    let l := Lexer.new 0 "/* é */x // d" .empty
    let ops : List Operation := [.peek true .alwaysIdentifier 3, .skip .string .standard,
      .next .standard, .identifier, .peek false .standard 1, .skip .endOfText .standard]
    let block : Comment := ⟨.block, "/* é */", ⟨0, 0, 8⟩⟩
    let line : Comment := ⟨.line, "// d", ⟨0, 10, 14⟩⟩
    (tilesOf ops l).filterMap (Tile.comment? 0) = [block, line] ∧
      (trace ops l).2.comments.toList.count block = 3 ∧
      (trace ops l).2.comments.toList.count line = 1 := by
  intro l ops block line
  have hpassed : (tilesOf ops l).filterMap (Tile.comment? 0) = [block, line] := by
    decide +kernel
  obtain ⟨-, -, -, hcount, -⟩ := comments_of_run 0 "/* é */x // d" .empty ops (by decide +kernel)
    (by decide +kernel)
  have hblock := hcount block (by rw [hpassed]; simp)
  have hline := hcount line (by rw [hpassed]; simp)
  rw [show glances block ops l = 2 by decide +kernel] at hblock
  rw [show glances line ops l = 0 by decide +kernel] at hline
  exact ⟨hpassed, hblock, hline⟩

/-- A peek and the step to the token that it has found hand over the same comment. -/
theorem comments_repeated :
    let last := (trace [.peek false .standard noLimit, .next .standard, .identifier,
      .next .standard] (Lexer.new 0 "/* c */x" .empty)).2
    last.token = .endOfText ∧
      last.comments.toList = [⟨.block, "/* c */", ⟨0, 0, 7⟩⟩, ⟨.block, "/* c */", ⟨0, 0, 7⟩⟩] := by
  decide +kernel

end TypedScript.Lexer
