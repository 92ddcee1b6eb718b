import Mathlib.Data.Nat.Find
import TypedScript.Proofs.Diagnostic.Dedup
import TypedScript.Proofs.Lexer.Run
import TypedScript.Proofs.Lexer.Scanning
import TypedScript.Proofs.Text.Preamble

/-! # Steps and runs

Taking a token moves the lexer on over tiles: what the scan skips, and the lexeme. The
comments among them are recorded, and of the diagnostics the faults of the scan are
those of the tiles. At the end of the text the lexer stays there, and every run comes to
it, since each token before it takes a byte.
-/

namespace TypedScript.Lexer

open Text Diagnostic

@[simp] theorem log_record (l : Lexer) (reports : List Report) :
    (l.record reports).log = l.log.pushAll (reports.map (·.message l.source)) := by
  rw [Log.pushAll, List.foldl_map]
  rfl

@[simp] theorem log_take {α : Type} (l : Lexer) (r : Reading α) :
    (l.take r).2.log = l.log.pushAll (r.reports.map (·.message l.source)) :=
  l.log_record r.reports

def messagesOf (source : SourceId) (skipped : List Skipped) : List Message :=
  (skipped.filterMap Skipped.report?).map (·.message source)

@[simp] theorem log_scanNext (l : Lexer) (handling : WordHandling) (limit : Nat) :
    (l.scanNext handling limit).2.log =
      l.log.pushAll (messagesOf l.source (scan handling limit l.cursor).skipped) :=
  l.log_record _

@[simp] theorem log_next (l : Lexer) (handling : WordHandling) :
    (l.next handling).2.log =
      l.log.pushAll (messagesOf l.source (scan handling noLimit l.cursor).skipped) :=
  log_scanNext { l with lookahead := none } handling noLimit

theorem log_peek {l : Lexer} (h : l.lookahead = none) (noteNewLine : Bool)
    (handling : WordHandling) (limit : Nat) :
    (l.peek noteNewLine handling limit).2.log =
      l.log.pushAll (messagesOf l.source (scan handling limit l.cursor).skipped) := by
  rw [peek, h]
  exact log_scanNext l handling limit

theorem cursor_peek (l : Lexer) (noteNewLine : Bool) (handling : WordHandling) (limit : Nat) :
    (l.peek noteNewLine handling limit).2.cursor = l.cursor ∧
      (l.peek noteNewLine handling limit).2.token = l.token := by
  unfold peek
  split <;> exact ⟨rfl, rfl⟩

def limitFor (token : Token) : Nat :=
  if token = .punctuator .greater then 1 else noLimit

theorem skip_of_token_eq {l : Lexer} {token : Token} {handling : WordHandling}
    (h : (scan handling (limitFor token) l.cursor).token = token) :
    l.skip token handling =
      (true, { (l.scanNext handling (limitFor token)).2 with token, lookahead := none }) :=
  if_pos h

theorem skip_of_token_ne {l : Lexer} {token : Token} {handling : WordHandling}
    (h : (scan handling (limitFor token) l.cursor).token ≠ token) :
    l.skip token handling =
      (false, (l.scanNext handling (limitFor token)).2.restore l.mark) :=
  if_neg h

@[simp] theorem log_skip (l : Lexer) (token : Token) (handling : WordHandling) :
    (l.skip token handling).2.log =
      l.log.pushAll (messagesOf l.source (scan handling (limitFor token) l.cursor).skipped) := by
  by_cases h : (scan handling (limitFor token) l.cursor).token = token
  · rw [skip_of_token_eq h]
    exact log_scanNext l handling _
  · rw [skip_of_token_ne h]
    exact log_scanNext l handling _

theorem comments_scanNext (l : Lexer) (handling : WordHandling) (limit : Nat) :
    (l.scanNext handling limit).2.comments.toList = l.comments.toList ++
      (scan handling limit l.cursor).skipped.filterMap (Skipped.comment? l.source) := by
  change (List.foldl Array.push l.comments _).toList = _
  rw [List.foldl_push_eq_append', Array.toList_append]
  rfl

theorem comments_next (l : Lexer) (handling : WordHandling) :
    (l.next handling).2.comments.toList = l.comments.toList ++
      (scan handling noLimit l.cursor).skipped.filterMap (Skipped.comment? l.source) :=
  comments_scanNext { l with lookahead := none } handling noLimit

theorem filterMap_comment? (source : SourceId) (skipped : List Skipped) :
    (skipped.map Tile.skipped).filterMap (Tile.comment? source) =
      skipped.filterMap (Skipped.comment? source) := by
  rw [List.filterMap_map]
  refine congrArg (List.filterMap · skipped) (funext fun what => ?_)
  cases what <;> rfl

theorem filterMap_fault? (source : SourceId) (skipped : List Skipped) :
    (skipped.map Tile.skipped).filterMap (Tile.fault? source) = messagesOf source skipped := by
  rw [List.filterMap_map, messagesOf, List.map_filterMap]
  refine congrArg (List.filterMap · skipped) (funext fun what => ?_)
  cases what <;> rfl

theorem filterMap_lexeme? (skipped : List Skipped) :
    (skipped.map Tile.skipped).filterMap Tile.lexeme? = [] := by
  rw [List.filterMap_map]
  exact List.filterMap_eq_nil_iff.mpr fun what _ => rfl

theorem isOfScan_of_mem_messagesOf {source : SourceId} {skipped : List Skipped} :
    ∀ m ∈ messagesOf source skipped, m.code.isOfScan = true := by
  intro m hm
  obtain ⟨r, hr, rfl⟩ := List.mem_map.mp hm
  obtain ⟨what, -, hwhat⟩ := List.mem_filterMap.mp hr
  cases what <;> cases hwhat <;> rfl

theorem cursor_new (source : SourceId) (text : String) (log : Log) :
    ∃ preamble, text.toList = preamble ++ afterPreamble text.toList ∧
      (Lexer.new source text log).cursor =
        ⟨byteSize preamble, afterPreamble text.toList, 0⟩ := by
  obtain ⟨⟨preamble, hpart⟩, hrest⟩ :=
    Cursor.reaches_skipPreamble (c := .start text.toList) rfl
  refine ⟨preamble, hrest ▸ hpart.rest_eq, ?_⟩
  have hcursor := hpart.eq_of_rest_eq hrest
  rwa [Cursor.start, Nat.zero_add] at hcursor

theorem endPos_new (source : SourceId) (text : String) (log : Log) :
    (Lexer.new source text log).cursor.inside = 0 ∧
      (Lexer.new source text log).cursor.endPos = byteSize text.toList := by
  obtain ⟨preamble, htext, hcursor⟩ := cursor_new source text log
  rw [hcursor, Cursor.endPos, Nat.sub_zero, ← byteSize_append, ← htext]
  exact ⟨rfl, rfl⟩

/-- The reader has moved ahead and has left all but the value, its reports and the last
quoted body as it was. -/
structure Reads (l after : Lexer) : Prop where
  source_eq : after.source = l.source
  comments_eq : after.comments = l.comments
  reaches : l.cursor.Reaches after.cursor
  log_eq : ∃ ms, after.log = l.log.pushAll ms ∧ ∀ m ∈ ms, m.code.isOfScan = false

theorem Reads.refl {l : Lexer} (hl : l.cursor.inside = 0) : Reads l l :=
  ⟨rfl, rfl, .refl hl, [], rfl, by simp⟩

theorem Reads.trans {l k after : Lexer} (h : Reads l k) (h' : Reads k after) :
    Reads l after where
  source_eq := h'.source_eq.trans h.source_eq
  comments_eq := h'.comments_eq.trans h.comments_eq
  reaches := h.reaches.trans h'.reaches
  log_eq := by
    obtain ⟨ms, hlog, hms⟩ := h.log_eq
    obtain ⟨ns, hlog', hns⟩ := h'.log_eq
    exact ⟨ms ++ ns, by rw [hlog', hlog, Log.pushAll_append],
      List.forall_mem_append.mpr ⟨hms, hns⟩⟩

theorem reads_take {α : Type} {l : Lexer} {r : Reading α} (h : r.BeginsAt l.cursor) :
    Reads l (l.take r).2 where
  source_eq := rfl
  comments_eq := rfl
  reaches := h.reaches
  log_eq := by
    refine ⟨_, l.log_take r, fun m hm => ?_⟩
    obtain ⟨x, hx, rfl⟩ := List.mem_map.mp hm
    exact h.code x hx

theorem reads_takeString {l : Lexer} {quote? : Option UInt8} {tagged : Bool}
    (h : (readQuoted quote? tagged l.cursor).BeginsAt l.cursor) :
    Reads l (l.takeString quote? tagged).2 :=
  let taken := reads_take h
  ⟨taken.source_eq, taken.comments_eq, taken.reaches, taken.log_eq⟩

theorem reads_takeIdentifier {l : Lexer} {ch : Char} (h : l.cursor.char? = some ch) :
    Reads l l.takeIdentifier.2 :=
  reads_take ⟨(reaches_skipWord h).1, by simp⟩

theorem cursor_leaveNumber (l : Lexer) (checked : Bool) :
    (l.leaveNumber checked).cursor = l.cursor := by
  cases checked <;> rfl

theorem reads_leaveNumber {l : Lexer} (hl : l.cursor.inside = 0) (checked : Bool) :
    Reads l (l.leaveNumber checked) := by
  cases checked with
  | false => exact .refl hl
  | true =>
    refine ⟨rfl, rfl, .refl hl, _, l.log_record _, fun m hm => ?_⟩
    obtain ⟨x, hx, rfl⟩ := List.mem_map.mp hm
    unfold wordAfterNumber at hx
    split at hx
    · rw [List.mem_singleton.mp hx]
      rfl
    · cases hx

theorem reads_number {l after : Lexer} {start : Cursor} (checked : Bool) (h : Reads l after)
    (hlt : start.pos < after.pos) :
    Reads l (after.leaveNumber checked) ∧ start.pos < (after.leaveNumber checked).pos := by
  refine ⟨h.trans (reads_leaveNumber h.reaches.inside_eq checked), ?_⟩
  rw [pos, cursor_leaveNumber]
  exact hlt

/-- The reader of a token goes on from where the scan has stopped, and leads past the start
of the token. -/
theorem reads_readCurrent (choice : Choice) {l : Lexer} {start : Cursor}
    (hstart : start.inside = 0) (h : Found start l.token l.cursor) :
    Reads l (l.readCurrent choice).2 ∧ start.pos < (l.readCurrent choice).2.pos := by
  -- The token and the place of the lexer are named, so that the cases can fix them.
  obtain ⟨token, htoken⟩ : ∃ token, l.token = token := ⟨_, rfl⟩
  obtain ⟨place, hplace⟩ : ∃ place, l.cursor = place := ⟨_, rfl⟩
  rw [htoken, hplace] at h
  simp only [readCurrent, htoken]
  cases h with
  | identifier hch hword =>
    rw [← hplace] at hch ⊢
    exact ⟨reads_takeIdentifier hch, (reaches_skipWord hch).2⟩
  | string hch hquote =>
    rw [← hplace] at hch ⊢
    obtain ⟨hbegins, hlt⟩ :=
      beginsAt_readQuoted_none choice.tagged hch (by rcases hquote with rfl | rfl <;> rfl)
    exact ⟨reads_takeString hbegins, hlt⟩
  | template hch =>
    rw [← hplace] at hch ⊢
    obtain ⟨hbegins, hlt⟩ := beginsAt_readQuoted_none choice.tagged hch rfl
    exact ⟨reads_takeString hbegins, hlt⟩
  | integer hch hdigit =>
    rw [← hplace] at hch hstart ⊢
    exact reads_number choice.checked (reads_take (beginsAt_readInteger hstart))
      (pos_lt_readInteger hch hdigit)
  | float hch hdigit =>
    rw [← hplace] at hch hstart ⊢
    exact reads_number choice.checked (reads_take (beginsAt_readFloat hstart))
      (pos_lt_readFloat hch hdigit)
  | keyword hreach hlt =>
    rw [← hplace] at hreach hlt
    exact ⟨.refl hreach.inside_eq, hlt⟩
  | punctuator hreach hlt =>
    rw [← hplace] at hreach hlt
    exact ⟨.refl hreach.inside_eq, hlt⟩

/-- The lexer has moved from `l` to `after` over the tiles, and has recorded what they
bring. -/
structure Advances (l : Lexer) (tiles : List Tile) (after : Lexer) : Prop where
  source_eq : after.source = l.source
  covers : Covers l.cursor tiles after.cursor
  comments_eq :
    after.comments.toList = l.comments.toList ++ tiles.filterMap (Tile.comment? l.source)
  log_eq : ∃ ms, after.log = l.log.pushAll ms ∧
    ms.filter (·.code.isOfScan) = tiles.filterMap (Tile.fault? l.source)

namespace Advances

variable {l m n : Lexer} {tiles more : List Tile}

theorem refl (hl : l.cursor.inside = 0) : Advances l [] l :=
  ⟨rfl, .nil hl, by simp, [], rfl, rfl⟩

theorem trans (h : Advances l tiles m) (h' : Advances m more n) :
    Advances l (tiles ++ more) n where
  source_eq := h'.source_eq.trans h.source_eq
  covers := h.covers.append h'.covers
  comments_eq := by
    rw [h'.comments_eq, h.comments_eq, h.source_eq, List.filterMap_append, List.append_assoc]
  log_eq := by
    obtain ⟨ms, hlog, hms⟩ := h.log_eq
    obtain ⟨ns, hlog', hns⟩ := h'.log_eq
    refine ⟨ms ++ ns, by rw [hlog', hlog, Log.pushAll_append], ?_⟩
    rw [List.filter_append, hms, hns, h.source_eq, List.filterMap_append]

end Advances

theorem filter_messagesOf (source : SourceId) (skipped : List Skipped) :
    (messagesOf source skipped).filter (·.code.isOfScan) =
      (skipped.map Tile.skipped).filterMap (Tile.fault? source) := by
  rw [filterMap_fault?]
  exact List.filter_eq_self.mpr isOfScan_of_mem_messagesOf

theorem filterMap_lexemes {α : Type} {f : Tile → Option α} (hf : ∀ x, f (.lexeme x) = none)
    (lexemes : List Lexeme) : (lexemes.map Tile.lexeme).filterMap f = [] := by
  rw [List.filterMap_map]
  exact List.filterMap_eq_nil_iff.mpr fun x _ => hf x

theorem advances_of_reads {l after : Lexer} (handling : WordHandling) (hl : l.cursor.inside = 0)
    (lexemes : List Lexeme) (hafter : Reads (l.next handling).2 after)
    (hcovers : Covers (scan handling noLimit l.cursor).start (lexemes.map .lexeme) after.cursor) :
    Advances l ((scan handling noLimit l.cursor).skipped.map .skipped ++ lexemes.map .lexeme)
      after where
  source_eq := hafter.source_eq
  covers := (covers_scan handling noLimit hl).append hcovers
  comments_eq := by
    rw [hafter.comments_eq, comments_next, List.filterMap_append, filterMap_comment?,
      filterMap_lexemes fun _ => rfl, List.append_nil]
  log_eq := by
    obtain ⟨ms, hlog, hms⟩ := hafter.log_eq
    refine ⟨_ ++ ms, by rw [hlog, log_next, ← Log.pushAll_append], ?_⟩
    rw [List.filter_append, filter_messagesOf, List.filter_eq_nil_iff.mpr (by simpa using hms),
      List.filterMap_append, filterMap_lexemes fun _ => rfl]

theorem covers_lexeme {c d : Cursor} {x : Lexeme} (h : c.Reaches d) (hstart : x.start = c.pos)
    (hstop : x.stop = d.pos) (hlt : c.pos < d.pos)
    (hx : x.token ≠ .endOfText ∧ x.token ≠ .invalid) :
    Covers c [.lexeme x] d := by
  obtain ⟨part, hpart⟩ := h
  exact .cons hpart (hpart.ne_nil_of_pos_lt hlt) hstart hstop hx (.nil hpart.inside_eq')

/-- At the end of the text a token brings what is skipped in front of the end, and nothing
more. -/
theorem advances_of_endOfText (l : Lexer) (choice : Choice) (hl : l.cursor.inside = 0)
    (hend : (l.readNext choice).1.token = .endOfText) :
    Advances l ((scan choice.handling noLimit l.cursor).skipped.map .skipped)
        (l.readNext choice).2 ∧
      (l.readNext choice).2.cursor.rest = [] := by
  have htoken : (scan choice.handling noLimit l.cursor).token = .endOfText := hend
  have hstay : (l.readNext choice).2 = (l.next choice.handling).2 := by
    have htoken : (l.next choice.handling).2.token = .endOfText := hend
    simp only [readNext, readCurrent, htoken]
  rcases found_scan choice.handling noLimit hl with ⟨-, hrest, hstop⟩ | hfound
  · have hcursor : (l.next choice.handling).2.cursor =
        (scan choice.handling noLimit l.cursor).start := hstop
    have hinside := (covers_scan choice.handling noLimit hl).reaches.inside_eq
    have hadv := advances_of_reads choice.handling hl [] (.refl (hcursor ▸ hinside))
      (by rw [hcursor]; exact .nil hinside)
    rw [hstay]
    exact ⟨by simpa using hadv, hcursor ▸ hrest⟩
  · exact absurd htoken hfound.ne.1

theorem advances_of_ne_endOfText (l : Lexer) (choice : Choice) (hl : l.cursor.inside = 0)
    (hend : (l.readNext choice).1.token ≠ .endOfText) :
    Advances l ((scan choice.handling noLimit l.cursor).skipped.map .skipped ++
      [.lexeme (l.readNext choice).1]) (l.readNext choice).2 := by
  have hinside := (covers_scan choice.handling noLimit hl).reaches.inside_eq
  rcases found_scan choice.handling noLimit hl with ⟨htoken, -, -⟩ | hfound
  · exact absurd htoken hend
  · obtain ⟨hreads, hlt⟩ := reads_readCurrent choice (l := (l.next choice.handling).2)
      hinside hfound
    exact advances_of_reads choice.handling hl [(l.readNext choice).1] hreads
      (covers_lexeme ((hfound.reaches hinside).trans hreads.reaches) rfl rfl hlt hfound.ne)

variable {l : Lexer} {choice : Nat → Choice} {n : Nat}

theorem advances_afterTokens (hl : l.cursor.inside = 0)
    (hn : ∀ k < n, (l.lexemeAt choice k).token ≠ .endOfText) :
    ∃ tiles, Advances l tiles (l.afterTokens choice n) ∧
      tiles.filterMap Tile.lexeme? = (List.range n).map (l.lexemeAt choice) := by
  induction n with
  | zero => exact ⟨[], .refl hl, rfl⟩
  | succ n ih =>
    obtain ⟨tiles, hadv, htiles⟩ := ih fun k hk => hn k (Nat.lt_succ_of_lt hk)
    have hstep := advances_of_ne_endOfText (l.afterTokens choice n) (choice n)
      hadv.covers.reaches.inside_eq (hn n (Nat.lt_succ_self n))
    refine ⟨_, hadv.trans hstep, ?_⟩
    rw [List.filterMap_append, htiles, List.filterMap_append, filterMap_lexeme?, List.range_succ,
      List.map_append]
    rfl

/-- Before the end of the text there is a byte for each token. -/
theorem pos_add_le_endPos (hl : l.cursor.inside = 0)
    (hn : ∀ k < n, (l.lexemeAt choice k).token ≠ .endOfText) : l.pos + n ≤ l.cursor.endPos := by
  obtain ⟨tiles, hadv, htiles⟩ := advances_afterTokens hl hn
  have hlength : n ≤ tiles.length := by
    have hcount := List.length_filterMap_le Tile.lexeme? tiles
    rwa [htiles, List.length_map, List.length_range] at hcount
  have hle := hadv.covers.length_le
  have hend := hadv.covers.reaches.pos_le_endPos
  change l.cursor.pos + n ≤ _
  omega

theorem exists_endOfText (choice : Nat → Choice) (hl : l.cursor.inside = 0) :
    ∃ n, (l.lexemeAt choice n).token = .endOfText ∧
      ∀ k < n, (l.lexemeAt choice k).token ≠ .endOfText := by
  have hex : ∃ n, (l.lexemeAt choice n).token = .endOfText := by
    by_contra hnone
    have hle : l.pos + (l.cursor.endPos + 1) ≤ l.cursor.endPos :=
      pos_add_le_endPos hl fun k _ hk => hnone ⟨k, hk⟩
    omega
  exact ⟨Nat.find hex, Nat.find_spec hex, fun k hk => Nat.find_min hex hk⟩

end TypedScript.Lexer
