import TypedScript.Proofs.Lexer.Advance

/-! # Runs come to an end

Each token before the end of the text takes a byte at least, and so does each round of a
scan. With templates read segment by segment a segment that is resumed may be empty, but
then its template is finished. The number of templates that are not finished is
therefore counted with the items: the brackets of an interpolation pay for both.
-/

namespace TypedScript.Lexer

open Text Diagnostic

variable {l : Lexer} {choice : Nat → Choice}

theorem token_readCurrent (l : Lexer) (choice : Choice) :
    (l.readCurrent choice).2.token = l.token := by
  obtain ⟨handling, tagged, checked⟩ := choice
  unfold readCurrent
  split
  · rfl
  · rfl
  · rfl
  · cases checked <;> rfl
  · cases checked <;> rfl
  · rfl

theorem reaches_readNext (hl : l.cursor.inside = 0) (choice : Choice) :
    l.cursor.Reaches (l.readNext choice).2.cursor := by
  by_cases hend : (l.readNext choice).1.token = .endOfText
  · exact (advances_of_endOfText l choice hl hend).1.covers.reaches
  · exact (advances_of_ne_endOfText l choice hl hend).covers.reaches

theorem reaches_afterTokens (hl : l.cursor.inside = 0) (choice : Nat → Choice) (n : Nat) :
    l.cursor.Reaches (l.afterTokens choice n).cursor := by
  induction n with
  | zero => exact .refl hl
  | succ n ih => exact ih.trans (reaches_readNext ih.inside_eq (choice n))

theorem pos_lt_readNext (hl : l.cursor.inside = 0) (choice : Choice)
    (hend : (l.readNext choice).1.token ≠ .endOfText) : l.pos < (l.readNext choice).2.pos := by
  have hle := (advances_of_ne_endOfText l choice hl hend).covers.length_le
  rw [List.length_append, List.length_singleton] at hle
  change l.cursor.pos < (l.readNext choice).2.cursor.pos
  omega

theorem length_skipped_le {c : Cursor} (hc : c.inside = 0) (handling : WordHandling) (limit : Nat) :
    let s := scan handling limit c
    c.pos + s.skipped.length ≤ s.start.pos ∧ c.Reaches s.start ∧ s.start.Reaches s.stop := by
  have hcovers := covers_scan handling limit hc
  have hstart := hcovers.reaches
  have hle := hcovers.length_le
  rw [List.length_map] at hle
  refine ⟨hle, hstart, ?_⟩
  rcases found_scan handling limit hc with ⟨-, -, hstop⟩ | hfound
  · rw [hstop]
    exact .refl hstart.inside_eq
  · exact hfound.reaches hstart.inside_eq

def Item.isEnd : Item → Bool
  | .lexeme x => x.token = .endOfText
  | .segment .. => false

/-- A segment whose body begins at the edge of a character is passed over. If an
interpolation follows, the brackets that open it make up for the template that is left to
finish. -/
theorem length_resume_add_le (outer : List Pending) (reader : Template) {l : Lexer} (body : Cursor)
    (hbody : (readQuoted (if reader.started then some backtick else none) reader.tagged
      l.cursor).value.start = body) (hinside : body.inside = 0)
    (hquote : (if reader.started then some backtick else none).getD l.cursor.byte < 0x80) :
    body.Reaches (reader.takeSegment l).2.2.cursor ∧
      (Nested.resume outer (reader.takeSegment l).2.1).length + body.pos ≤
        outer.length + (reader.takeSegment l).2.2.pos := by
  subst hbody
  have hreaches := (beginsAt_readQuoted _ reader.tagged hinside hquote).reaches
  refine ⟨hreaches, ?_⟩
  have hle := hreaches.pos_le
  unfold Nested.resume
  split
  · exact Nat.add_le_add_left hle _
  · rename_i hfinished
    have htwo := pos_add_two_le_readQuoted _ reader.tagged hinside hquote
      (by simpa [Template.takeSegment, takeString, take] using hfinished)
    change _ ≤ (reader.takeSegment l).2.2.pos at htwo
    rw [List.length_cons]
    omega

namespace Nested

variable {s next : Nested} {more : List Item}

theorem started_of_mem_resume {outer : List Pending} {reader : Template} {l : Lexer}
    (houter : ∀ p ∈ outer, p.reader.started = true) :
    ∀ p ∈ resume outer (reader.takeSegment l).2.1, p.reader.started = true := by
  intro p hp
  unfold resume at hp
  split at hp
  · exact houter p hp
  · rcases List.mem_cons.mp hp with rfl | hp
    · rfl
    · exact houter p hp

/-- One token before the end of the text brings `more` and leads from `s` to `next`. -/
structure Step (s : Nested) (more : List Item) (next : Nested) : Prop where
  reaches : s.lexer.cursor.Reaches next.lexer.cursor
  started : ∀ p ∈ next.pending, p.reader.started = true
  length_le : more.length + next.pending.length + s.lexer.pos ≤ s.pending.length + next.lexer.pos
  ne_nil : more ≠ []
  isEnd_eq : ∀ item ∈ more, item.isEnd = false

theorem step_template {l : Lexer} (hreach : s.lexer.cursor.Reaches l.cursor)
    (hchar : l.cursor.char? = some '\x60') (tagged : Bool) {x : Lexeme}
    (hx : x.token ≠ .endOfText) (hstarted : ∀ p ∈ s.pending, p.reader.started = true) :
    Step s [.lexeme x] ⟨((Template.new tagged).takeSegment l).2.2,
      resume s.pending ((Template.new tagged).takeSegment l).2.1⟩ := by
  have hquote := Cursor.passes_advance_one hchar rfl
  obtain ⟨hbody, hle⟩ := length_resume_add_le s.pending (Template.new tagged)
    (l.cursor.advance 1) rfl hquote.inside_eq' (Cursor.byte_lt_of_utf8Size_eq_one hchar rfl)
  have hlt := hquote.pos_lt (by simp)
  have hskip : s.lexer.pos ≤ l.cursor.pos := hreach.pos_le
  refine ⟨hreach.trans (hquote.reaches.trans hbody), started_of_mem_resume hstarted, ?_, by simp,
    by simpa [Item.isEnd] using hx⟩
  -- The quote pays for the lexeme, and the body for a template that is left to finish.
  rw [List.length_singleton]
  dsimp only
  omega

theorem step_resumed {l : Lexer} {reader : Template} {depth : Nat} {outer : List Pending}
    {segment : Segment} {stop : Nat} (hreach : s.lexer.cursor.Reaches l.cursor)
    (hlt : s.lexer.pos < l.pos) {x : Lexeme} (hx : x.token ≠ .endOfText)
    (hpending : s.pending = ⟨reader, depth⟩ :: outer)
    (hstarted : ∀ p ∈ s.pending, p.reader.started = true) :
    Step s [.lexeme x, .segment segment l.pos stop]
      ⟨(reader.takeSegment l).2.2, resume outer (reader.takeSegment l).2.1⟩ := by
  rw [hpending] at hstarted
  obtain ⟨hreader, houter⟩ := List.forall_mem_cons.mp hstarted
  obtain ⟨hbody, hle⟩ := length_resume_add_le outer reader l.cursor (by rw [if_pos hreader]; rfl)
    hreach.inside_eq (by rw [if_pos hreader]; exact (by decide : backtick < 0x80))
  refine ⟨hreach.trans hbody, started_of_mem_resume houter, ?_, by simp,
    by simpa [Item.isEnd] using hx⟩
  -- The brace pays for its lexeme, and the template that was pending for the segment.
  rw [hpending, List.length_cons, List.length_singleton, List.length_cons]
  change _ + l.pos ≤ _ at hle
  dsimp only
  omega

theorem step_lexeme {after : Lexer} {pending : List Pending}
    (hreach : s.lexer.cursor.Reaches after.cursor) (hlt : s.lexer.pos < after.pos) {x : Lexeme}
    (hx : x.token ≠ .endOfText) (hlength : pending.length = s.pending.length)
    (hstarted : ∀ p ∈ pending, p.reader.started = true) :
    Step s [.lexeme x] ⟨after, pending⟩ := by
  refine ⟨hreach, hstarted, ?_, by simp, by simpa [Item.isEnd] using hx⟩
  rw [List.length_singleton, hlength]
  dsimp only
  omega

theorem step_readNext (choice : Choice) (hs : s.lexer.cursor.inside = 0)
    (hend : (s.lexer.next choice.handling).2.token ≠ .endOfText)
    (hstarted : ∀ p ∈ s.pending, p.reader.started = true) :
    Step s (s.readNext choice).1 (s.readNext choice).2 := by
  have hskip := (covers_scan choice.handling noLimit hs).reaches
  have hfound : Found (scan choice.handling noLimit s.lexer.cursor).start
      (s.lexer.next choice.handling).2.token (s.lexer.next choice.handling).2.cursor := by
    rcases found_scan choice.handling noLimit hs with ⟨htoken, -, -⟩ | hfound
    · exact absurd htoken hend
    · exact hfound
  have hreach := hskip.trans (hfound.reaches hskip.inside_eq)
  obtain ⟨hreads, hlt⟩ := reads_readCurrent choice hskip.inside_eq hfound
  have hlt := Nat.lt_of_le_of_lt hskip.pos_le hlt
  unfold readNext
  simp only
  generalize (s.lexer.next choice.handling).2 = l at *
  -- No reader is called behind a brace.
  have hbrace : ∀ mark, l.token = .punctuator mark → s.lexer.pos < l.pos := fun mark hmark => by
    rwa [readCurrent, hmark] at hlt
  split
  · rename_i htoken
    rw [htoken] at hfound
    exact step_template hreach hfound.char?_of_template choice.tagged hend hstarted
  · rename_i reader outer htoken hpending
    exact step_resumed hreach (hbrace _ htoken) hend hpending hstarted
  · rename_i reader depth outer htoken hpending
    obtain ⟨hreader, houter⟩ := List.forall_mem_cons.mp (hpending ▸ hstarted)
    exact step_lexeme hreach (hbrace _ htoken) hend (by rw [hpending]; rfl)
      (List.forall_mem_cons.mpr ⟨hreader, houter⟩)
  · rename_i reader depth outer htoken hpending
    obtain ⟨hreader, houter⟩ := List.forall_mem_cons.mp (hpending ▸ hstarted)
    exact step_lexeme hreach (hbrace _ htoken) hend (by rw [hpending]; rfl)
      (List.forall_mem_cons.mpr ⟨hreader, houter⟩)
  · exact step_lexeme (hreach.trans hreads.reaches) hlt hend rfl hstarted

/-- The state of a run that began at `start` and has brought the items. -/
structure Sound (start : Cursor) (items : List Item) (s : Nested) : Prop where
  reaches : start.Reaches s.lexer.cursor
  started : ∀ p ∈ s.pending, p.reader.started = true
  length_le : start.pos + items.length + s.pending.length ≤ s.lexer.pos
  isEnd_eq : ∀ item ∈ items, item.isEnd = false

theorem Sound.append {start : Cursor} {items : List Item} (h : Sound start items s)
    (hstep : Step s more next) : Sound start (items ++ more) next where
  reaches := h.reaches.trans hstep.reaches
  started := hstep.started
  length_le := by
    have hitems := h.length_le
    have hmore := hstep.length_le
    rw [List.length_append]
    omega
  isEnd_eq := List.forall_mem_append.mpr ⟨h.isEnd_eq, hstep.isEnd_eq⟩

def EndsAt (choice : Nat → Choice) (s : Nested) (n : Nat) : Prop :=
  ((s.run choice n).2.lexer.next (choice n).handling).2.token = .endOfText

theorem sound_run {choice : Nat → Choice} (hs : s.lexer.cursor.inside = 0)
    (hpending : s.pending = []) {n : Nat} (hn : ∀ k < n, ¬ EndsAt choice s k) :
    Sound s.lexer.cursor (s.run choice n).1 (s.run choice n).2 ∧
      n ≤ (s.run choice n).1.length := by
  induction n with
  | zero => exact ⟨⟨.refl hs, by simp [run, hpending], by simp [run, hpending, pos], by simp [run]⟩,
      Nat.zero_le _⟩
  | succ n ih =>
    obtain ⟨hsound, hlength⟩ := ih fun k hk => hn k (Nat.lt_succ_of_lt hk)
    have hstep := step_readNext (choice n) hsound.reaches.inside_eq (hn n (Nat.lt_succ_self n))
      hsound.started
    refine ⟨hsound.append hstep, ?_⟩
    have hmore := List.length_pos_iff.mpr hstep.ne_nil
    have hitems : (s.run choice (n + 1)).1 =
        (s.run choice n).1 ++ ((s.run choice n).2.readNext (choice n)).1 := rfl
    rw [hitems, List.length_append]
    omega

theorem readNext_of_endsAt {choice : Nat → Choice} {n : Nat} (h : EndsAt choice s n) :
    ∃ x, ((s.run choice n).2.readNext (choice n)).1 = [.lexeme x] ∧ x.token = .endOfText := by
  unfold EndsAt at h
  unfold readNext
  simp only
  rw [h]
  exact ⟨_, rfl, rfl⟩

/-- A run comes to the end of the text, and before it has a byte for each item. -/
theorem exists_endsAt (choice : Nat → Choice) (hs : s.lexer.cursor.inside = 0)
    (hpending : s.pending = []) :
    ∃ n, (EndsAt choice s n ∧ ∀ k < n, ¬ EndsAt choice s k) ∧
      (∀ item ∈ (s.run choice n).1, item.isEnd = false) ∧ n ≤ (s.run choice n).1.length ∧
      s.lexer.pos + (s.run choice n).1.length ≤ s.lexer.cursor.endPos := by
  classical
  have hbound : ∀ n, (∀ k < n, ¬ EndsAt choice s k) →
      s.lexer.pos + (s.run choice n).1.length ≤ s.lexer.cursor.endPos := by
    intro n hn
    obtain ⟨hsound, -⟩ := sound_run hs hpending hn
    have hlength := hsound.length_le
    have hend : (s.run choice n).2.lexer.pos ≤ _ := hsound.reaches.pos_le_endPos
    change s.lexer.cursor.pos + _ ≤ _
    omega
  have hex : ∃ n, EndsAt choice s n := by
    by_contra hnone
    have hn : ∀ k < s.lexer.cursor.endPos + 1, ¬ EndsAt choice s k := fun k _ hk => hnone ⟨k, hk⟩
    have hlength := (sound_run hs hpending hn).2
    have hle := hbound _ hn
    omega
  have hfirst : ∀ k < Nat.find hex, ¬ EndsAt choice s k := fun k hk => Nat.find_min hex hk
  obtain ⟨hsound, hlength⟩ := sound_run hs hpending hfirst
  exact ⟨Nat.find hex, ⟨Nat.find_spec hex, hfirst⟩, hsound.isEnd_eq, hlength, hbound _ hfirst⟩

theorem token_readNext (s : Nested) (choice : Choice) :
    (s.readNext choice).2.lexer.token = (s.lexer.next choice.handling).2.token := by
  unfold readNext
  simp only
  split
  · rfl
  · rfl
  · rfl
  · rfl
  · exact token_readCurrent _ choice

variable {choice : Choice} {n : Nat}

theorem run_succ' (s : Nested) (choice : Choice) (n : Nat) :
    s.run (fun _ => choice) (n + 1) =
      ((s.readNext choice).1 ++ ((s.readNext choice).2.run (fun _ => choice) n).1,
        ((s.readNext choice).2.run (fun _ => choice) n).2) := by
  induction n with
  | zero => simp [run]
  | succ n ih =>
    rw [run, ih]
    simp only [run, List.append_assoc]

theorem endsAt_succ_iff :
    EndsAt (fun _ => choice) s (n + 1) ↔ EndsAt (fun _ => choice) (s.readNext choice).2 n := by
  rw [EndsAt, run_succ']
  rfl

/-- With fuel for each token the loop is the run up to the first that ends the text. -/
theorem takeItems_eq_run {fuel : Nat} (hend : EndsAt (fun _ => choice) s n)
    (hfirst : ∀ k < n, ¬ EndsAt (fun _ => choice) s k) (hfuel : n < fuel) :
    takeItems choice fuel s = s.run (fun _ => choice) (n + 1) := by
  induction fuel generalizing s n with
  | zero => omega
  | succ fuel ih =>
    have htoken := token_readNext s choice
    rw [run_succ']
    cases n with
    | zero =>
      change (s.lexer.next choice.handling).2.token = .endOfText at hend
      simp only [takeItems, htoken, hend, if_true, run, List.append_nil]
    | succ n =>
      have hne : (s.lexer.next choice.handling).2.token ≠ .endOfText :=
        hfirst 0 (Nat.zero_lt_succ n)
      have hrest := ih (endsAt_succ_iff.mp hend)
        (fun k hk hends => hfirst (k + 1) (Nat.succ_lt_succ hk) (endsAt_succ_iff.mpr hends))
        (Nat.lt_of_succ_lt_succ hfuel)
      simp only [takeItems, htoken, hne, if_false, hrest]

end Nested

/-- The loop over a whole text is the run up to the end of the text. -/
theorem takeAll_eq_run (hl : l.cursor.inside = 0) (handling : WordHandling) (tagged : Bool) :
    let run := Nested.run (fun _ => ⟨handling, tagged, true⟩) ⟨l, []⟩
    ∃ n x, (l.takeAll handling tagged).1 = (run n).1 ++ [.lexeme x] ∧ x.token = .endOfText ∧
      (l.takeAll handling tagged).2 = (run (n + 1)).2.lexer ∧
      (∀ item ∈ (run n).1, item.isEnd = false) ∧
      l.pos + (run n).1.length ≤ l.cursor.endPos := by
  intro run
  obtain ⟨n, ⟨hend, hfirst⟩, hitems, hn, hlength⟩ :=
    Nested.exists_endsAt (s := ⟨l, []⟩) (fun _ => ⟨handling, tagged, true⟩) hl rfl
  obtain ⟨x, hx, htoken⟩ := Nested.readNext_of_endsAt hend
  have hfuel : n < l.cursor.distance + 1 := by
    have hsize := byteSize_le l.cursor.rest
    change l.cursor.pos + _ ≤ _ at hlength
    simp only [Cursor.endPos, Cursor.distance, hl] at hlength ⊢
    omega
  have hall : l.takeAll handling tagged = ((run (n + 1)).1, (run (n + 1)).2.lexer) := by
    rw [takeAll, Nested.takeItems_eq_run hend hfirst hfuel]
  refine ⟨n, x, ?_, htoken, by rw [hall], hitems, hlength⟩
  rw [hall]
  exact congrArg ((run n).1 ++ ·) hx

/-- Every token before the end of a text takes a byte at least together with its reader, and
every round of a scan takes one; both stop in the text. So the end is found after as many
tokens as there are bytes, or fewer, also where resumed segments of templates are counted
with the tokens. The loop over the whole text has fuel for all of them and stops there. -/
theorem run_ends_within_text (source : SourceId) (text : String) (log : Log)
    (choice : Nat → Choice) :
    let l := Lexer.new source text log
    let size := byteSize text.toList
    (∀ n, (l.lexemeAt choice n).token ≠ .endOfText →
      (l.afterTokens choice n).pos < (l.afterTokens choice (n + 1)).pos) ∧
    (∀ n, (l.afterTokens choice n).pos ≤ size) ∧
    (∀ n handling limit,
      let c := (l.afterTokens choice n).cursor
      c.pos + (scan handling limit c).skipped.length ≤ (scan handling limit c).stop.pos ∧
        (scan handling limit c).stop.pos ≤ size) ∧
    (∃ n ≤ size, (l.lexemeAt choice n).token = .endOfText) ∧
    (∃ n x,
      ((Nested.run choice ⟨l, []⟩ n).2.readNext (choice n)).1 = [.lexeme x] ∧
      x.token = .endOfText ∧
      (∀ item ∈ (Nested.run choice ⟨l, []⟩ n).1, item.isEnd = false) ∧
      (Nested.run choice ⟨l, []⟩ n).1.length ≤ size) ∧
    ∀ handling tagged,
      let run := Nested.run (fun _ => ⟨handling, tagged, true⟩) ⟨l, []⟩
      ∃ n x, (l.takeAll handling tagged).1 = (run n).1 ++ [.lexeme x] ∧ x.token = .endOfText ∧
        (l.takeAll handling tagged).2 = (run (n + 1)).2.lexer ∧
        (∀ item ∈ (run n).1, item.isEnd = false) ∧ (run n).1.length ≤ size := by
  intro l size
  obtain ⟨hl, hsize⟩ : l.cursor.inside = 0 ∧ l.cursor.endPos = size := endPos_new source text log
  have hreach := reaches_afterTokens hl choice
  refine ⟨fun n hend => pos_lt_readNext (hreach n).inside_eq (choice n) hend,
    fun n => hsize ▸ (hreach n).pos_le_endPos, fun n handling limit => ?_, ?_, ?_,
    fun handling tagged => ?_⟩
  · obtain ⟨hle, hstart, hstop⟩ := length_skipped_le (hreach n).inside_eq handling limit
    exact ⟨Nat.le_trans hle hstop.pos_le,
      hsize ▸ ((hreach n).trans (hstart.trans hstop)).pos_le_endPos⟩
  · obtain ⟨n, hend, hbefore⟩ := exists_endOfText choice hl
    have hle := pos_add_le_endPos hl hbefore
    exact ⟨n, hsize ▸ Nat.le_trans (Nat.le_add_left n l.pos) hle, hend⟩
  · obtain ⟨n, ⟨hend, -⟩, hitems, -, hlength⟩ :=
      Nested.exists_endsAt (s := ⟨l, []⟩) choice hl rfl
    obtain ⟨x, hx, htoken⟩ := Nested.readNext_of_endsAt hend
    exact ⟨n, x, hx, htoken, hitems,
      hsize ▸ Nat.le_trans (Nat.le_add_left _ l.pos) hlength⟩
  · obtain ⟨n, x, hitems, htoken, hlast, hends, hlength⟩ := takeAll_eq_run hl handling tagged
    exact ⟨n, x, hitems, htoken, hlast, hends,
      hsize ▸ Nat.le_trans (Nat.le_add_left _ l.pos) hlength⟩

end TypedScript.Lexer
