import TypedScript.Proofs.Lexer.Bounds
import TypedScript.Proofs.Lexer.Replay

/-! # Sessions stay in the text

A session is any row of operations on one lexer, in which marks are taken and gone back
to. Whatever the operations are, and wherever they are called, the places of the lexer
stay in the text and in order, and each message is about a stretch of the text. If readers
are called where what they read begins, all these places are edges of characters.
-/

namespace TypedScript.Lexer

open Text Diagnostic

inductive Action where
  | perform (op : Operation)
  | mark
  | reset (i : Nat)

def Action.Meets (P : Lexer → Operation → Prop) (l : Lexer) : Action → Prop
  | .perform op => P l op
  | .mark | .reset _ => True

instance (P : Lexer → Operation → Prop) [∀ l op, Decidable (P l op)] (l : Lexer) :
    (a : Action) → Decidable (a.Meets P l)
  | .perform op => inferInstanceAs (Decidable (P l op))
  | .mark | .reset _ => inferInstanceAs (Decidable True)

structure Session where
  lexer : Lexer
  marks : List Mark

namespace Session

def new (source : SourceId) (text : String) (log : Log) : Session :=
  ⟨.new source text log, []⟩

/-- A mark that was not taken is not gone back to. -/
def act (s : Session) : Action → Session
  | .perform op => { s with lexer := (op.apply s.lexer).2 }
  | .mark => { s with marks := s.marks ++ [s.lexer.mark] }
  | .reset i => { s with lexer := s.marks[i]?.elim s.lexer s.lexer.reset }

def run (s : Session) (actions : List Action) : Session :=
  actions.foldl act s

def messages (s : Session) : Action → List Message
  | .perform op => (op.reports s.lexer).map (·.message s.lexer.source)
  | .mark | .reset _ => []

def emitted (s : Session) : List Action → List Message
  | [] => []
  | a :: actions => s.messages a ++ (s.act a).emitted actions

def Throughout (P : Lexer → Operation → Prop) (s : Session) : List Action → Prop
  | [] => True
  | a :: actions => a.Meets P s.lexer ∧ (s.act a).Throughout P actions

def decidableThroughout (P : Lexer → Operation → Prop) [∀ l op, Decidable (P l op)] :
    (s : Session) → (actions : List Action) → Decidable (s.Throughout P actions)
  | _, [] => inferInstanceAs (Decidable True)
  | s, a :: actions =>
    have := decidableThroughout P (s.act a) actions
    inferInstanceAs (Decidable (a.Meets P s.lexer ∧ (s.act a).Throughout P actions))

instance (P : Lexer → Operation → Prop) [∀ l op, Decidable (P l op)] (s : Session)
    (actions : List Action) : Decidable (s.Throughout P actions) :=
  decidableThroughout P s actions

end Session

namespace Operation

/-- A reader is called where what it reads begins; a segment is resumed right behind a
brace. -/
def Fits (l : Lexer) : Operation → Prop
  | .identifier => l.cursor.char?.any isIdentifierStart = true
  | .escape _ => l.cursor.char? = some '\\'
  | .string none _ => l.cursor.char? ∈ [some '\x22', some '\x27', some '\x60']
  | .string (some quote) _ =>
    quote = backtick → l.token = .punctuator .closeBrace ∧ l.pos = l.tokenPos + 1
  | _ => True

/-- Any other quote that is given is of one byte, and so is the character in front of the
body. -/
def QuoteFits (text : List Char) (l : Lexer) : Operation → Prop
  | .string (some quote) _ => quote ≠ backtick → quote < 0x80 ∧ OnEdge text (l.pos - 1)
  | _ => True

instance (l : Lexer) : (op : Operation) → Decidable (op.Fits l)
  | .identifier => inferInstanceAs (Decidable (_ = true))
  | .escape _ => inferInstanceAs (Decidable (_ = some '\\'))
  | .string none _ => inferInstanceAs (Decidable (_ ∈ [_, _, _]))
  | .string (some _) _ => inferInstanceAs (Decidable (_ = backtick → _ ∧ _))
  | .next _ | .peek _ _ _ | .skip _ _ | .integer | .float | .pattern | .flags | .afterNumber =>
    inferInstanceAs (Decidable True)

instance (text : List Char) (l : Lexer) : (op : Operation) → Decidable (op.QuoteFits text l)
  | .string (some _) _ => inferInstanceAs (Decidable (_ ≠ backtick → _ ∧ OnEdge text _))
  | .string none _ | .identifier | .escape _ | .next _ | .peek _ _ _ | .skip _ _ | .integer
  | .float | .pattern | .flags | .afterNumber => inferInstanceAs (Decidable True)

end Operation

structure Placed (text : List Char) (whole : Prop) (l : Lexer) : Prop where
  cursor : l.cursor.Stands text whole
  tokenPos : InText text whole l.tokenPos
  tokenPos_le : l.tokenPos ≤ l.pos
  lookaheadPos : InText text whole l.lookaheadPos
  bodyStart : InText text whole l.bodyStart.pos
  bodyStop : InText text whole l.bodyStop
  body_le : l.bodyStart.pos ≤ l.bodyStop

structure Mark.Placed (text : List Char) (whole : Prop) (m : Mark) : Prop where
  cursor : m.cursor.Stands text whole
  tokenPos : InText text whole m.tokenPos
  tokenPos_le : m.tokenPos ≤ m.cursor.pos

variable {text : List Char} {whole : Prop} {l : Lexer}

theorem placed_new (source : SourceId) (text : String) (log : Log) (whole : Prop) :
    Placed text.toList whole (Lexer.new source text log) where
  cursor := by
    obtain ⟨hreaches, -⟩ := Cursor.reaches_skipPreamble (c := .start text.toList) rfl
    exact (Cursor.Onward.of_reaches (Cursor.stands_start _) hreaches).stands
  tokenPos := (OnEdge.zero _).inText
  tokenPos_le := Nat.zero_le _
  lookaheadPos := (OnEdge.zero _).inText
  bodyStart := (OnEdge.zero _).inText
  bodyStop := (OnEdge.zero _).inText
  body_le := Nat.le_refl _

namespace Placed

theorem mark (h : Placed text whole l) : l.mark.Placed text whole :=
  ⟨h.cursor, h.tokenPos, h.tokenPos_le⟩

theorem restore (h : Placed text whole l) {m : Mark} (hm : m.Placed text whole) :
    Placed text whole (l.restore m) :=
  ⟨hm.cursor, hm.tokenPos, hm.tokenPos_le, h.lookaheadPos, h.bodyStart, h.bodyStop, h.body_le⟩

theorem reset (h : Placed text whole l) {m : Mark} (hm : m.Placed text whole) :
    Placed text whole (l.reset m) :=
  ⟨hm.cursor, hm.tokenPos, hm.tokenPos_le, h.lookaheadPos, h.bodyStart, h.bodyStop, h.body_le⟩

theorem take (h : Placed text whole l) {α : Type} {r : Reading α}
    (hr : l.cursor.Onward text whole r.stop) : Placed text whole (l.take r).2 :=
  ⟨hr.stands, h.tokenPos, Nat.le_trans h.tokenPos_le hr.pos_le, h.lookaheadPos, h.bodyStart,
    h.bodyStop, h.body_le⟩

theorem scanNext (h : Placed text whole l) (handling : WordHandling) (limit : Nat) :
    Placed text whole (l.scanNext handling limit).2 := by
  obtain ⟨hstart, hstop, -⟩ := onward_scan handling limit h.cursor
  exact ⟨hstop.stands, hstart.stands.inText, hstop.pos_le, h.lookaheadPos, h.bodyStart, h.bodyStop,
    h.body_le⟩

theorem next (h : Placed text whole l) (handling : WordHandling) :
    Placed text whole (l.next handling).2 := by
  obtain ⟨hstart, hstop, -⟩ := onward_scan handling noLimit h.cursor
  exact ⟨hstop.stands, hstart.stands.inText, hstop.pos_le, h.lookaheadPos, h.bodyStart, h.bodyStop,
    h.body_le⟩

theorem peek (h : Placed text whole l) (noteNewLine : Bool) (handling : WordHandling)
    (limit : Nat) : Placed text whole (l.peek noteNewLine handling limit).2 := by
  cases hlook : l.lookahead with
  | some token =>
    simp only [Lexer.peek, hlook]
    exact h
  | none =>
    simp only [Lexer.peek, hlook]
    exact ⟨h.cursor, h.tokenPos, h.tokenPos_le, (h.scanNext handling limit).tokenPos, h.bodyStart,
      h.bodyStop, h.body_le⟩

theorem skip (h : Placed text whole l) (token : Token) (handling : WordHandling) :
    Placed text whole (l.skip token handling).2 := by
  have hscan := h.scanNext handling (limitFor token)
  by_cases hfound : (scan handling (limitFor token) l.cursor).token = token
  · rw [skip_of_token_eq hfound]
    exact ⟨hscan.cursor, hscan.tokenPos, hscan.tokenPos_le, h.lookaheadPos, h.bodyStart,
      h.bodyStop, h.body_le⟩
  · rw [skip_of_token_ne hfound]
    exact hscan.restore h.mark

theorem opens (h : Placed text whole l) (hwhole : whole) {quote? : Option UInt8} {tagged : Bool}
    (hfits : (Operation.string quote? tagged).Fits l)
    (hquote : (Operation.string quote? tagged).QuoteFits text l) :
    Opens text quote? l.cursor (readQuoted quote? tagged l.cursor).value.start := by
  have hinside := h.cursor.inside_eq hwhole
  cases quote? with
  | none =>
    obtain ⟨ch, hch, hone⟩ : ∃ ch, l.cursor.char? = some ch ∧ ch.utf8Size = 1 := by
      simp only [Operation.Fits, List.mem_cons, List.not_mem_nil, or_false] at hfits
      rcases hfits with hch | hch | hch
      · exact ⟨_, hch, rfl⟩
      · exact ⟨_, hch, rfl⟩
      · exact ⟨_, hch, rfl⟩
    have hstep := Cursor.passes_advance_one hch hone
    refine ⟨hstep.inside_eq', Cursor.byte_lt_of_utf8Size_eq_one hch hone, ?_⟩
    change OnEdge text ((l.cursor.advance 1).pos - 1)
    rw [hstep.pos_eq, byteSize_cons, hone, byteSize_nil, Nat.add_zero, Nat.add_sub_cancel]
    exact h.cursor.onEdge hinside
  | some quote =>
    by_cases hback : quote = backtick
    · obtain ⟨-, hpos⟩ := hfits hback
      subst hback
      refine ⟨hinside, (by decide : backtick < 0x80), ?_⟩
      change OnEdge text (l.pos - 1)
      rw [hpos, Nat.add_sub_cancel]
      exact h.tokenPos.onEdge hwhole
    · obtain ⟨hlt, hedge⟩ := hquote hback
      exact ⟨hinside, hlt, hedge⟩

theorem takeString (h : Placed text whole l) {quote? : Option UInt8} {tagged : Bool}
    (hopens : whole → Opens text quote? l.cursor (readQuoted quote? tagged l.cursor).value.start) :
    Placed text whole (l.takeString quote? tagged).2 := by
  obtain ⟨hkeeps, hstart, hstop, hle⟩ := keeps_readQuoted quote? tagged h.cursor hopens
  have htake := h.take hkeeps.onward
  exact ⟨htake.cursor, h.tokenPos, htake.tokenPos_le, h.lookaheadPos, hstart.stands.inText, hstop,
    hle⟩

/-- One operation leaves the lexer in the text, and what it reports lies there. -/
theorem apply (h : Placed text whole l) (op : Operation)
    (hfits : whole → op.Fits l ∧ op.QuoteFits text l) :
    Placed text whole (op.apply l).2 ∧ ∀ x ∈ op.reports l, x.Lies text whole := by
  cases op with
  | next handling =>
    obtain ⟨-, -, hlies⟩ := onward_scan handling noLimit h.cursor
    exact ⟨h.next handling, hlies⟩
  | peek noteNewLine handling limit =>
    obtain ⟨-, -, hlies⟩ := onward_scan handling limit h.cursor
    refine ⟨h.peek noteNewLine handling limit, fun x hx => ?_⟩
    simp only [Operation.reports] at hx
    split at hx
    · cases hx
    · exact hlies x hx
  | skip token handling =>
    obtain ⟨-, -, hlies⟩ := onward_scan handling (limitFor token) h.cursor
    exact ⟨h.skip token handling, hlies⟩
  | identifier =>
    have hskip := Cursor.onward_skipChar h.cursor
    have hword := hskip.trans (Cursor.onward_skipChars hskip.stands isIdentifierPart)
    exact ⟨h.take hword, by simp [Operation.reports]⟩
  | string quote? tagged =>
    have hopens := fun hwhole => h.opens hwhole (hfits hwhole).1 (hfits hwhole).2
    obtain ⟨hkeeps, -⟩ := keeps_readQuoted quote? tagged h.cursor hopens
    exact ⟨h.takeString hopens, hkeeps.lies⟩
  | escape tagged =>
    have hkeeps := keeps_readEscape tagged h.cursor fun hwhole => (hfits hwhole).1
    exact ⟨h.take hkeeps.onward, hkeeps.lies⟩
  | integer =>
    have hkeeps := keeps_readInteger h.cursor
    exact ⟨h.take hkeeps.onward, hkeeps.lies⟩
  | float =>
    have hkeeps := keeps_readFloat h.cursor
    exact ⟨h.take hkeeps.onward, hkeeps.lies⟩
  | pattern =>
    have hkeeps := keeps_readPattern h.cursor
    exact ⟨h.take hkeeps.onward, hkeeps.lies⟩
  | flags =>
    have hkeeps := keeps_readRegexpFlags h.cursor
    exact ⟨h.take hkeeps.onward, hkeeps.lies⟩
  | afterNumber =>
    exact ⟨⟨h.cursor, h.tokenPos, h.tokenPos_le, h.lookaheadPos, h.bodyStart, h.bodyStop,
      h.body_le⟩, lies_of_mem_wordAfterNumber h.cursor⟩

end Placed

namespace Session

variable {s : Session}

theorem log_act (s : Session) (a : Action) :
    (s.act a).lexer.log = s.lexer.log.pushAll (s.messages a) := by
  cases a with
  | perform op => exact op.log_apply s.lexer
  | mark => rfl
  | reset i => cases hm : s.marks[i]? <;> simp [act, hm, messages, Lexer.reset, Lexer.restore]

theorem source_act (s : Session) (a : Action) : (s.act a).lexer.source = s.lexer.source := by
  cases a with
  | perform op => exact op.source_apply s.lexer
  | mark => rfl
  | reset i => cases hm : s.marks[i]? <;> simp [act, hm, Lexer.reset, Lexer.restore]

theorem log_run (s : Session) (actions : List Action) :
    (s.run actions).lexer.log = s.lexer.log.pushAll (s.emitted actions) := by
  induction actions generalizing s with
  | nil => rfl
  | cons a actions ih =>
    rw [emitted, Log.pushAll_append, ← log_act]
    exact ih (s.act a)

structure Sound (text : List Char) (whole : Prop) (s : Session) : Prop where
  lexer : Placed text whole s.lexer
  marks : ∀ m ∈ s.marks, m.Placed text whole

def About (text : List Char) (whole : Prop) (source : SourceId) (m : Message) : Prop :=
  ∃ start stop, m.span = some ⟨source, start, stop⟩ ∧ start ≤ stop ∧
    InText text whole start ∧ InText text whole stop

theorem Sound.act (h : s.Sound text whole) {a : Action}
    (ha : whole → a.Meets (fun l op => op.Fits l ∧ op.QuoteFits text l) s.lexer) :
    (s.act a).Sound text whole ∧ ∀ m ∈ s.messages a, About text whole s.lexer.source m := by
  cases a with
  | perform op =>
    obtain ⟨hlexer, hlies⟩ := h.lexer.apply op ha
    refine ⟨⟨hlexer, h.marks⟩, ?_⟩
    intro m hm
    obtain ⟨x, hx, rfl⟩ := List.mem_map.mp hm
    exact ⟨x.start, x.stop, rfl, (hlies x hx).start_le, (hlies x hx).start, (hlies x hx).stop⟩
  | mark =>
    refine ⟨⟨h.lexer, ?_⟩, by simp [messages]⟩
    intro m hm
    rcases List.mem_append.mp hm with hm | hm
    · exact h.marks m hm
    · obtain rfl := List.mem_singleton.mp hm
      exact h.lexer.mark
  | reset i =>
    refine ⟨⟨?_, h.marks⟩, by simp [messages]⟩
    cases hm : s.marks[i]? with
    | none => simpa [Session.act, hm] using h.lexer
    | some m => simpa [Session.act, hm] using h.lexer.reset (h.marks m (List.mem_of_getElem? hm))

theorem Sound.run (h : s.Sound text whole) (actions : List Action)
    (hactions : whole → s.Throughout (fun l op => op.Fits l ∧ op.QuoteFits text l) actions) :
    (s.run actions).Sound text whole ∧
      ∀ m ∈ s.emitted actions, About text whole s.lexer.source m := by
  induction actions generalizing s with
  | nil => exact ⟨h, by simp [emitted]⟩
  | cons a actions ih =>
    obtain ⟨hnext, hfirst⟩ := h.act fun hwhole => (hactions hwhole).1
    obtain ⟨hlast, hrest⟩ := ih hnext fun hwhole => (hactions hwhole).2
    rw [source_act] at hrest
    exact ⟨hlast, List.forall_mem_append.mpr ⟨hfirst, hrest⟩⟩

/-- In every session the current token starts before the place of the lexer, the last
quoted body before its end, and nothing lies beyond the text; each message is about a
stretch of the text. If the readers are called where what they read begins, the places and
the ends of the stretches are edges of characters, so that there is text between them. -/
theorem places_of_run (source : SourceId) (text : String) (log : Log) (actions : List Action) :
    let start := Session.new source text log
    let l := (start.run actions).lexer
    let size := byteSize text.toList
    (l.cursor.endPos = size ∧ l.tokenPos ≤ l.pos ∧ l.pos ≤ size ∧ l.lookaheadPos ≤ size ∧
      l.bodyStart.pos ≤ l.bodyStop ∧ l.bodyStop ≤ size ∧
      l.log = log.pushAll (start.emitted actions) ∧
      ∀ m ∈ start.emitted actions, ∃ i j, m.span = some ⟨source, i, j⟩ ∧ i ≤ j ∧ j ≤ size) ∧
    (start.Throughout (fun l op => op.Fits l ∧ op.QuoteFits text.toList l) actions →
      (∀ n ∈ [l.pos, l.tokenPos, l.lookaheadPos, l.bodyStart.pos, l.bodyStop],
        OnEdge text.toList n) ∧
      (∀ m ∈ start.emitted actions, ∀ span, m.span = some span →
        OnEdge text.toList span.start ∧ OnEdge text.toList span.stop) ∧
      (∃ part, slice? text.toList l.tokenPos l.pos = some part) ∧
      ∃ part, slice? text.toList l.bodyStart.pos l.bodyStop = some part) := by
  intro start l size
  have hstart : start.Sound text.toList
      (start.Throughout (fun l op => op.Fits l ∧ op.QuoteFits text.toList l) actions) :=
    ⟨placed_new source text log _, by simp [start, Session.new]⟩
  obtain ⟨⟨hl, -⟩, habout⟩ := hstart.run actions id
  refine ⟨⟨hl.cursor.endPos_eq, hl.tokenPos_le, hl.cursor.inText.le_byteSize,
    hl.lookaheadPos.le_byteSize, hl.body_le, hl.bodyStop.le_byteSize, start.log_run actions, ?_⟩,
    ?_⟩
  · intro m hm
    obtain ⟨i, j, hspan, hle, -, hj⟩ := habout m hm
    exact ⟨i, j, hspan, hle, hj.le_byteSize⟩
  · intro hactions
    have hpos := hl.cursor.inText.onEdge hactions
    have htoken := hl.tokenPos.onEdge hactions
    have hbody := hl.bodyStart.onEdge hactions
    have hstop := hl.bodyStop.onEdge hactions
    refine ⟨?_, ?_, htoken.exists_slice? hpos hl.tokenPos_le, hbody.exists_slice? hstop hl.body_le⟩
    · simp only [List.forall_mem_cons, List.not_mem_nil, false_implies, implies_true, and_true]
      exact ⟨hpos, htoken, hl.lookaheadPos.onEdge hactions, hbody, hstop⟩
    · intro m hm span hspan
      obtain ⟨i, j, hij, -, hi, hj⟩ := habout m hm
      obtain rfl := Option.some.inj (hspan.symm.trans hij)
      exact ⟨hi.onEdge hactions, hj.onEdge hactions⟩

theorem places_of_run_resumed :
    let start := Session.new 0 "\x60é$\x7ba\x7dü" .empty
    let actions := [.perform (.next .standard), .perform (.string none true), .mark,
      .perform (.next .standard), .perform .identifier, .perform (.next .standard),
      .perform (.string (some backtick) true), .reset 0, .perform (.next .standard)]
    start.Throughout (fun l op => op.Fits l ∧ op.QuoteFits "\x60é$\x7ba\x7dü".toList l) actions ∧
      ∀ m ∈ start.emitted actions, ∀ span, m.span = some span →
        OnEdge "\x60é$\x7ba\x7dü".toList span.start ∧
          OnEdge "\x60é$\x7ba\x7dü".toList span.stop := by
  intro start actions
  have hactions : start.Throughout
      (fun l op => op.Fits l ∧ op.QuoteFits "\x60é$\x7ba\x7dü".toList l) actions := by
    decide +kernel
  obtain ⟨-, hedges⟩ := places_of_run 0 "\x60é$\x7ba\x7dü" .empty actions
  exact ⟨hactions, (hedges hactions).2.1⟩

/-- A body that is read up to a given quote is reported from the byte in front of it, and
this need not be the edge of a character. -/
theorem not_onEdge_of_given_quote :
    let start := Session.new 0 "é" .empty
    let actions := [.perform (.next .standard), .perform .identifier,
      .perform (.string (some 0x22) false)]
    start.Throughout (fun l op => op.Fits l) actions ∧
      start.emitted actions =
        [.create .unterminatedString .error [] (some ⟨0, 1, 2⟩) none] ∧
      ¬ OnEdge "é".toList 1 := by
  decide +kernel

end Session

end TypedScript.Lexer
