import TypedScript.Proofs.Lexer.Session

/-! # Operations lay tiles

An operation that moves the lexer leads it over tiles: what the scan skips and the token
that it passes over, or what a reader reads. If readers are called where they should be,
the tiles of a run stand one behind the other. A run whose last token is the end of the
text stands there, so its tiles cover the text behind the preamble.
-/

namespace TypedScript.Lexer

open Text

variable {limit : Nat} {c d : Cursor} {handling : WordHandling} {text : List Char} {l : Lexer}

def stretch (token : Token) (c d : Cursor) : List Tile :=
  if c.pos = d.pos then [] else [.lexeme ⟨token, c.pos, d.pos, .none⟩]

def Scan.tiles (s : Scan) : List Tile :=
  s.skipped.map .skipped ++ stretch s.token s.start s.stop

/-- The tiles that the operation leads the lexer over. What a reader takes is a lexeme of the
kind that it reads; a pattern and its flags count for the sign that begins them. -/
def Operation.tiles (op : Operation) (l : Lexer) : List Tile :=
  let read (token : Token) := stretch token l.cursor (op.apply l).2.cursor
  match op with
  | .next handling => (scan handling noLimit l.cursor).tiles
  | .peek _ _ _ => []
  | .skip token handling =>
    if (l.skip token handling).1 then (scan handling (limitFor token) l.cursor).tiles else []
  | .identifier => read .identifier
  | .string _ _ | .escape _ => read .string
  | .integer => read .integer
  | .float => read .float
  | .pattern | .flags => read (.punctuator .divide)
  | .afterNumber => []

def tilesOf : List Operation → Lexer → List Tile
  | [], _ => []
  | op :: ops, l => op.tiles l ++ tilesOf ops (op.apply l).2

theorem covers_stretch {token : Token} (h : c.Reaches d)
    (htoken : c.pos < d.pos → token ≠ .endOfText ∧ token ≠ .invalid) :
    Covers c (stretch token c d) d := by
  obtain ⟨part, hpart⟩ := h
  unfold stretch
  split
  · rename_i hpos
    have hnil : part = [] := by
      by_contra hne
      have hlt := hpart.pos_lt hne
      omega
    subst hnil
    rw [hpart.eq_of_nil]
    exact .nil hpart.inside_eq
  · rename_i hpos
    have hlt : c.pos < d.pos := Nat.lt_of_le_of_ne hpart.pos_le hpos
    exact covers_lexeme hpart.reaches rfl rfl hlt (htoken hlt)

theorem covers_tiles_scan (handling : WordHandling) (limit : Nat) (hc : c.inside = 0) :
    Covers c (scan handling limit c).tiles (scan handling limit c).stop := by
  have hstart := covers_scan handling limit hc
  have hinside := hstart.reaches.inside_eq
  refine hstart.append ?_
  rcases found_scan handling limit hc with ⟨-, -, hstop⟩ | hfound
  · rw [hstop]
    exact covers_stretch (.refl hinside) fun hlt => absurd hlt (Nat.lt_irrefl _)
  · exact covers_stretch (hfound.reaches hinside) fun _ => hfound.ne

theorem rest_stop_of_endOfText (hc : c.inside = 0)
    (hend : (scan handling limit c).token = .endOfText) :
    (scan handling limit c).stop.rest = [] := by
  rcases found_scan handling limit hc with ⟨-, hrest, hstop⟩ | hfound
  · rw [hstop, hrest]
  · exact absurd hend hfound.ne.1

/-- The lexer stands on the edge of a character, and at the end of the text if that is its
token. -/
structure Tracked (text : List Char) (l : Lexer) : Prop where
  placed : Placed text True l
  atEnd : l.token = .endOfText → l.cursor.rest = []

theorem Tracked.inside_eq (h : Tracked text l) : l.cursor.inside = 0 :=
  h.placed.cursor.inside_eq trivial

theorem covers_apply (h : Tracked text l) (op : Operation)
    (hfits : op.Fits l ∧ op.QuoteFits text l) :
    Covers l.cursor (op.tiles l) (op.apply l).2.cursor := by
  have hc := h.placed.cursor
  have hread : ∀ {token : Token} {stop : Cursor}, l.cursor.Onward text True stop →
      token ≠ .endOfText ∧ token ≠ .invalid → Covers l.cursor (stretch token l.cursor stop) stop :=
    fun honward htoken => covers_stretch (honward.reaches hc) fun _ => htoken
  cases op with
  | next handling => exact covers_tiles_scan handling noLimit h.inside_eq
  | peek noteNewLine handling limit =>
    simp only [Operation.apply, Prod.map_snd, id_eq, cursor_peek]
    exact .nil h.inside_eq
  | skip token handling =>
    simp only [Operation.apply, Operation.tiles]
    by_cases hfound : (scan handling (limitFor token) l.cursor).token = token
    · rw [skip_of_token_eq hfound]
      exact covers_tiles_scan handling (limitFor token) h.inside_eq
    · rw [skip_of_token_ne hfound]
      exact .nil h.inside_eq
  | identifier =>
    have hskip := Cursor.onward_skipChar hc
    exact hread (hskip.trans (Cursor.onward_skipChars hskip.stands isIdentifierPart)) (by decide)
  | string quote? tagged =>
    have hopens := h.placed.opens trivial hfits.1 hfits.2
    exact hread (keeps_readQuoted quote? tagged hc fun _ => hopens).1.onward (by decide)
  | escape tagged => exact hread (keeps_readEscape tagged hc fun _ => hfits.1).onward (by decide)
  | integer => exact hread (keeps_readInteger hc).onward (by decide)
  | float => exact hread (keeps_readFloat hc).onward (by decide)
  | pattern => exact hread (keeps_readPattern hc).onward (by decide)
  | flags => exact hread (keeps_readRegexpFlags hc).onward (by decide)
  | afterNumber => exact .nil h.inside_eq

theorem Tracked.apply (h : Tracked text l) (op : Operation)
    (hfits : op.Fits l ∧ op.QuoteFits text l) : Tracked text (op.apply l).2 := by
  refine ⟨(h.placed.apply op fun _ => hfits).1, ?_⟩
  have hstay : l.token = .endOfText → (op.apply l).2.cursor.rest = [] := by
    intro hend
    obtain ⟨part, hpart⟩ := (covers_apply h op hfits).reaches
    exact (hpart.nil_of_rest_eq_nil (h.atEnd hend)).2
  cases op with
  | next handling => exact rest_stop_of_endOfText h.inside_eq
  | peek noteNewLine handling limit =>
    simp only [Operation.apply, Prod.map_snd, id_eq, cursor_peek]
    exact h.atEnd
  | skip token handling =>
    simp only [Operation.apply]
    by_cases hfound : (scan handling (limitFor token) l.cursor).token = token
    · rw [skip_of_token_eq hfound]
      exact fun hend => rest_stop_of_endOfText h.inside_eq (hfound.trans hend)
    · rw [skip_of_token_ne hfound]
      exact h.atEnd
  | _ => exact hstay

theorem covers_trace (s : Session) (h : Tracked text s.lexer) (ops : List Operation)
    (hfits : s.Throughout (fun l op => op.Fits l ∧ op.QuoteFits text l) (ops.map .perform)) :
    Covers s.lexer.cursor (tilesOf ops s.lexer) (trace ops s.lexer).2.cursor ∧
      Tracked text (trace ops s.lexer).2 := by
  induction ops generalizing s with
  | nil => exact ⟨.nil h.inside_eq, h⟩
  | cons op ops ih =>
    obtain ⟨hop, hops⟩ := hfits
    obtain ⟨hcovers, hlast⟩ := ih (s.act (.perform op)) (h.apply op hop) hops
    exact ⟨(covers_apply h op hop).append hcovers, hlast⟩

end TypedScript.Lexer
