import TypedScript.Lexer.Lexeme
import TypedScript.Proofs.Lexer.Readers
import TypedScript.Proofs.Token.Longest

/-! # Tiles of a text

A tile is something skipped or a lexeme, over the stretch of the text from its start to
its stop. What a skipped stretch has to be is said of its characters alone, and of what
follows it. The scan lays tiles from its start to the token it finds, and leaves the
token to its reader or passes over it.
-/

namespace TypedScript.Lexer

open Text Diagnostic

structure BeginsNothing (ch : Char) : Prop where
  notSpace : isSpace ch = false
  notLineBreak : isLineBreak ch = false
  notIdentifier : isIdentifierStart ch = false
  notDigit : isDecimal ch = false
  notQuote : ch ≠ '\x22' ∧ ch ≠ '\x27' ∧ ch ≠ '\x60'
  notPunctuator : ∀ mark : Punctuator, mark.text.toList.head? ≠ some ch

namespace Skipped

def start : Skipped → Nat
  | .blank start _ | .comment _ _ start _ | .openComment start _ | .stray start _ => start

def stop : Skipped → Nat
  | .blank _ stop | .comment _ _ _ stop | .openComment _ stop | .stray _ stop => stop

/-- What is skipped, the characters of its stretch, and those after it. A line comment ends
with its line feed or with the text, a block comment with the first `*/` in it. -/
inductive Describes : Skipped → List Char → List Char → Prop
  | blank {start stop : Nat} {ch : Char} {after : List Char} :
      isSpace ch = true ∨ isLineBreak ch = true → Describes (.blank start stop) [ch] after
  | line {kind : CommentKind} {start stop : Nat} {body ending after : List Char} :
      '\n' ∉ body → ending = ['\n'] ∨ ending = [] ∧ after = [] →
      kind = (if ['/'] <+: body then .triple else .line) →
      Describes (.comment kind (String.ofList (['/', '/'] ++ body ++ ending)) start stop)
        (['/', '/'] ++ body ++ ending) after
  | block {start stop : Nat} {body after : List Char} :
      ¬ ['*', '/'] <:+: body →
      Describes (.comment .block (String.ofList (['/', '*'] ++ body ++ ['*', '/'])) start stop)
        (['/', '*'] ++ body ++ ['*', '/']) after
  | openBlock {start stop : Nat} {body : List Char} :
      ¬ ['*', '/'] <:+: body → Describes (.openComment start stop) (['/', '*'] ++ body) []
  | stray {start stop : Nat} {ch : Char} {after : List Char} :
      BeginsNothing ch → Describes (.stray start stop) [ch] after

theorem Describes.ne_nil {what : Skipped} {part after : List Char}
    (h : what.Describes part after) : part ≠ [] := by
  cases h <;> simp

end Skipped

inductive Tile where
  | skipped (what : Skipped)
  | lexeme (x : Lexeme)

namespace Tile

def start : Tile → Nat
  | .skipped what => what.start
  | .lexeme x => x.start

def stop : Tile → Nat
  | .skipped what => what.stop
  | .lexeme x => x.stop

/-- What a tile has to be, given its characters and those after it. A character that begins
no token is reported and never taken for a lexeme, and the end of the text is no tile. -/
def Describes : Tile → List Char → List Char → Prop
  | .skipped what, part, after => what.Describes part after
  | .lexeme x, _, _ => x.token ≠ .endOfText ∧ x.token ≠ .invalid

def lexeme? : Tile → Option Lexeme
  | .lexeme x => some x
  | .skipped _ => none

def comment? (source : SourceId) : Tile → Option Comment
  | .skipped (.comment kind text start stop) => some ⟨kind, text, ⟨source, start, stop⟩⟩
  | _ => none

/-- What is reported of a tile without a token: a character that begins none, over its
stretch, and a block comment that is not closed, where its end is expected. -/
def fault? (source : SourceId) : Tile → Option Message
  | .skipped (.stray start stop) =>
    some (.create .invalidCharacter .error [] (some ⟨source, start, stop⟩) none)
  | .skipped (.openComment _ stop) =>
    some (.create .expected .error ["*/"] (some ⟨source, stop, stop⟩) none)
  | _ => none

end Tile

/-- The tiles stand one behind the other from `c` to `d`, and each is over a stretch of its
own. -/
inductive Covers : Cursor → List Tile → Cursor → Prop
  | nil {c : Cursor} : c.inside = 0 → Covers c [] c
  | cons {c d e : Cursor} {part : List Char} {tile : Tile} {tiles : List Tile} :
      c.Passes part d → part ≠ [] → tile.start = c.pos → tile.stop = d.pos →
      tile.Describes part d.rest → Covers d tiles e → Covers c (tile :: tiles) e

namespace Covers

variable {c d e : Cursor} {tiles more : List Tile}

theorem append (h : Covers c tiles d) (h' : Covers d more e) : Covers c (tiles ++ more) e := by
  induction h with
  | nil => exact h'
  | cons hpart hne hstart hstop htile _ ih => exact .cons hpart hne hstart hstop htile (ih h')

theorem reaches (h : Covers c tiles d) : c.Reaches d := by
  induction h with
  | nil hc => exact .refl hc
  | cons hpart _ _ _ _ _ ih => exact hpart.reaches.trans ih

theorem length_le (h : Covers c tiles d) : c.pos + tiles.length ≤ d.pos := by
  induction h with
  | nil => exact Nat.le_refl _
  | cons hpart hne _ _ _ _ ih =>
    have hlt := hpart.pos_lt hne
    rw [List.length_cons]
    omega

theorem stop_gt (h : Covers c tiles d) :
    ∀ tile ∈ tiles, c.pos ≤ tile.start ∧ c.pos < tile.stop := by
  induction h with
  | nil => simp
  | cons hpart hne hstart hstop _ _ ih =>
    intro tile htile
    have hlt := hpart.pos_lt hne
    rcases List.mem_cons.mp htile with rfl | htile
    · exact ⟨Nat.le_of_eq hstart.symm, hstop ▸ hlt⟩
    · obtain ⟨hle, hgt⟩ := ih tile htile
      exact ⟨Nat.le_trans hpart.pos_le hle, Nat.lt_trans hlt hgt⟩

theorem pairwise_lt (h : Covers c tiles d) :
    tiles.Pairwise fun a b => a.start < b.start ∧ a.stop < b.stop := by
  induction h with
  | nil => exact .nil
  | cons hpart hne hstart hstop _ hrest ih =>
    refine List.pairwise_cons.mpr ⟨fun tile htile => ?_, ih⟩
    obtain ⟨hle, hgt⟩ := hrest.stop_gt tile htile
    rw [hstart, hstop]
    exact ⟨Nat.lt_of_lt_of_le (hpart.pos_lt hne) hle, hgt⟩

theorem pairwise_le (h : Covers c tiles d) : tiles.Pairwise fun a b => a.stop ≤ b.start := by
  induction h with
  | nil => exact .nil
  | cons _ _ _ hstop _ hrest ih =>
    refine List.pairwise_cons.mpr ⟨fun tile htile => ?_, ih⟩
    rw [hstop]
    exact (hrest.stop_gt tile htile).1

theorem eq_nil_of_rest_eq_nil (h : Covers c tiles d) (hc : c.rest = []) : tiles = [] := by
  cases h with
  | nil => rfl
  | cons hpart hne => exact absurd (hpart.nil_of_rest_eq_nil hc).1 hne

theorem eq_nil_of_openComment {before after : List Tile} {start stop : Nat} (h : Covers c tiles d)
    (htiles : tiles = before ++ .skipped (.openComment start stop) :: after) : after = [] := by
  induction h generalizing before with
  | nil => simp at htiles
  | cons _ _ _ _ htile hrest ih =>
    cases before with
    | nil =>
      obtain ⟨rfl, rfl⟩ := List.cons_eq_cons.mp htiles
      generalize hend : Cursor.rest _ = rest at htile
      cases htile
      exact hrest.eq_nil_of_rest_eq_nil hend
    | cons first before => exact ih (List.cons_eq_cons.mp htiles).2

theorem pairwise_fault? (h : Covers c tiles d) (source : SourceId) :
    (tiles.filterMap (Tile.fault? source)).Pairwise fun a b => a.repeats b = false := by
  refine List.pairwise_filterMap.mpr (h.pairwise_lt.imp fun {a b} hlt m hm n hn => ?_)
  refine Bool.eq_false_iff.mpr fun hr => ?_
  simp only [Message.repeats, Bool.and_eq_true, beq_iff_eq] at hr
  -- A stray character is told by where it starts, an open comment by where it stops.
  unfold Tile.fault? at hm hn
  split at hm <;> cases hm <;> split at hn <;> cases hn
  all_goals simp [Message.create, Tile.start, Tile.stop, Skipped.start, Skipped.stop] at hr hlt
  all_goals omega

end Covers

end TypedScript.Lexer
