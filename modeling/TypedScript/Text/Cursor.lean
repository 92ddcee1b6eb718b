import TypedScript.Text.Bytes
import TypedScript.Text.Character

/-! # Cursors

A cursor is a place in a text: the byte offset, the characters that are not wholly behind it, and
how many bytes of the first of them are. A cursor inside a character sees a byte but no character.
Cursors are values, so a place is remembered by keeping the cursor.
-/

namespace TypedScript.Text

structure Cursor where
  pos : Nat
  rest : List Char
  inside : Nat
deriving DecidableEq, Inhabited

namespace Cursor

/-- The cursor `n` bytes after the offset `pos` at which `rest` begins, stopping at the end. -/
def into (pos : Nat) : Nat → List Char → Cursor
  | _, [] => ⟨pos, [], 0⟩
  | n, c :: rest =>
    if n < c.utf8Size then ⟨pos + n, c :: rest, n⟩
    else into (pos + c.utf8Size) (n - c.utf8Size) rest

/-- The cursor at offset `n` of a text, at its end if the offset lies beyond. -/
def ofOffset (text : List Char) (n : Nat) : Cursor :=
  into 0 n text

def start (text : List Char) : Cursor :=
  ⟨0, text, 0⟩

def atEnd (c : Cursor) : Bool :=
  c.rest.isEmpty

def endPos (c : Cursor) : Nat :=
  c.pos - c.inside + byteSize c.rest

def char? (c : Cursor) : Option Char :=
  if c.inside = 0 then c.rest.head? else none

def byte? (c : Cursor) : Option UInt8 :=
  c.rest.head?.bind fun ch => (String.utf8EncodeChar ch)[c.inside]?

/-- The byte at the cursor, zero at the end. -/
def byte (c : Cursor) : UInt8 :=
  c.byte?.getD 0

/-- The characters from the cursor on; none if it stands inside one. -/
def chars (c : Cursor) : List Char :=
  if c.inside = 0 then c.rest else []

def advance (c : Cursor) (n : Nat) : Cursor :=
  into (c.pos - c.inside) (c.inside + n) c.rest

/-- Past the current character, or past one byte inside a character. -/
def skipChar (c : Cursor) : Cursor :=
  c.advance (c.char?.elim 1 Char.utf8Size)

def eat (c : Cursor) (b : UInt8) : Option Cursor :=
  if c.byte? = some b then some (c.advance 1) else none

def skipChars (c : Cursor) (p : Char → Bool) : Cursor :=
  if c.inside = 0 then ⟨c.pos + byteSize (c.rest.takeWhile p), c.rest.dropWhile p, 0⟩ else c

def skipIdentifierRest (c : Cursor) : Cursor :=
  c.skipChars isIdentifierPart

/-- To the end of the character the cursor stands inside, if any. -/
def toEdge (c : Cursor) : Cursor :=
  if c.inside = 0 then c
  else ⟨c.pos - c.inside + byteSize (c.rest.take 1), c.rest.drop 1, 0⟩

def skipLine (c : Cursor) : Cursor :=
  c.toEdge.skipChars (· != '\n')

def toEnd (c : Cursor) : Cursor :=
  ⟨c.endPos, [], 0⟩

/-- The place after the first `*/` in a text that begins at offset `pos`. -/
def afterClosing (pos : Nat) : List Char → Option Cursor
  | [] => none
  | '*' :: '/' :: rest => some ⟨pos + 2, rest, 0⟩
  | c :: rest => afterClosing (pos + c.utf8Size) rest

def skipBlockComment? (c : Cursor) : Option Cursor :=
  afterClosing c.toEdge.pos c.toEdge.rest

/-- Past a byte order mark and a `#!` line, up to its line feed. -/
def skipPreamble (c : Cursor) : Cursor :=
  let c := if c.char? = some byteOrderMark then c.skipChar else c
  if ['#', '!'].isPrefixOf c.chars then (c.advance 2).skipLine else c

/-- The text from the cursor up to offset `stop`; empty if either is inside a character. -/
def textTo (c : Cursor) (stop : Nat) : String :=
  if c.inside = 0 && c.pos ≤ stop then
    String.ofList ((takeBytes? (stop - c.pos) c.rest).getD [])
  else ""

/-- Whether a line break character lies wholly between the cursor and offset `stop`. -/
def lineBreakBefore (c : Cursor) (stop : Nat) : Bool :=
  breakBetween c.toEdge.pos c.toEdge.rest
where
  /-- The same for a text that begins at offset `pos`. -/
  breakBetween (pos : Nat) : List Char → Bool
    | [] => false
    | ch :: rest =>
      if pos + ch.utf8Size ≤ stop then
        if isLineBreak ch then true else breakBetween (pos + ch.utf8Size) rest
      else false

/-- A bound on the steps still to make: five for each character left, less the bytes of the first that are
behind. -/
def distance (c : Cursor) : Nat :=
  5 * c.rest.length - min c.inside 4

theorem length_rest_into (pos n : Nat) (rest : List Char) :
    (into pos n rest).rest.length ≤ rest.length := by
  induction rest generalizing pos n with
  | nil => simp [into]
  | cons c rest ih =>
    unfold into
    split
    · simp
    · exact Nat.le_succ_of_le (ih _ _)

theorem distance_advance_le (c : Cursor) (n : Nat) : (c.advance n).distance ≤ c.distance := by
  obtain ⟨pos, rest, inside⟩ := c
  cases rest with
  | nil => simp [advance, into, distance]
  | cons ch rest =>
    have h4 := ch.utf8Size_le_four
    simp only [advance, into, distance, List.length_cons]
    split
    · simp only [List.length_cons]; omega
    · have := length_rest_into (pos - inside + ch.utf8Size) (inside + n - ch.utf8Size) rest
      omega

theorem distance_advance_lt {c : Cursor} (h : c.atEnd = false) {n : Nat} (hn : 0 < n) :
    (c.advance n).distance < c.distance := by
  obtain ⟨pos, rest, inside⟩ := c
  cases rest with
  | nil => simp [atEnd] at h
  | cons ch rest =>
    have h4 := ch.utf8Size_le_four
    simp only [advance, into, distance, List.length_cons]
    split
    · simp only [List.length_cons]; omega
    · have := length_rest_into (pos - inside + ch.utf8Size) (inside + n - ch.utf8Size) rest
      omega

theorem distance_skipChar_le (c : Cursor) : c.skipChar.distance ≤ c.distance :=
  distance_advance_le c _

theorem distance_skipChar_lt {c : Cursor} (h : c.atEnd = false) :
    c.skipChar.distance < c.distance := by
  refine distance_advance_lt h ?_
  cases c.char? with
  | none => simp
  | some ch => exact ch.utf8Size_pos

def skipBytes (c : Cursor) (p : UInt8 → Bool) : Cursor :=
  if h : c.atEnd then c
  else if p c.byte then
    have : (c.advance 1).distance < c.distance := distance_advance_lt (by simpa using h) Nat.one_pos
    skipBytes (c.advance 1) p
  else c
termination_by c.distance

theorem distance_skipChars_le (c : Cursor) (p : Char → Bool) :
    (c.skipChars p).distance ≤ c.distance := by
  unfold skipChars
  split
  · have := (List.dropWhile_sublist p (l := c.rest)).length_le
    simp only [distance]; omega
  · exact Nat.le_refl _

theorem inside_toEdge (c : Cursor) : c.toEdge.inside = 0 := by
  unfold toEdge
  split
  · assumption
  · rfl

theorem distance_toEdge_le (c : Cursor) : c.toEdge.distance ≤ c.distance := by
  unfold toEdge
  split
  · exact Nat.le_refl _
  · simp only [distance, List.length_drop]; omega

theorem distance_skipLine_le (c : Cursor) : c.skipLine.distance ≤ c.distance :=
  Nat.le_trans (distance_skipChars_le _ _) c.distance_toEdge_le

theorem distance_afterClosing_le {pos : Nat} {text : List Char} {stop : Cursor}
    (h : afterClosing pos text = some stop) : stop.distance ≤ 5 * text.length := by
  fun_induction afterClosing pos text with
  | case1 => simp at h
  | case2 pos rest =>
    obtain rfl := Option.some.inj h
    simp only [distance, List.length_cons]; omega
  | case3 pos c rest _ ih =>
    have := ih h
    simp only [List.length_cons]; omega

theorem distance_skipBlockComment?_le {c stop : Cursor} (h : c.skipBlockComment? = some stop) :
    stop.distance ≤ c.distance := by
  have h1 := distance_afterClosing_le h
  have h2 := c.distance_toEdge_le
  have h3 : c.toEdge.distance = 5 * c.toEdge.rest.length := by
    simp [distance, inside_toEdge]
  omega

theorem distance_toEnd_lt {c : Cursor} (h : c.atEnd = false) : c.toEnd.distance < c.distance := by
  obtain ⟨pos, rest, inside⟩ := c
  cases rest with
  | nil => simp [atEnd] at h
  | cons ch rest => simp only [toEnd, distance, List.length_cons, List.length_nil]; omega

end Cursor

end TypedScript.Text
