import TypedScript.Text.Bytes

/-! # Lines of a text

A line ends with its line feed; no other character ends one. The starts of all lines make up a table,
with a sentinel at its end. In the table the place of an offset is found, which is a line and a column
in bytes, both counted from one. Offsets behind the text lie in its last line.
-/

namespace TypedScript.Text

structure Place where
  line : Nat
  column : Nat
deriving DecidableEq, Repr, Inhabited

/-- The starts of the lines behind the first, in a text that begins at an offset. -/
def furtherLines (offset : Nat) : List Char → List Nat
  | [] => []
  | c :: rest =>
    let next := offset + c.utf8Size
    if c = '\n' then next :: furtherLines next rest else furtherLines next rest

def lineStarts (text : List Char) : List Nat :=
  0 :: furtherLines 0 text

/-- Offsets with a place are below this bound. -/
def lineSentinel : Nat := 0x7fffffff

def lineTable (text : List Char) : List Nat :=
  lineStarts text ++ [lineSentinel]

def lineStart? (text : List Char) : Nat → Option Nat
  | 0 => none
  | index + 1 =>
    let table := lineTable text
    -- The sentinel is no line.
    if index + 1 < table.length then table[index]? else none

/-- How many entries at the front of the table fulfil `p`. -/
def partitionPoint (p : Nat → Bool) (table : List Nat) : Nat :=
  (table.takeWhile p).length

def place (text : List Char) (offset : Nat) : Place :=
  let table := lineTable text
  let index := partitionPoint (· ≤ offset) table - 1
  ⟨index + 1, offset - table.getD index 0 + 1⟩

end TypedScript.Text
