/-! # Punctuators

The tokens with a fixed text that is no word. A punctuator is read by its first character and then grown
as long as the text goes on with more of a longer one; the choice of the longest one that fits is the rule
that this follows.
-/

namespace TypedScript

inductive Punctuator where
  | openBrace | closeBrace | openParen | closeParen | openBracket | closeBracket | dot | ellipsis
  | semicolon | comma | less | greater | lessEqual | greaterEqual | equal | notEqual | same
  | notSame | arrow | plus | minus | power | times | divide | percent | increment | decrement
  | shiftLeft | shiftRight | shiftRightZero | bitAnd | bitOr | bitXor | not | bitNot | and | or
  | question | colon | assign | plusAssign | minusAssign | timesAssign | powerAssign
  | divideAssign | percentAssign | shiftLeftAssign | shiftRightAssign | shiftRightZeroAssign
  | bitAndAssign | bitOrAssign | bitXorAssign | at_
deriving DecidableEq, Repr, Inhabited

namespace Punctuator

def all : List Punctuator :=
  [.openBrace, .closeBrace, .openParen, .closeParen, .openBracket, .closeBracket, .dot,
   .ellipsis, .semicolon, .comma, .less, .greater, .lessEqual, .greaterEqual, .equal, .notEqual,
   .same, .notSame, .arrow, .plus, .minus, .power, .times, .divide, .percent, .increment,
   .decrement, .shiftLeft, .shiftRight, .shiftRightZero, .bitAnd, .bitOr, .bitXor, .not, .bitNot,
   .and, .or, .question, .colon, .assign, .plusAssign, .minusAssign, .timesAssign, .powerAssign,
   .divideAssign, .percentAssign, .shiftLeftAssign, .shiftRightAssign, .shiftRightZeroAssign,
   .bitAndAssign, .bitOrAssign, .bitXorAssign, .at_]

def text : Punctuator → String
  | .openBrace => "\x7b"
  | .closeBrace => "\x7d"
  | .openParen => "("
  | .closeParen => ")"
  | .openBracket => "["
  | .closeBracket => "]"
  | .dot => "."
  | .ellipsis => "..."
  | .semicolon => ";"
  | .comma => ","
  | .less => "<"
  | .greater => ">"
  | .lessEqual => "<="
  | .greaterEqual => ">="
  | .equal => "=="
  | .notEqual => "!="
  | .same => "==="
  | .notSame => "!=="
  | .arrow => "=>"
  | .plus => "+"
  | .minus => "-"
  | .power => "**"
  | .times => "*"
  | .divide => "/"
  | .percent => "%"
  | .increment => "++"
  | .decrement => "--"
  | .shiftLeft => "<<"
  | .shiftRight => ">>"
  | .shiftRightZero => ">>>"
  | .bitAnd => "&"
  | .bitOr => "|"
  | .bitXor => "^"
  | .not => "!"
  | .bitNot => "~"
  | .and => "&&"
  | .or => "||"
  | .question => "?"
  | .colon => ":"
  | .assign => "="
  | .plusAssign => "+="
  | .minusAssign => "-="
  | .timesAssign => "*="
  | .powerAssign => "**="
  | .divideAssign => "/="
  | .percentAssign => "%="
  | .shiftLeftAssign => "<<="
  | .shiftRightAssign => ">>="
  | .shiftRightZeroAssign => ">>>="
  | .bitAndAssign => "&="
  | .bitOrAssign => "|="
  | .bitXorAssign => "^="
  | .at_ => "@"

/-- Whether the punctuator is an operator: brackets, `.`, `;`, `=>`, `?`, `:` and `@` are not. -/
def isOperator : Punctuator → Bool
  | .openBrace | .closeBrace | .openParen | .closeParen | .openBracket | .closeBracket => false
  | .dot | .semicolon | .arrow | .question | .colon | .at_ => false
  | _ => true

def single? : Char → Option Punctuator
  | '\x7b' => some .openBrace
  | '\x7d' => some .closeBrace
  | '(' => some .openParen
  | ')' => some .closeParen
  | '[' => some .openBracket
  | ']' => some .closeBracket
  | '.' => some .dot
  | ';' => some .semicolon
  | ',' => some .comma
  | '<' => some .less
  | '>' => some .greater
  | '+' => some .plus
  | '-' => some .minus
  | '*' => some .times
  | '/' => some .divide
  | '%' => some .percent
  | '&' => some .bitAnd
  | '|' => some .bitOr
  | '^' => some .bitXor
  | '!' => some .not
  | '~' => some .bitNot
  | '?' => some .question
  | ':' => some .colon
  | '=' => some .assign
  | '@' => some .at_
  | _ => none

/-- What a punctuator may grow into: if `more` goes on behind it and the limit is `least` or above, both
together are `mark`. -/
structure Growth where
  least : Nat
  more : List Char
  mark : Punctuator
deriving DecidableEq

/-- The ways on from a punctuator, in the order in which they are tried. -/
def growths : Punctuator → List Growth
  | .dot => [⟨3, ['.', '.'], .ellipsis⟩]
  | .not => [⟨2, ['='], .notEqual⟩]
  | .notEqual => [⟨3, ['='], .notSame⟩]
  | .percent => [⟨2, ['='], .percentAssign⟩]
  | .bitAnd => [⟨2, ['&'], .and⟩, ⟨2, ['='], .bitAndAssign⟩]
  | .times => [⟨2, ['='], .timesAssign⟩, ⟨2, ['*'], .power⟩]
  | .power => [⟨3, ['='], .powerAssign⟩]
  | .plus => [⟨2, ['+'], .increment⟩, ⟨2, ['='], .plusAssign⟩]
  | .minus => [⟨2, ['-'], .decrement⟩, ⟨2, ['='], .minusAssign⟩]
  | .divide => [⟨2, ['='], .divideAssign⟩]
  | .less => [⟨2, ['<'], .shiftLeft⟩, ⟨2, ['='], .lessEqual⟩]
  | .shiftLeft => [⟨3, ['='], .shiftLeftAssign⟩]
  | .assign => [⟨2, ['='], .equal⟩, ⟨2, ['>'], .arrow⟩]
  | .equal => [⟨3, ['='], .same⟩]
  | .greater => [⟨2, ['>'], .shiftRight⟩, ⟨2, ['='], .greaterEqual⟩]
  | .shiftRight => [⟨3, ['>'], .shiftRightZero⟩, ⟨3, ['='], .shiftRightAssign⟩]
  | .shiftRightZero => [⟨4, ['='], .shiftRightZeroAssign⟩]
  | .bitXor => [⟨2, ['='], .bitXorAssign⟩]
  | .bitOr => [⟨2, ['|'], .or⟩, ⟨2, ['='], .bitOrAssign⟩]
  | _ => []

def Growth.goesOn (g : Growth) (limit : Nat) (text : List Char) : Bool :=
  g.least ≤ limit && g.more.isPrefixOf text

theorem more_ne_nil {mark : Punctuator} : ∀ g ∈ growths mark, g.more ≠ [] := by
  cases mark <;> decide

theorem length_more {limit : Nat} {mark : Punctuator} {text : List Char} {g : Growth}
    (h : (growths mark).find? (·.goesOn limit text) = some g) :
    0 < g.more.length ∧ g.more.length ≤ text.length := by
  have hgoes := List.find?_some h
  simp only [Growth.goesOn, Bool.and_eq_true, List.isPrefixOf_iff_prefix] at hgoes
  exact ⟨List.length_pos_iff.mpr (more_ne_nil g (List.mem_of_find?_eq_some h)), hgoes.2.length_le⟩

/-- The punctuator grown from `mark`, of which `taken` characters are behind, in front of `text`, and how
many characters it takes. -/
def grow (limit : Nat) (mark : Punctuator) (taken : Nat) (text : List Char) : Punctuator × Nat :=
  match h : (growths mark).find? (·.goesOn limit text) with
  | none => (mark, taken)
  | some g =>
    have := length_more h
    grow limit g.mark (taken + g.more.length) (text.drop g.more.length)
termination_by text.length

/-- The punctuator that begins the text, and how many characters it takes. -/
def read? (limit : Nat) : List Char → Option (Punctuator × Nat)
  | [] => none
  | ch :: rest => (single? ch).map fun mark => grow limit mark 1 rest

def spellings : List (List Char × Punctuator) :=
  all.map fun p => (p.text.toList, p)

/-- The longer of two matches, the first if they are equally long. -/
def longer (best : Option (List Char × Punctuator)) (next : List Char × Punctuator) :
    Option (List Char × Punctuator) :=
  match best with
  | none => some next
  | some found => if found.1.length < next.1.length then some next else some found

/-- The longest punctuator of at most `limit` characters that begins the text. -/
def longest? (limit : Nat) (text : List Char) : Option Punctuator :=
  ((spellings.filter fun s => s.1.length ≤ limit && s.1.isPrefixOf text).foldl longer none).map
    Prod.snd

end Punctuator

end TypedScript
