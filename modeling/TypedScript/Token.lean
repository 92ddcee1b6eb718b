import TypedScript.Token.Keyword
import TypedScript.Token.Punctuator

/-! # Tokens

A token is a keyword, a punctuator, or the mark of a word, a literal, an unknown character or the end
of the text. It carries no value: values are read from the place where the token stands. Tokens are
numbered keywords first, then punctuators, then marks.
-/

namespace TypedScript

inductive Token where
  | keyword (word : Keyword)
  | punctuator (mark : Punctuator)
  | identifier | string | integer | float | template
  | invalid | endOfText
deriving DecidableEq, Repr, Inhabited

namespace Token

def all : List Token :=
  Keyword.all.map .keyword ++ Punctuator.all.map .punctuator ++
    [.identifier, .string, .integer, .float, .template, .invalid, .endOfText]

/-- The place of the token among all tokens. -/
def number : Token → Nat
  | .keyword word => word.ctorIdx
  | .punctuator mark => Keyword.all.length + mark.ctorIdx
  | .identifier => Keyword.all.length + Punctuator.all.length
  | .string => Keyword.all.length + Punctuator.all.length + 1
  | .integer => Keyword.all.length + Punctuator.all.length + 2
  | .float => Keyword.all.length + Punctuator.all.length + 3
  | .template => Keyword.all.length + Punctuator.all.length + 4
  | .invalid => Keyword.all.length + Punctuator.all.length + 5
  | .endOfText => Keyword.all.length + Punctuator.all.length + 6

instance : Ord Token where
  compare a b := compare a.number b.number

def isKeyword : Token → Bool
  | .keyword _ => true
  | _ => false

def isSoftKeyword : Token → Bool
  | .keyword word => word.isSoft
  | _ => false

/-- The text of a token as messages name it. -/
def text : Token → String
  | .keyword word => word.text
  | .punctuator mark => mark.text
  | .identifier => "identifier"
  | .string => "string literal"
  | .integer => "integer literal"
  | .float => "float literal"
  | .template => "template literal"
  | .invalid => "invalid token"
  | .endOfText => "end of file"

/-- The text of a token that can stand as an operator. -/
def operatorText? : Token → Option String
  | .keyword word => if word.isOperator then some word.text else none
  | .punctuator mark => if mark.isOperator then some mark.text else none
  | _ => none

end Token

end TypedScript
