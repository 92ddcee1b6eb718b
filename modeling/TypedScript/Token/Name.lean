import TypedScript.Token

/-! # Names of tokens

Each token has a name of letters for listings. A keyword is named by its text, with a capital letter in
front of each word in it, and a punctuator by the names of its characters one after the other.
-/

namespace TypedScript

def Keyword.name : Keyword → String
  | .instanceOf => "InstanceOf"
  | .keyOf => "KeyOf"
  | .typeOf => "TypeOf"
  | word => word.text.capitalize

namespace Punctuator

def charName : Char → String
  | '\x7b' => "OpenBrace"
  | '\x7d' => "CloseBrace"
  | '(' => "OpenParen"
  | ')' => "CloseParen"
  | '[' => "OpenBracket"
  | ']' => "CloseBracket"
  | '.' => "Dot"
  | ';' => "Semicolon"
  | ',' => "Comma"
  | '<' => "LessThan"
  | '>' => "GreaterThan"
  | '=' => "Equals"
  | '!' => "Exclamation"
  | '+' => "Plus"
  | '-' => "Minus"
  | '*' => "Asterisk"
  | '/' => "Slash"
  | '%' => "Percent"
  | '&' => "Ampersand"
  | '|' => "Bar"
  | '^' => "Caret"
  | '~' => "Tilde"
  | '?' => "Question"
  | ':' => "Colon"
  | '@' => "At"
  | _ => ""

def name (p : Punctuator) : String :=
  String.join (p.text.toList.map charName)

end Punctuator

def Token.name : Token → String
  | .keyword word => word.name
  | .punctuator mark => mark.name
  | .identifier => "Identifier"
  | .string => "StringLiteral"
  | .integer => "IntegerLiteral"
  | .float => "FloatLiteral"
  | .template => "TemplateLiteral"
  | .invalid => "Invalid"
  | .endOfText => "EndOfFile"

end TypedScript
