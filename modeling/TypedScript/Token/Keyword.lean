/-! # Keywords

The reserved and contextual words. Each is spelled in lower-case letters; a soft keyword may also be
used as an identifier, though some soft keywords still cannot name a variable.
-/

namespace TypedScript

inductive Keyword where
  | abstract | as | async | await | break_ | case | catch_ | class_ | const | continue_
  | constructor | debugger | declare | default_ | delete | do_ | else_ | enum | export_
  | extends_ | false_ | finally_ | for_ | from_ | function | get | if_ | implements | import_
  | in_ | instanceOf | interface | is | keyOf | let_ | module_ | namespace_ | new | null | of
  | override | package | private_ | protected_ | public_ | readonly | return_ | set | static
  | super | switch | this | throw | true_ | try_ | type | typeOf | var | void | while_ | with_
  | yield
deriving DecidableEq, Repr, Inhabited

namespace Keyword

def all : List Keyword :=
  [.abstract, .as, .async, .await, .break_, .case, .catch_, .class_, .const, .continue_,
   .constructor, .debugger, .declare, .default_, .delete, .do_, .else_, .enum, .export_,
   .extends_, .false_, .finally_, .for_, .from_, .function, .get, .if_, .implements, .import_,
   .in_, .instanceOf, .interface, .is, .keyOf, .let_, .module_, .namespace_, .new, .null, .of,
   .override, .package, .private_, .protected_, .public_, .readonly, .return_, .set, .static,
   .super, .switch, .this, .throw, .true_, .try_, .type, .typeOf, .var, .void, .while_, .with_,
   .yield]

def text : Keyword → String
  | .abstract => "abstract"
  | .as => "as"
  | .async => "async"
  | .await => "await"
  | .break_ => "break"
  | .case => "case"
  | .catch_ => "catch"
  | .class_ => "class"
  | .const => "const"
  | .continue_ => "continue"
  | .constructor => "constructor"
  | .debugger => "debugger"
  | .declare => "declare"
  | .default_ => "default"
  | .delete => "delete"
  | .do_ => "do"
  | .else_ => "else"
  | .enum => "enum"
  | .export_ => "export"
  | .extends_ => "extends"
  | .false_ => "false"
  | .finally_ => "finally"
  | .for_ => "for"
  | .from_ => "from"
  | .function => "function"
  | .get => "get"
  | .if_ => "if"
  | .implements => "implements"
  | .import_ => "import"
  | .in_ => "in"
  | .instanceOf => "instanceof"
  | .interface => "interface"
  | .is => "is"
  | .keyOf => "keyof"
  | .let_ => "let"
  | .module_ => "module"
  | .namespace_ => "namespace"
  | .new => "new"
  | .null => "null"
  | .of => "of"
  | .override => "override"
  | .package => "package"
  | .private_ => "private"
  | .protected_ => "protected"
  | .public_ => "public"
  | .readonly => "readonly"
  | .return_ => "return"
  | .set => "set"
  | .static => "static"
  | .super => "super"
  | .switch => "switch"
  | .this => "this"
  | .throw => "throw"
  | .true_ => "true"
  | .try_ => "try"
  | .type => "type"
  | .typeOf => "typeof"
  | .var => "var"
  | .void => "void"
  | .while_ => "while"
  | .with_ => "with"
  | .yield => "yield"

/-- Whether the word may also be used as an identifier. -/
def isSoft : Keyword → Bool
  | .abstract | .as | .constructor | .declare | .delete | .from_ | .for_ | .get | .instanceOf
  | .is | .keyOf | .module_ | .namespace_ | .null | .readonly | .set | .type | .void => true
  | _ => false

/-- Whether the word cannot name a variable even where it may be an identifier. -/
def isForbiddenVariable : Keyword → Bool
  | .delete | .for_ | .instanceOf | .null | .void => true
  | _ => false

def isOperator : Keyword → Bool
  | .delete | .in_ | .instanceOf | .new | .typeOf | .void | .yield => true
  | _ => false

/-- The keywords of a length in bytes, each by the word that is looked up. -/
def ofLength : Nat → List (String × Keyword)
  | 2 => [("as", .as), ("do", .do_), ("if", .if_), ("in", .in_), ("is", .is), ("of", .of)]
  | 3 => [("for", .for_), ("get", .get), ("let", .let_), ("new", .new), ("set", .set),
      ("try", .try_), ("var", .var)]
  | 4 => [("case", .case), ("else", .else_), ("enum", .enum), ("from", .from_), ("null", .null),
      ("this", .this), ("true", .true_), ("type", .type), ("void", .void), ("with", .with_)]
  | 5 => [("async", .async), ("await", .await), ("break", .break_), ("catch", .catch_),
      ("class", .class_), ("const", .const), ("false", .false_), ("keyof", .keyOf),
      ("super", .super), ("throw", .throw), ("while", .while_), ("yield", .yield)]
  | 6 => [("delete", .delete), ("export", .export_), ("import", .import_), ("module", .module_),
      ("public", .public_), ("return", .return_), ("static", .static), ("switch", .switch),
      ("typeof", .typeOf)]
  | 7 => [("declare", .declare), ("default", .default_), ("extends", .extends_),
      ("finally", .finally_), ("package", .package), ("private", .private_)]
  | 8 => [("abstract", .abstract), ("continue", .continue_), ("debugger", .debugger),
      ("function", .function), ("override", .override), ("readonly", .readonly)]
  | 9 => [("interface", .interface), ("namespace", .namespace_), ("protected", .protected_)]
  | 10 => [("implements", .implements), ("instanceof", .instanceOf)]
  | 11 => [("constructor", .constructor)]
  | _ => []

/-- The keyword that the word is, if it is one. What begins with no small letter, or is too short or
too long, is not looked for. -/
def ofText? (word : String) : Option Keyword :=
  let length := word.utf8ByteSize
  if 2 ≤ length && length ≤ 11 && word.toList.head?.any Char.isLower then
    (ofLength length).lookup word
  else none

end Keyword

/-- Whether `name` may stand as an identifier but not as the name of a variable. -/
def isForbiddenVariableName (name : String) : Bool :=
  (Keyword.ofText? name).any Keyword.isForbiddenVariable

end TypedScript
