/-! # Kinds of nodes

The tag of each node of the tree, and the smaller classes that literals, words, assertions, parameters,
arrows and decorators fall into. All but the words have names for listings.
-/

namespace TypedScript.Syntax

inductive NodeKind where
  | source
  | namedType | functionType | typeName | typeParameter | parameter
  | identifier | assertion | binary | call | class_ | comma | elementAccess | false_ | function
  | instanceOf | literal | new | null | omitted | parenthesized | propertyAccess | ternary | super
  | this | true_ | constructor | unaryPostfix | unaryPrefix | compiled
  | block | break_ | continue_ | do_ | empty | export_ | exportDefault | exportImport | expression
  | for_ | forOf | if_ | import_ | return_ | switch | throw | try_ | variable_ | void | while_
  | module_
  | classDeclaration | enumDeclaration | enumValueDeclaration | fieldDeclaration
  | functionDeclaration | importDeclaration | interfaceDeclaration | methodDeclaration
  | namespaceDeclaration | typeDeclaration | variableDeclaration
  | decorator | exportMember | switchCase | indexSignature | comment
deriving DecidableEq, Repr, Inhabited

namespace NodeKind

def all : List NodeKind :=
  [.source, .namedType, .functionType, .typeName, .typeParameter, .parameter, .identifier,
   .assertion, .binary, .call, .class_, .comma, .elementAccess, .false_, .function, .instanceOf,
   .literal, .new, .null, .omitted, .parenthesized, .propertyAccess, .ternary, .super, .this, .true_,
   .constructor, .unaryPostfix, .unaryPrefix, .compiled, .block, .break_, .continue_, .do_, .empty,
   .export_, .exportDefault, .exportImport, .expression, .for_, .forOf, .if_, .import_, .return_,
   .switch, .throw, .try_, .variable_, .void, .while_, .module_, .classDeclaration,
   .enumDeclaration, .enumValueDeclaration, .fieldDeclaration, .functionDeclaration,
   .importDeclaration, .interfaceDeclaration, .methodDeclaration, .namespaceDeclaration,
   .typeDeclaration, .variableDeclaration, .decorator, .exportMember, .switchCase, .indexSignature,
   .comment]

def name : NodeKind → String
  | .source => "Source"
  | .namedType => "NamedType"
  | .functionType => "FunctionType"
  | .typeName => "TypeName"
  | .typeParameter => "TypeParameter"
  | .parameter => "Parameter"
  | .identifier => "Identifier"
  | .assertion => "Assertion"
  | .binary => "Binary"
  | .call => "Call"
  | .class_ => "Class"
  | .comma => "Comma"
  | .elementAccess => "ElementAccess"
  | .false_ => "False"
  | .function => "Function"
  | .instanceOf => "InstanceOf"
  | .literal => "Literal"
  | .new => "New"
  | .null => "Null"
  | .omitted => "Omitted"
  | .parenthesized => "Parenthesized"
  | .propertyAccess => "PropertyAccess"
  | .ternary => "Ternary"
  | .super => "Super"
  | .this => "This"
  | .true_ => "True"
  | .constructor => "Constructor"
  | .unaryPostfix => "UnaryPostfix"
  | .unaryPrefix => "UnaryPrefix"
  | .compiled => "Compiled"
  | .block => "Block"
  | .break_ => "Break"
  | .continue_ => "Continue"
  | .do_ => "Do"
  | .empty => "Empty"
  | .export_ => "Export"
  | .exportDefault => "ExportDefault"
  | .exportImport => "ExportImport"
  | .expression => "Expression"
  | .for_ => "For"
  | .forOf => "ForOf"
  | .if_ => "If"
  | .import_ => "Import"
  | .return_ => "Return"
  | .switch => "Switch"
  | .throw => "Throw"
  | .try_ => "Try"
  | .variable_ => "Variable"
  | .void => "Void"
  | .while_ => "While"
  | .module_ => "Module"
  | .classDeclaration => "ClassDeclaration"
  | .enumDeclaration => "EnumDeclaration"
  | .enumValueDeclaration => "EnumValueDeclaration"
  | .fieldDeclaration => "FieldDeclaration"
  | .functionDeclaration => "FunctionDeclaration"
  | .importDeclaration => "ImportDeclaration"
  | .interfaceDeclaration => "InterfaceDeclaration"
  | .methodDeclaration => "MethodDeclaration"
  | .namespaceDeclaration => "NamespaceDeclaration"
  | .typeDeclaration => "TypeDeclaration"
  | .variableDeclaration => "VariableDeclaration"
  | .decorator => "Decorator"
  | .exportMember => "ExportMember"
  | .switchCase => "SwitchCase"
  | .indexSignature => "IndexSignature"
  | .comment => "Comment"

/-- The place of the kind among all kinds. -/
def number (k : NodeKind) : Nat :=
  k.ctorIdx

/-- Whether nodes of the kind are declarations; those kinds stand together. -/
def isDeclaration (k : NodeKind) : Bool :=
  classDeclaration.number ≤ k.number && k.number ≤ variableDeclaration.number

end NodeKind

inductive LiteralKind where
  | float | integer | string | template | regexp | array | object
deriving DecidableEq, Repr

namespace LiteralKind

def all : List LiteralKind :=
  [.float, .integer, .string, .template, .regexp, .array, .object]

def name : LiteralKind → String
  | .float => "Float"
  | .integer => "Integer"
  | .string => "String"
  | .template => "Template"
  | .regexp => "RegExp"
  | .array => "Array"
  | .object => "Object"

end LiteralKind

/-- The words that stand as expressions of their own. -/
inductive ValueWord where
  | this | super | true_ | false_ | null | constructor
deriving DecidableEq, Repr

namespace ValueWord

def all : List ValueWord :=
  [.this, .super, .true_, .false_, .null, .constructor]

def text : ValueWord → String
  | .this => "this"
  | .super => "super"
  | .true_ => "true"
  | .false_ => "false"
  | .null => "null"
  | .constructor => "constructor"

def kind : ValueWord → NodeKind
  | .this => .this
  | .super => .super
  | .true_ => .true_
  | .false_ => .false_
  | .null => .null
  | .constructor => .constructor

end ValueWord

inductive AssertionKind where
  /-- A type in angle brackets in front. -/
  | before
  /-- `as` and a type behind. -/
  | as
  /-- `!` behind. -/
  | nonNull
  /-- `as const` behind. -/
  | const
deriving DecidableEq, Repr

namespace AssertionKind

def all : List AssertionKind :=
  [.before, .as, .nonNull, .const]

def name : AssertionKind → String
  | .before => "Prefix"
  | .as => "As"
  | .nonNull => "NonNull"
  | .const => "Const"

end AssertionKind

inductive ParameterKind where
  | plain | optional | rest
deriving DecidableEq, Repr

namespace ParameterKind

def all : List ParameterKind :=
  [.plain, .optional, .rest]

def name : ParameterKind → String
  | .plain => "Default"
  | .optional => "Optional"
  | .rest => "Rest"

end ParameterKind

inductive ArrowKind where
  | none | parenthesized | single
deriving DecidableEq, Repr

namespace ArrowKind

def all : List ArrowKind :=
  [.none, .parenthesized, .single]

def name : ArrowKind → String
  | .none => "None"
  | .parenthesized => "Parenthesized"
  | .single => "Single"

end ArrowKind

inductive DecoratorKind where
  | custom | global | operator | operatorBinary | operatorPrefix | operatorPostfix | unmanaged | final
  | inline | external | externalJs | builtin | lazy | unchecked
deriving DecidableEq, Repr

namespace DecoratorKind

def all : List DecoratorKind :=
  [.custom, .global, .operator, .operatorBinary, .operatorPrefix, .operatorPostfix, .unmanaged,
   .final, .inline, .external, .externalJs, .builtin, .lazy, .unchecked]

def name : DecoratorKind → String
  | .custom => "Custom"
  | .global => "Global"
  | .operator => "Operator"
  | .operatorBinary => "OperatorBinary"
  | .operatorPrefix => "OperatorPrefix"
  | .operatorPostfix => "OperatorPostfix"
  | .unmanaged => "Unmanaged"
  | .final => "Final"
  | .inline => "Inline"
  | .external => "External"
  | .externalJs => "ExternalJs"
  | .builtin => "Builtin"
  | .lazy => "Lazy"
  | .unchecked => "Unsafe"

end DecoratorKind

end TypedScript.Syntax
