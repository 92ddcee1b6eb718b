import TypedScript.Syntax.Kind
import TypedScript.Syntax.Module
import TypedScript.Token

/-! # The syntax tree

Types, expressions, declarations and statements as one family, each node with its span. A list that may
be left out differs from an empty one. Nodes own their parts, and no node knows its parent.
-/

namespace TypedScript.Syntax

mutual

structure NamedType where
  name : TypeName
  arguments : Option (List TypeNode)
  isNullable : Bool
  span : Span

/-- A function type; its `this` type may be given explicitly. -/
structure FunctionType where
  parameters : List Parameter
  result : TypeNode
  this : Option NamedType
  isNullable : Bool
  span : Span

inductive TypeNode where
  | named (type : NamedType)
  | function (type : FunctionType)

structure TypeParameter where
  name : Identifier
  extends_ : Option NamedType
  default_ : Option NamedType
  span : Span

/-- A parameter of a function. A constructor's parameter may declare a field. -/
structure Parameter where
  kind : ParameterKind
  name : Identifier
  type : TypeNode
  initializer : Option Expr
  field : Option Field
  flags : Flags
  span : Span

structure Decorator where
  kind : DecoratorKind
  name : Expr
  arguments : Option (List Expr)
  span : Span

inductive Expr where
  | identifier (id : Identifier)
  | float (value : Float) (span : Span)
  | integer (value : Int64) (span : Span)
  | string (literal : StringLiteral)
  /-- The texts around the expressions of a template, with escapes applied and as written. -/
  | template (tag : Option Expr) (parts raws : List String) (expressions : List Expr) (span : Span)
  | regexp (pattern flags : String) (span : Span)
  | array (elements : List Expr) (span : Span)
  /-- The names of an object literal and the values in the same order. -/
  | object (names : List Identifier) (values : List Expr) (span : Span)
  | assertion (kind : AssertionKind) (inner : Expr) (type : Option TypeNode) (span : Span)
  | binary (operator : Token) (left right : Expr) (span : Span)
  | call (callee : Expr) (typeArguments : Option (List TypeNode)) (arguments : List Expr) (span : Span)
  | class_ (declaration : Class)
  | comma (expressions : List Expr) (span : Span)
  | element (object index : Expr) (span : Span)
  | function (declaration : Function)
  | instanceOf (inner : Expr) (type : TypeNode) (span : Span)
  | new (type : TypeName) (typeArguments : Option (List TypeNode)) (arguments : List Expr) (span : Span)
  | omitted (span : Span)
  | parenthesized (inner : Expr) (span : Span)
  | property (object : Expr) (name : Identifier) (span : Span)
  | ternary (condition yes no : Expr) (span : Span)
  | postfixOp (operator : Token) (operand : Expr) (span : Span)
  | prefixOp (operator : Token) (operand : Expr) (span : Span)
  | word (word : ValueWord) (span : Span)
  /-- A place in the tables of a code generator. -/
  | compiled (expression type : Nat) (span : Span)

structure Class where
  head : Head
  isInterface : Bool
  decorators : Option (List Decorator)
  typeParameters : Option (List TypeParameter)
  extends_ : Option NamedType
  implements : Option (List NamedType)
  members : List Stmt
  index : Option IndexSignature

structure IndexSignature where
  key : NamedType
  value : TypeNode
  flags : Flags
  span : Span

structure Function where
  head : Head
  isMethod : Bool
  decorators : Option (List Decorator)
  typeParameters : Option (List TypeParameter)
  signature : FunctionType
  body : Option Stmt
  arrow : ArrowKind

structure Enum where
  head : Head
  decorators : Option (List Decorator)
  values : List EnumValue

structure EnumValue where
  head : Head
  initializer : Option Expr

/-- A field; one that a constructor's parameter declares knows the place of the parameter. -/
structure Field where
  head : Head
  decorators : Option (List Decorator)
  type : Option TypeNode
  initializer : Option Expr
  parameterIndex : Option Nat

structure Namespace where
  head : Head
  decorators : Option (List Decorator)
  members : List Stmt

structure TypeAlias where
  head : Head
  decorators : Option (List Decorator)
  typeParameters : Option (List TypeParameter)
  type : TypeNode

structure Variable where
  head : Head
  decorators : Option (List Decorator)
  type : Option TypeNode
  initializer : Option Expr

/-- A clause of a `switch`; without a label it is the default. -/
structure SwitchCase where
  label : Option Expr
  body : List Stmt
  span : Span

inductive Stmt where
  | block (body : List Stmt) (span : Span)
  | break_ (label : Option Identifier) (span : Span)
  | continue_ (label : Option Identifier) (span : Span)
  | do_ (body : Stmt) (condition : Expr) (span : Span)
  | empty (span : Span)
  | export_ (export_ : Export)
  | exportDefault (declaration : Stmt) (span : Span)
  | exportImport (name external : Identifier) (span : Span)
  | expression (value : Expr)
  | for_ (init : Option Stmt) (condition step : Option Expr) (body : Stmt) (span : Span)
  | forOf (variable_ : Stmt) (iterable : Expr) (body : Stmt) (span : Span)
  | if_ (condition : Expr) (yes : Stmt) (no : Option Stmt) (span : Span)
  | import_ (import_ : Import)
  | return_ (value : Option Expr) (span : Span)
  | switch (condition : Expr) (cases : List SwitchCase) (span : Span)
  | throw (value : Expr) (span : Span)
  | try_ (body : List Stmt) (variable_ : Option Identifier) (catch_ finally_ : Option (List Stmt))
      (span : Span)
  | variable_ (decorators : Option (List Decorator)) (declarations : List Variable) (span : Span)
  | void (value : Expr) (span : Span)
  | while_ (condition : Expr) (body : Stmt) (span : Span)
  /-- Sets the module name of the declarations after it. -/
  | module_ (name : String) (flags : Flags) (span : Span)
  | class_ (declaration : Class)
  | enum (declaration : Enum)
  | field (declaration : Field)
  | function (declaration : Function)
  | namespace_ (declaration : Namespace)
  | typeAlias (declaration : TypeAlias)

end

instance : Inhabited NamedType := ⟨⟨default, none, false, default⟩⟩

instance : Inhabited TypeNode := ⟨.named default⟩

instance : Inhabited FunctionType := ⟨⟨[], default, none, false, default⟩⟩

instance : Inhabited TypeParameter := ⟨⟨default, none, none, default⟩⟩

instance : Inhabited Parameter := ⟨⟨.plain, default, default, none, none, default, default⟩⟩

instance : Inhabited Expr := ⟨.omitted default⟩

instance : Inhabited Decorator := ⟨⟨.custom, default, none, default⟩⟩

instance : Inhabited Class := ⟨⟨default, false, none, none, none, none, [], none⟩⟩

instance : Inhabited IndexSignature := ⟨⟨default, default, default, default⟩⟩

instance : Inhabited Function := ⟨⟨default, false, none, none, default, none, .none⟩⟩

instance : Inhabited Enum := ⟨⟨default, none, []⟩⟩

instance : Inhabited EnumValue := ⟨⟨default, none⟩⟩

instance : Inhabited Field := ⟨⟨default, none, none, none, none⟩⟩

instance : Inhabited Namespace := ⟨⟨default, none, []⟩⟩

instance : Inhabited TypeAlias := ⟨⟨default, none, none, default⟩⟩

instance : Inhabited Variable := ⟨⟨default, none, none, none⟩⟩

instance : Inhabited SwitchCase := ⟨⟨none, [], default⟩⟩

instance : Inhabited Stmt := ⟨.empty default⟩

end TypedScript.Syntax
