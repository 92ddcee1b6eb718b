import TypedScript.Syntax.Decorator

/-! # Declarations

What declarations of all kinds have in common: a head and perhaps decorators. Values of an enum and
imported names have no decorators.
-/

namespace TypedScript.Syntax

def Parameter.new (kind : ParameterKind) (name : Identifier) (type : TypeNode)
    (initializer : Option Expr) (span : Span) : Parameter :=
  ⟨kind, name, type, initializer, none, .empty, span⟩

def Parameter.is (p : Parameter) (flags : Flags) : Bool :=
  p.flags.contains flags

def Parameter.isAny (p : Parameter) (flags : Flags) : Bool :=
  p.flags.intersects flags

def Parameter.set (p : Parameter) (flags : Flags) : Parameter :=
  { p with flags := p.flags.union flags }

/-- Lets the parameter declare a field. -/
def Parameter.declare (p : Parameter) (field : Field) : Parameter :=
  { p with field := some field }

def Class.isGeneric (d : Class) : Bool :=
  d.typeParameters.any fun l => !l.isEmpty

def Function.isGeneric (d : Function) : Bool :=
  d.typeParameters.any fun l => !l.isEmpty

def SwitchCase.isDefault (c : SwitchCase) : Bool :=
  c.label.isNone

inductive Declaration where
  | class_ (declaration : Class)
  | function (declaration : Function)
  | enum (declaration : Enum)
  | enumValue (declaration : EnumValue)
  | field (declaration : Field)
  | import_ (declaration : ImportBinding)
  | namespace_ (declaration : Namespace)
  | typeAlias (declaration : TypeAlias)
  | variable_ (declaration : Variable)

namespace Declaration

def kind : Declaration → NodeKind
  | .class_ d => if d.isInterface then .interfaceDeclaration else .classDeclaration
  | .function d => if d.isMethod then .methodDeclaration else .functionDeclaration
  | .enum _ => .enumDeclaration
  | .enumValue _ => .enumValueDeclaration
  | .field _ => .fieldDeclaration
  | .import_ _ => .importDeclaration
  | .namespace_ _ => .namespaceDeclaration
  | .typeAlias _ => .typeDeclaration
  | .variable_ _ => .variableDeclaration

def head : Declaration → Head
  | .class_ d => d.head
  | .function d => d.head
  | .enum d => d.head
  | .enumValue d => d.head
  | .field d => d.head
  | .import_ d => d.head
  | .namespace_ d => d.head
  | .typeAlias d => d.head
  | .variable_ d => d.head

def mapHead (f : Head → Head) : Declaration → Declaration
  | .class_ d => .class_ { d with head := f d.head }
  | .function d => .function { d with head := f d.head }
  | .enum d => .enum { d with head := f d.head }
  | .enumValue d => .enumValue { d with head := f d.head }
  | .field d => .field { d with head := f d.head }
  | .import_ d => .import_ { d with head := f d.head }
  | .namespace_ d => .namespace_ { d with head := f d.head }
  | .typeAlias d => .typeAlias { d with head := f d.head }
  | .variable_ d => .variable_ { d with head := f d.head }

def decorators : Declaration → Option (List Decorator)
  | .class_ d => d.decorators
  | .function d => d.decorators
  | .enum d => d.decorators
  | .field d => d.decorators
  | .namespace_ d => d.decorators
  | .typeAlias d => d.decorators
  | .variable_ d => d.decorators
  | .enumValue _ | .import_ _ => none

def span (d : Declaration) : Span :=
  d.head.span

end Declaration

end TypedScript.Syntax
