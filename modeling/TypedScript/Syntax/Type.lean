import TypedScript.Syntax.Tree

/-! # Types

Queries on type nodes. A type mentions a name if the name stands for a part of it by itself: type
arguments hide the name they are applied to, and a qualified name is no mention of its parts.
-/

namespace TypedScript.Syntax

namespace NamedType

/-- Whether the type has an argument; an empty list of arguments is none. -/
def hasArguments (t : NamedType) : Bool :=
  t.arguments.any fun l => !l.isEmpty

end NamedType

mutual

def NamedType.mentions (names : List String) : NamedType → Bool
  | ⟨name, arguments, _, _⟩ =>
    if name.isQualified then false
    else
      match arguments with
      | some (a :: more) => a.mentions names || typesMention names more
      | _ => names.contains name.text

def FunctionType.mentions (names : List String) : FunctionType → Bool
  | ⟨parameters, result, this, _, _⟩ =>
    parametersMention names parameters || result.mentions names ||
      match this with
      | some t => t.mentions names
      | none => false

def TypeNode.mentions (names : List String) : TypeNode → Bool
  | .named t => t.mentions names
  | .function t => t.mentions names

def Parameter.mentions (names : List String) : Parameter → Bool
  | ⟨_, _, type, _, _, _, _⟩ => type.mentions names

def typesMention (names : List String) : List TypeNode → Bool
  | [] => false
  | t :: more => t.mentions names || typesMention names more

def parametersMention (names : List String) : List Parameter → Bool
  | [] => false
  | p :: more => p.mentions names || parametersMention names more

end

namespace TypeNode

def kind : TypeNode → NodeKind
  | .named _ => .namedType
  | .function _ => .functionType

def span : TypeNode → Span
  | .named t => t.span
  | .function t => t.span

def isNullable : TypeNode → Bool
  | .named t => t.isNullable
  | .function t => t.isNullable

/-- The type in the place of one that is left out: a named type with the empty name. -/
def blank (span : Span) : TypeNode :=
  .named ⟨.simple "" span, none, false, span⟩

def isBlank : TypeNode → Bool
  | .named t => !t.name.isQualified && t.name.text.isEmpty
  | .function _ => false

/-- Whether the type depends on one of the type parameters. -/
def isGeneric (t : TypeNode) (parameters : List TypeParameter) : Bool :=
  t.mentions (parameters.map fun p => p.name.text)

end TypeNode

end TypedScript.Syntax
