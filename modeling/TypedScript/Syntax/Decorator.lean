import TypedScript.Syntax.Tree

/-! # Decorators

The kind of a decorator is read off its name: an identifier, or a property of an identifier, that is
built in. Any other decorator is custom.
-/

namespace TypedScript.Syntax

namespace DecoratorKind

/-- The kinds whose names are identifiers. -/
def ofIdentifier : String → DecoratorKind
  | "builtin" => .builtin
  | "external" => .external
  | "final" => .final
  | "global" => .global
  | "inline" => .inline
  | "lazy" => .lazy
  | "operator" => .operator
  | "unmanaged" => .unmanaged
  | "unsafe" => .unchecked
  | _ => .custom

/-- The kinds whose names are properties. -/
def ofProperty : String → String → DecoratorKind
  | "operator", "binary" => .operatorBinary
  | "operator", "prefix" => .operatorPrefix
  | "operator", "postfix" => .operatorPostfix
  | "external", "js" => .externalJs
  | _, _ => .custom

def ofName : Expr → DecoratorKind
  | .identifier id => ofIdentifier id.text
  | .property (.identifier owner) name _ => ofProperty owner.text name.text
  | _ => .custom

end DecoratorKind

def Decorator.new (name : Expr) (arguments : Option (List Expr)) (span : Span) : Decorator :=
  ⟨.ofName name, name, arguments, span⟩

def findDecorator? (kind : DecoratorKind) (decorators : Option (List Decorator)) : Option Decorator :=
  (decorators.getD []).find? fun d => d.kind == kind

end TypedScript.Syntax
