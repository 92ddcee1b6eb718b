import TypedScript.Syntax.Type

/-! # Expressions

Queries on expressions that need no look at names or types: kinds, spans, the classes of literals, access
on `this` and `super`, and the span of the arguments of a call.
-/

namespace TypedScript.Syntax

/-- The span over a list of arguments is taken from its ends; without arguments it is `span`. -/
def argumentsSpan (span : Span) : List Span → Except SpanError Span
  | [] => .ok span
  | [only] => .ok only
  | first :: next :: more => first.join ((next :: more).getLastD next)

namespace Expr

def literalKind? : Expr → Option LiteralKind
  | .float .. => some .float
  | .integer .. => some .integer
  | .string .. => some .string
  | .template .. => some .template
  | .regexp .. => some .regexp
  | .array .. => some .array
  | .object .. => some .object
  | _ => none

def isLiteral (e : Expr) (kind : LiteralKind) : Bool :=
  e.literalKind? == some kind

def kind : Expr → NodeKind
  | .identifier .. => .identifier
  | .float .. | .integer .. | .string .. | .template .. | .regexp .. | .array .. | .object .. =>
    .literal
  | .assertion .. => .assertion
  | .binary .. => .binary
  | .call .. => .call
  | .class_ .. => .class_
  | .comma .. => .comma
  | .element .. => .elementAccess
  | .function .. => .function
  | .instanceOf .. => .instanceOf
  | .new .. => .new
  | .omitted .. => .omitted
  | .parenthesized .. => .parenthesized
  | .property .. => .propertyAccess
  | .ternary .. => .ternary
  | .postfixOp .. => .unaryPostfix
  | .prefixOp .. => .unaryPrefix
  | .word w _ => w.kind
  | .compiled .. => .compiled

/-- Classes and functions have the span of their declaration. -/
def span : Expr → Span
  | .identifier id => id.span
  | .string literal => literal.span
  | .class_ d => d.head.span
  | .function d => d.head.span
  | .float _ s | .integer _ s | .template _ _ _ _ s | .regexp _ _ s | .array _ s | .object _ _ s
  | .assertion _ _ _ s | .binary _ _ _ s | .call _ _ _ s | .comma _ s | .element _ _ s
  | .instanceOf _ _ s | .new _ _ _ s | .omitted s | .parenthesized _ s | .property _ _ s
  | .ternary _ _ _ s | .postfixOp _ _ s | .prefixOp _ _ s | .word _ s | .compiled _ _ s => s

def isNumber (e : Expr) : Bool :=
  e.isLiteral .float || e.isLiteral .integer

/-- Whether a code generator can write the expression as a constant. -/
def isConstant : Expr → Bool
  | .float .. | .integer .. | .string .. => true
  | .word .null _ | .word .true_ _ | .word .false_ _ => true
  | _ => false

/-- What a call calls; any other expression stands for itself. -/
def target : Expr → Expr
  | .call callee _ _ _ => callee
  | e => e

/-- Whether the expression is a property of the word, or a call of one. -/
def isAccessOn (e : Expr) (word : ValueWord) : Bool :=
  match e.target with
  | .property owner _ _ => owner.kind == word.kind
  | _ => false

def identifierText? : Expr → Option String
  | .identifier id => some id.text
  | .word w _ => some w.text
  | _ => none

def argumentsSpan? : Expr → Option (Except SpanError Span)
  | .call callee _ arguments _ => some (argumentsSpan callee.span (arguments.map span))
  | .new type _ arguments _ => some (argumentsSpan type.span (arguments.map span))
  | _ => none

def typeArgumentsSpan? : Expr → Option (Except SpanError Span)
  | .call callee types _ _ => some (argumentsSpan callee.span ((types.getD []).map TypeNode.span))
  | .new type types _ _ => some (argumentsSpan type.span ((types.getD []).map TypeNode.span))
  | _ => none

/-- Moves a compiled expression to another place; any other expression stays as it is. -/
def setCompiled (expression type : Nat) : Expr → Expr
  | .compiled _ _ span => .compiled expression type span
  | e => e

end Expr

end TypedScript.Syntax
