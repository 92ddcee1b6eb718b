import TypedScript.Flags
import TypedScript.Span

/-! # Names

Identifiers, possibly qualified type names, and what every declaration has beside its decorators: a
name, flags, and the name of the module that a `module` statement in front of it sets.
-/

namespace TypedScript.Syntax

structure Identifier where
  text : String
  isQuoted : Bool
  span : Span
deriving DecidableEq, Repr, Inhabited

/-- The identifier in the place of a name that is left out. -/
def Identifier.blank (span : Span) : Identifier :=
  ⟨"", false, span⟩

/-- A part of a type name; its span runs to the end of the name. -/
structure NamePart where
  identifier : Identifier
  span : Span
deriving DecidableEq, Repr, Inhabited

/-- A type name is one part or several with points between them. -/
structure TypeName where
  first : NamePart
  more : List NamePart
deriving DecidableEq, Repr, Inhabited

namespace TypeName

def simple (text : String) (span : Span) : TypeName :=
  ⟨⟨⟨text, false, span⟩, span⟩, []⟩

def isQualified (n : TypeName) : Bool :=
  !n.more.isEmpty

def span (n : TypeName) : Span :=
  n.first.span

def text (n : TypeName) : String :=
  n.first.identifier.text

end TypeName

structure StringLiteral where
  value : String
  span : Span
deriving DecidableEq, Repr, Inhabited

structure Head where
  name : Identifier
  flags : Flags
  moduleName : Option String
  span : Span
deriving DecidableEq, Repr, Inhabited

namespace Head

def new (name : Identifier) (flags : Flags) (span : Span) : Head :=
  ⟨name, flags, none, span⟩

def is (h : Head) (flags : Flags) : Bool :=
  h.flags.contains flags

def isAny (h : Head) (flags : Flags) : Bool :=
  h.flags.intersects flags

def set (h : Head) (flags : Flags) : Head :=
  { h with flags := h.flags.union flags }

def setModule (h : Head) (name : String) : Head :=
  { h with moduleName := some name }

end Head

end TypedScript.Syntax
