import TypedScript.Path
import TypedScript.Syntax.Name

/-! # Imports and exports

A statement that names another module by a path literal keeps the internal path of that module. A path
that begins with a point is read from the place of the file it stands in; any other path is the path of
a library.
-/

namespace TypedScript.Syntax

/-- The path of the module that a literal names in the file with the internal path `origin`. -/
def modulePath (origin literal : String) : String :=
  let path := Path.normalize literal
  if literal.toList.head? = some '.' then Path.resolve path origin
  else if Path.libraryStart.toList.isPrefixOf path.toList then path
  else Path.libraryStart ++ path

/-- A name that an import brings in, with the name it has in its own module. -/
structure ImportBinding where
  head : Head
  foreign : Identifier
deriving DecidableEq, Repr, Inhabited

/-- The local name is the foreign one unless another is given. -/
def ImportBinding.new (foreign : Identifier) (local? : Option Identifier) (span : Span) :
    ImportBinding :=
  ⟨.new (local?.getD foreign) .empty span, foreign⟩

/-- An import of single names or of a whole module as a namespace. -/
structure Import where
  bindings : Option (List ImportBinding)
  namespace_ : Option Identifier
  path : StringLiteral
  internalPath : String
  span : Span
deriving DecidableEq, Repr, Inhabited

namespace Import

def ofParts (origin : String) (bindings : Option (List ImportBinding))
    (namespace_ : Option Identifier) (path : StringLiteral) (span : Span) : Import :=
  ⟨bindings, namespace_, path, Path.internal (modulePath origin path.value), span⟩

def names (origin : String) (bindings : Option (List ImportBinding)) (path : StringLiteral)
    (span : Span) : Import :=
  ofParts origin bindings none path span

def wildcard (origin : String) (name : Identifier) (path : StringLiteral) (span : Span) : Import :=
  ofParts origin none (some name) path span

end Import

structure ExportMember where
  local_ : Identifier
  exported : Identifier
  span : Span
deriving DecidableEq, Repr, Inhabited

/-- The exported name is the local one unless another is given. -/
def ExportMember.new (local_ : Identifier) (exported? : Option Identifier) (span : Span) :
    ExportMember :=
  ⟨local_, exported?.getD local_, span⟩

/-- An export of names of the file itself, or of another module if it has a path. -/
structure Export where
  members : Option (List ExportMember)
  path : Option StringLiteral
  isDeclare : Bool
  internalPath : Option String
  span : Span
deriving DecidableEq, Repr, Inhabited

def Export.new (origin : String) (members : Option (List ExportMember))
    (path : Option StringLiteral) (isDeclare : Bool) (span : Span) : Export :=
  ⟨members, path, isDeclare, path.map fun p => modulePath origin p.value, span⟩

end TypedScript.Syntax
