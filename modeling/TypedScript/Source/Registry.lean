import TypedScript.Source

/-! # The registry of sources

Sources are registered in order and never removed, so the number a source gets is its place in the
registry for good. The source of built-in code is registered when it is first asked for.
-/

namespace TypedScript

structure Registry where
  sources : Array Source
  nativeId : Option SourceId

namespace Registry

def empty : Registry := ⟨#[], none⟩

instance : Inhabited Registry := ⟨empty⟩

def size (r : Registry) : Nat :=
  r.sources.size

def isEmpty (r : Registry) : Bool :=
  r.sources.isEmpty

def add (r : Registry) (kind : SourceKind) (path text : String) : SourceId × Registry :=
  let id := r.size
  (id, { r with sources := r.sources.push (.new id kind path text) })

/-- The source of built-in code. -/
def native (r : Registry) : SourceId × Registry :=
  match r.nativeId with
  | some id => (id, r)
  | none =>
    let (id, r) := r.add .libraryEntry Source.nativePath Source.nativeText
    (id, { r with nativeId := some id })

def source? (r : Registry) (id : SourceId) : Option Source :=
  r.sources[id]?

/-- Puts a source in the place of the one with the same number. -/
def update (r : Registry) (s : Source) : Registry :=
  { r with sources := r.sources.setIfInBounds s.id s }

/-- A span with its source, if that is registered. -/
def resolve (r : Registry) (span : Span) : Option (Span × Source) :=
  (r.source? span.source).map fun s => (span, s)

/-- The text of a span, if its source is registered. -/
def text? (r : Registry) (span : Span) : Option String :=
  (r.source? span.source).map fun s => s.slice span.start span.stop

end Registry

end TypedScript
