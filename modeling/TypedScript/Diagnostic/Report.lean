import TypedScript.Diagnostic.Excerpt
import TypedScript.Diagnostic.Message
import TypedScript.Source.Registry

/-! # Reports

The text of a message for a reader: its label and coded number, and for each span with a known source
the path and place, behind an excerpt if the style asks for one. The two excerpts of one message share
the width of their line numbers. A report fails only for a span that starts where no place is.
-/

namespace TypedScript.Diagnostic

structure Style where
  colors : Bool
  excerpts : Bool
deriving DecidableEq, Repr, Inhabited

/-- Neither colours nor excerpts. -/
def Style.plain : Style := ⟨false, false⟩

/-- The excerpt for a span of a source; the line numbers are as wide as the widest of the two. -/
def excerptText (source : Source) (span : Span) (widest : Option Nat) (colors : Bool) :
    Except PlaceError String := do
  let p ← source.place span.start
  let e := Excerpt.ofOffsets source.text.toList span.start span.stop
  return "\n".intercalate
    (e.rows span.isEmpty p.line (Excerpt.gutter p.line widest) colors source.path)

/-- The path and place of a span, on lines of their own. -/
def locationText (style : Style) (widest : Option Nat) (source : Source) (span : Span) :
    Except PlaceError String := do
  let path ← if style.excerpts then excerptText source span widest style.colors
    else .ok (" in " ++ source.path)
  let p ← source.place span.start
  return s!"\n{path}({p.line},{p.column})"

namespace Message

/-- The label, mark and number in front of the text. -/
def headline (m : Message) (colors : Bool) : String :=
  paint colors m.severity m.severity.label ++ s!" {m.code.mark}{m.code.number}: {m.text}"

def report (m : Message) (registry : Registry) (style : Style) : Except PlaceError String := do
  let headline := m.headline style.colors
  let some (span, source) := m.span.bind registry.resolve | return headline
  match m.related.bind registry.resolve with
  | none => return headline ++ (← locationText style none source span)
  | some (related, relatedSource) =>
    let p ← source.place span.start
    let q ← relatedSource.place related.start
    let widest := some (max p.line q.line)
    return headline ++ (← locationText style widest source span) ++
      (← locationText style widest relatedSource related)

/-- The message on one line, with the path, place and length of its span if the source is known. -/
def located (m : Message) (registry : Registry) : Except PlaceError String := do
  let some (span, source) := m.span.bind registry.resolve | return m.line
  let p ← source.place span.start
  return s!"{m.severity.label} {m.code.number}: \"{m.text}\" in " ++
    s!"{source.path}({p.line},{p.column}+{span.length})"

end Message

end TypedScript.Diagnostic
