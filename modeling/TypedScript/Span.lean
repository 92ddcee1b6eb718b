/-! # Spans

A span is a pair of byte offsets into one source. Spans are plain values: one that ends before it
starts can be written down, and `Span.ofOffsets?` is the constructor that refuses it.
-/

namespace TypedScript

/-- The place of a source in the order of registration. -/
abbrev SourceId := Nat

structure Span where
  source : SourceId
  start : Nat
  stop : Nat
deriving DecidableEq, Repr, Inhabited

inductive SpanError where
  | sourceMismatch (left right : SourceId)
  | outOfBounds (start stop : Nat)
deriving DecidableEq, Repr

def SpanError.message : SpanError → String
  | .sourceMismatch left right =>
    s!"source mismatch: cannot join ranges of SourceId({left}) and SourceId({right})"
  | .outOfBounds start stop => s!"invalid range {start}..{stop}"

namespace Span

/-- Offsets are below this bound. -/
def offsetBound : Nat := UInt32.size

def ofOffsets? (source : SourceId) (start stop : Nat) : Except SpanError Span :=
  if start ≤ stop ∧ stop < offsetBound then .ok ⟨source, start, stop⟩
  else .error (.outOfBounds start stop)

/-- The empty span at an offset. -/
def point (source : SourceId) (offset : Nat) : Span :=
  ⟨source, offset, offset⟩

/-- The smallest span that covers both. -/
def join (a b : Span) : Except SpanError Span :=
  if a.source = b.source then .ok ⟨a.source, min a.start b.start, max a.stop b.stop⟩
  else .error (.sourceMismatch a.source b.source)

def atStart (s : Span) : Span :=
  point s.source s.start

def atStop (s : Span) : Span :=
  point s.source s.stop

def length (s : Span) : Nat :=
  s.stop - s.start

def isEmpty (s : Span) : Bool :=
  s.start == s.stop

def contains (s : Span) (offset : Nat) : Bool :=
  s.start ≤ offset && offset < s.stop

def offsetsText (s : Span) : String :=
  s!"{s.start}..{s.stop}"

/-- The offsets behind the number of their source. -/
def fullText (s : Span) : String :=
  s!"{s.source}@{s.offsetsText}"

end Span

end TypedScript
