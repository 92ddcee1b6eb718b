import Std.Data.TreeMap
import TypedScript.Diagnostic.Message

/-! # The log of diagnostics

A log keeps messages in the order of recording and leaves out a message with a span that repeats one
it holds. An index from the source and start of a span to the places of messages in the list keeps
the search for repetitions short.
-/

namespace TypedScript.Diagnostic

/-- The places of messages by source and by start of their span. -/
abbrev Log.Index := Std.TreeMap SourceId (Std.TreeMap Nat (List Nat))

structure Log where
  messages : Array Message
  index : Log.Index

namespace Log

def empty : Log := ⟨#[], ∅⟩

instance : Inhabited Log := ⟨empty⟩

/-- The places of the messages that start where the span does. -/
def placesAt (log : Log) (span : Span) : List Nat :=
  ((log.index.getD span.source ∅).getD span.start [])

/-- Notes the place of the next message under its span. -/
def notePlace (log : Log) (span : Span) : Index :=
  log.index.insert span.source <|
    (log.index.getD span.source ∅).insert span.start (log.messages.size :: log.placesAt span)

def push (log : Log) (m : Message) : Log :=
  match m.span with
  | none => { log with messages := log.messages.push m }
  | some span =>
    if (log.placesAt span).any fun i => log.messages[i]?.any (·.repeats m) then log
    else
      let index := log.notePlace span
      ⟨log.messages.push m, index⟩

def size (log : Log) : Nat :=
  log.messages.size

def errorCount (log : Log) : Nat :=
  log.messages.countP Message.isError

def warningCount (log : Log) : Nat :=
  log.messages.countP Message.isWarning

def hasErrors (log : Log) : Bool :=
  log.messages.any Message.isError

end Log

end TypedScript.Diagnostic
