import TypedScript.Diagnostic.Report

/-! # Reports on a terminal

All reports of a run, each with an empty line behind it, and a summary of how many errors and warnings
there were.
-/

namespace TypedScript.Diagnostic

/-- When to colour the output. -/
inductive ColorMode where
  | auto | always | never
deriving DecidableEq, Repr, Inhabited

def ColorMode.all : List ColorMode :=
  [.auto, .always, .never]

def ColorMode.name : ColorMode → String
  | .auto => "Auto"
  | .always => "Always"
  | .never => "Never"

def ColorMode.colors (mode : ColorMode) (isTerminal : Bool) : Bool :=
  match mode with
  | .auto => isTerminal
  | .always => true
  | .never => false

/-- Excerpts are shown unless the style is changed. -/
def Style.ofMode (mode : ColorMode) (isTerminal : Bool) : Style :=
  ⟨mode.colors isTerminal, true⟩

def reports (messages : List Message) (registry : Registry) (style : Style) :
    Except PlaceError String := do
  let texts ← messages.mapM fun m => m.report registry style
  return String.join (texts.map (· ++ "\n\n"))

/-- A number and a noun that agrees with it. -/
def counted (n : Nat) (noun : String) : String :=
  s!"{n} {noun}" ++ if n = 1 then "" else "s"

/-- The summary is empty if there were neither errors nor warnings. -/
def summary (colors : Bool) (errors warnings : Nat) : String :=
  if errors > 0 then
    paint colors .error Severity.error.label ++ ": " ++ counted errors "error" ++
      (if warnings > 0 then ", " ++ counted warnings "warning" else "") ++ "\n"
  else if warnings > 0 then
    paint colors .warning Severity.warning.label ++ ": " ++ counted warnings "warning" ++ "\n"
  else ""

end TypedScript.Diagnostic
