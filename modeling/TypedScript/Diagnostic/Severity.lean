/-! # Severity of diagnostics

Severities are ordered from the least to the most serious, and each has a label and a colour for
terminals.
-/

namespace TypedScript.Diagnostic

inductive Severity where
  | pedantic | info | warning | error
deriving DecidableEq, Repr, Inhabited

namespace Severity

def all : List Severity := [.pedantic, .info, .warning, .error]

instance : Ord Severity where
  compare a b := compare a.ctorIdx b.ctorIdx

def name : Severity → String
  | .pedantic => "Pedantic"
  | .info => "Info"
  | .warning => "Warning"
  | .error => "Error"

def label : Severity → String
  | .pedantic => "PEDANTIC"
  | .info => "INFO"
  | .warning => "WARNING"
  | .error => "ERROR"

/-- The terminal sequence that begins the colour. -/
def color : Severity → String
  | .pedantic => "\x1b[95m"
  | .info => "\x1b[96m"
  | .warning => "\x1b[93m"
  | .error => "\x1b[91m"

end Severity

/-- The terminal sequence that ends a colour. -/
def colorEnd : String := "\x1b[0m"

/-- A text in the colour of a severity, or plain. -/
def paint (colors : Bool) (severity : Severity) (text : String) : String :=
  if colors then severity.color ++ text ++ colorEnd else text

end TypedScript.Diagnostic
