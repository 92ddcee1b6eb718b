import TypedScript.Lexer.Lexeme

/-! # Runs of a lexer

A run takes one lexeme after the other, and the caller chooses anew for each token how it is
looked for and read. In a run over one text the segments of a template may be read apart:
then each template has a reader of its own, which goes on behind the brace that closes an
interpolation.
-/

namespace TypedScript.Lexer

def afterTokens (choice : Nat → Choice) (l : Lexer) : Nat → Lexer
  | 0 => l
  | n + 1 => ((l.afterTokens choice n).readNext (choice n)).2

def lexemeAt (choice : Nat → Choice) (l : Lexer) (n : Nat) : Lexeme :=
  ((l.afterTokens choice n).readNext (choice n)).1

def Nested.run (choice : Nat → Choice) (s : Nested) : Nat → List Item × Nested
  | 0 => ([], s)
  | n + 1 =>
    let (items, last) := s.run choice n
    let (more, next) := last.readNext (choice n)
    (items ++ more, next)

inductive Operation where
  | next (handling : WordHandling)
  | peek (noteNewLine : Bool) (handling : WordHandling) (limit : Nat)
  | skip (token : Token) (handling : WordHandling)
  | identifier
  | string (quote? : Option UInt8) (tagged : Bool)
  | escape (tagged : Bool)
  | integer
  | float
  | pattern
  | flags
  | afterNumber

inductive Outcome where
  | none
  | token (token : Token)
  | flag (found : Bool)
  | text (text : String)
  | integer (value : UInt64)
  | float (value : Float)

def Operation.apply (op : Operation) (l : Lexer) : Outcome × Lexer :=
  match op with
  | .next handling => (l.next handling).map .token id
  | .peek noteNewLine handling limit => (l.peek noteNewLine handling limit).map .token id
  | .skip token handling => (l.skip token handling).map .flag id
  | .identifier => l.takeIdentifier.map .text id
  | .string quote? tagged => (l.takeString quote? tagged).map .text id
  | .escape tagged => (l.takeEscape tagged).map .text id
  | .integer => l.takeInteger.map .integer id
  | .float => l.takeFloat.map .float id
  | .pattern => l.takePattern.map .text id
  | .flags => l.takeRegexpFlags.map .text id
  | .afterNumber => (.none, l.checkAfterNumber)

/-- What a caller sees of one operation: its outcome, and the token and place that it
leaves. -/
structure Observation where
  outcome : Outcome
  token : Token
  tokenPos : Nat
  pos : Nat

def trace : List Operation → Lexer → List Observation × Lexer
  | [], l => ([], l)
  | op :: ops, l =>
    let (outcome, next) := op.apply l
    let (seen, last) := trace ops next
    (⟨outcome, next.token, next.tokenPos, next.pos⟩ :: seen, last)

inductive Probe where
  | peek (noteNewLine : Bool) (handling : WordHandling) (limit : Nat)
  | skip (token : Token) (handling : WordHandling)

/-- Whether the probe has moved the lexer, and the lexer after it. -/
def Probe.apply (p : Probe) (l : Lexer) : Bool × Lexer :=
  match p with
  | .peek noteNewLine handling limit => (false, (l.peek noteNewLine handling limit).2)
  | .skip token handling => l.skip token handling

def afterProbes (l : Lexer) (probes : List Probe) : Lexer :=
  probes.foldl (fun l p => (p.apply l).2) l

def noneMoves : List Probe → Lexer → Bool
  | [], _ => true
  | p :: probes, l => !(p.apply l).1 && noneMoves probes (p.apply l).2

def runProbed : List (List Probe × Choice) → Lexer → List Lexeme × Lexer
  | [], l => ([], l)
  | (probes, choice) :: steps, l =>
    let (x, next) := (l.afterProbes probes).readNext choice
    let (rest, last) := runProbed steps next
    (x :: rest, last)

def noProbeMoves : List (List Probe × Choice) → Lexer → Bool
  | [], _ => true
  | (probes, choice) :: steps, l =>
    noneMoves probes l && noProbeMoves steps ((l.afterProbes probes).readNext choice).2

end TypedScript.Lexer
