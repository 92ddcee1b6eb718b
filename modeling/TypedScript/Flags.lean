/-! # Flags of declarations and parameters

A set of modifiers written in the source and of states that later phases record. Each flag is one bit;
the modifiers come first.
-/

namespace TypedScript

inductive Flag where
  | import_ | export_ | declare | const | let_ | static | readonly | abstract | public_ | private_
  | protected_ | get | set | override | definitelyAssigned | ambient | generic | genericContext
  | instance_ | constructor | moduleExport | moduleImport | resolved | compiled | errored | inlined
  | scoped | stub | virtualOverload | closure
deriving DecidableEq, Repr

def Flag.all : List Flag :=
  [.import_, .export_, .declare, .const, .let_, .static, .readonly, .abstract, .public_, .private_,
   .protected_, .get, .set, .override, .definitelyAssigned, .ambient, .generic, .genericContext,
   .instance_, .constructor, .moduleExport, .moduleImport, .resolved, .compiled, .errored, .inlined,
   .scoped, .stub, .virtualOverload, .closure]

def Flag.name : Flag → String
  | .import_ => "IMPORT"
  | .export_ => "EXPORT"
  | .declare => "DECLARE"
  | .const => "CONST"
  | .let_ => "LET"
  | .static => "STATIC"
  | .readonly => "READONLY"
  | .abstract => "ABSTRACT"
  | .public_ => "PUBLIC"
  | .private_ => "PRIVATE"
  | .protected_ => "PROTECTED"
  | .get => "GET"
  | .set => "SET"
  | .override => "OVERRIDE"
  | .definitelyAssigned => "DEFINITELY_ASSIGNED"
  | .ambient => "AMBIENT"
  | .generic => "GENERIC"
  | .genericContext => "GENERIC_CONTEXT"
  | .instance_ => "INSTANCE"
  | .constructor => "CONSTRUCTOR"
  | .moduleExport => "MODULE_EXPORT"
  | .moduleImport => "MODULE_IMPORT"
  | .resolved => "RESOLVED"
  | .compiled => "COMPILED"
  | .errored => "ERRORED"
  | .inlined => "INLINED"
  | .scoped => "SCOPED"
  | .stub => "STUB"
  | .virtualOverload => "VIRTUAL_OVERLOAD"
  | .closure => "CLOSURE"

structure Flags where
  bits : BitVec 30
deriving DecidableEq, Repr

namespace Flags

def empty : Flags := ⟨0⟩

def all : Flags := ⟨BitVec.allOnes 30⟩

instance : Inhabited Flags := ⟨empty⟩

/-- The known bits of a number. -/
def ofNat (n : Nat) : Flags := ⟨BitVec.ofNat 30 n⟩

/-- Whether a number has known bits only. -/
def isKnown (n : Nat) : Bool := n < 0x40000000

def toNat (a : Flags) : Nat := a.bits.toNat

def single (f : Flag) : Flags := ⟨BitVec.twoPow 30 f.ctorIdx⟩

def union (a b : Flags) : Flags := ⟨a.bits ||| b.bits⟩

def contains (a b : Flags) : Bool := a.bits &&& b.bits == b.bits

def intersects (a b : Flags) : Bool := a.bits &&& b.bits != 0

def isEmpty (a : Flags) : Bool := a.bits == 0

def isAll (a : Flags) : Bool := a.contains all

/-- The flags of a set, lowest bit first. -/
def toList (a : Flags) : List Flag :=
  Flag.all.filter fun f => a.contains (single f)

def access : Flags :=
  (single .public_).union ((single .private_).union (single .protected_))

end Flags

end TypedScript
