import Bindery.Program.Id
/-!
# Types

A type is a symbol seen through pointers and references. `TypeTable` numbers the types that have come up so far; the
type that a pointer or a reference leads to has come up before it.
-/
namespace Bindery

/-- The type of a value. `unknown` is the type of what could not be typed. -/
inductive Ty where
  | unknown
  | direct (symbol : SymbolId)
  | pointer (pointee : Ty)
  | reference (pointee : Ty)
  deriving DecidableEq, Repr, Inhabited

namespace Ty

def isUnknown : Ty → Bool
  | .unknown => true
  | _ => false

def isPointer : Ty → Bool
  | .pointer _ => true
  | _ => false

def isReference : Ty → Bool
  | .reference _ => true
  | _ => false

/-- What a pointer or a reference leads to. -/
def pointee? : Ty → Option Ty
  | .pointer pointee | .reference pointee => some pointee
  | _ => none

/-- Whether the type is a pointer or a reference. -/
def isIndirect (ty : Ty) : Bool := ty.pointee?.isSome

/-- What a reference leads to; any other type is itself. -/
def stripReference : Ty → Ty
  | .reference pointee => pointee
  | ty => ty

/-- The symbol of a type without indirections. -/
def symbol? : Ty → Option SymbolId
  | .direct symbol => some symbol
  | _ => none

/-- The symbol under all indirections. -/
def base? : Ty → Option SymbolId
  | .unknown => none
  | .direct symbol => some symbol
  | .pointer pointee | .reference pointee => base? pointee

/-- The number of indirections. -/
def depth : Ty → Nat
  | .unknown | .direct _ => 0
  | .pointer pointee | .reference pointee => depth pointee + 1

/-- The indirections, innermost first: a star for a pointer, an ampersand for a reference. -/
def marks : Ty → String
  | .unknown | .direct _ => ""
  | .pointer pointee => marks pointee ++ "*"
  | .reference pointee => marks pointee ++ "&"

/-- The types on the way to the innermost one, the type itself first. -/
def unfold : Ty → List Ty
  | .unknown => [.unknown]
  | .direct symbol => [.direct symbol]
  | .pointer pointee => .pointer pointee :: unfold pointee
  | .reference pointee => .reference pointee :: unfold pointee

end Ty

/-- The types that have come up so far, in the order in which they did. -/
structure TypeTable where
  types : List Ty
  deriving DecidableEq, Repr

namespace TypeTable

/-- Adds one type, unless the table has it. -/
def add (table : TypeTable) (ty : Ty) : TypeTable :=
  if ty ∈ table.types then table else ⟨table.types ++ [ty]⟩

/-- Adds a type and, before it, the types that it leads to. -/
def insert (table : TypeTable) (ty : Ty) : TypeTable := ty.unfold.reverse.foldl add table

/-- The number of a type. -/
def number? (table : TypeTable) (ty : Ty) : Option Nat := table.types.idxOf? ty

def size (table : TypeTable) : Nat := table.types.length

end TypeTable

end Bindery
