import Bindery.Number.Double
/-!
# JSON values

A number written without a fraction or an exponent is an integer when it fits 64 bits, signed or unsigned; every other
number is a double. An object keeps its members as written; looking up a key finds the last member that has it.
-/
namespace Bindery

/-- A JSON value. -/
inductive Json where
  | null
  | bool (value : Bool)
  | int (value : Int)
  | float (value : Double)
  | string (value : String)
  | array (items : List Json)
  | object (members : List (String × Json))

namespace Json

instance : Inhabited Json := ⟨.null⟩

/-- The value of the last member with a key. -/
def lookup (key : String) (members : List (String × Json)) : Option Json :=
  (members.reverse.find? (·.1 == key)).map (·.2)

/-- The member of an object with a key; a value that is no object has none. -/
def get? (json : Json) (key : String) : Option Json :=
  match json with
  | .object members => lookup key members
  | _ => none

def bool? : Json → Option Bool
  | .bool value => some value
  | _ => none

def string? : Json → Option String
  | .string value => some value
  | _ => none

def array? : Json → Option (List Json)
  | .array items => some items
  | _ => none

def int? : Json → Option Int
  | .int value => some value
  | _ => none

/-- An integer that is not negative. -/
def nat? : Json → Option Nat
  | .int value => if 0 ≤ value then some value.toNat else none
  | _ => none

/-- Any number, as the nearest double. -/
def double? : Json → Option Double
  | .int value => some (.ofInt value)
  | .float value => some value
  | _ => none

end Json

end Bindery
