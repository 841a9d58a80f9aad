import Bindery.Number.Decimal
import Bindery.Number.Residue
/-!
# Constant values

What a constant expression denotes. Two floating-point constants are the same value when their bits are.
-/
namespace Bindery

/-- A value known when the program is bound. -/
inductive ConstValue where
  | int (value : Int)
  | float (value : Double)
  | bool (value : Bool)
  | null
  deriving DecidableEq, Repr

namespace ConstValue

instance : Inhabited ConstValue := ⟨.null⟩

/-- The integer that a value is, a truth value counting as zero or one. -/
def asInt? : ConstValue → Option Int
  | .int value => some value
  | .bool value => some (if value then 1 else 0)
  | _ => none

/-- The double nearest to a number. -/
def asFloat? : ConstValue → Option Double
  | .float value => some value
  | .int value => some (.ofInt value)
  | _ => none

/-- Whether a value counts as true. -/
def isTruthy : ConstValue → Bool
  | .int value => value ≠ 0
  | .float value => !value.isZero
  | .bool value => value
  | .null => false

def describe : ConstValue → String
  | .int value => toString value
  | .float value => value.describe
  | .bool value => if value then "true" else "false"
  | .null => "null"

end ConstValue

end Bindery
