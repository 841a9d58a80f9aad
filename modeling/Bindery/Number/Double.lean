import Bindery.Number.Binary
/-!
# Doubles

Double-precision numbers as bit patterns. Sums, products, quotients and remainders are computed exactly in units and
rounded once. An operation that has no answer gives `Double.invalid`; an operand that is not a number passes through,
with its quiet bit set.
-/
namespace Bindery

/-- A double-precision number, by its bits. -/
structure Double where
  bits : UInt64
  deriving DecidableEq, Repr

namespace Double

/-- The sign bit. -/
def negative (x : Double) : Bool := pow2 63 ≤ x.bits.toNat

/-- The bits below the sign. -/
def magnitude (x : Double) : Nat := x.bits.toNat % pow2 63

/-- The number with a sign and a magnitude. -/
def ofMagnitude (negative : Bool) (magnitude : Nat) : Double :=
  ⟨UInt64.ofNat (magnitude % pow2 63 + if negative then pow2 63 else 0)⟩

def zero : Double := ⟨0⟩

instance : Inhabited Double := ⟨zero⟩

def infinity (negative : Bool) : Double := ofMagnitude negative Format.double.infinity

/-- The value, not a number, that a literal denotes. -/
def nan : Double := ⟨0x7ff8000000000000⟩

/-- The value, not a number, of an operation without an answer. -/
def invalid : Double := ⟨0xfff8000000000000⟩

def isNaN (x : Double) : Bool := Format.double.infinity < x.magnitude

def isInfinite (x : Double) : Bool := x.magnitude == Format.double.infinity

def isZero (x : Double) : Bool := x.magnitude == 0

/-- A value that is not a number, with its quiet bit set. -/
def quiet (x : Double) : Double := ⟨x.bits ||| 0x0008000000000000⟩

/-- The absolute value of a finite number, in units. -/
def units (x : Double) : Nat := Format.double.units x.magnitude

/-- A finite number, in units. -/
def signedUnits (x : Double) : Int := if x.negative then -(x.units : Int) else x.units

/-- The number nearest to `n / d` units, with a sign. -/
def ofUnits (negative : Bool) (n d : Nat) : Double := ofMagnitude negative (Format.double.round n d)

/-- The units of the number one. -/
def one : Nat := pow2 Format.double.unitShift

def neg (x : Double) : Double := ⟨x.bits ^^^ 0x8000000000000000⟩

/-- The first operand that is not a number, quieted. -/
def nanOperand? (x y : Double) : Option Double :=
  if x.isNaN then some x.quiet else if y.isNaN then some y.quiet else none

/-- The sum of two values that are numbers. -/
def addNumbers (x y : Double) : Double :=
  if x.isInfinite then if y.isInfinite && x.negative != y.negative then invalid else x
  else if y.isInfinite then y
  else
    let sum := x.signedUnits + y.signedUnits
    if sum = 0 then ofMagnitude (x.negative && y.negative) 0 else ofUnits (sum < 0) sum.natAbs 1

def add (x y : Double) : Double := (nanOperand? x y).getD (addNumbers x y)

def sub (x y : Double) : Double := (nanOperand? x y).getD (addNumbers x y.neg)

def mul (x y : Double) : Double :=
  (nanOperand? x y).getD <|
    let negative := x.negative != y.negative
    if x.isInfinite || y.isInfinite then if x.isZero || y.isZero then invalid else infinity negative
    else ofUnits negative (x.units * y.units) one

def div (x y : Double) : Double :=
  (nanOperand? x y).getD <|
    let negative := x.negative != y.negative
    if x.isInfinite then if y.isInfinite then invalid else infinity negative
    else if y.isInfinite then ofMagnitude negative 0
    else if y.isZero then if x.isZero then invalid else infinity negative
    else ofUnits negative (x.units * one) y.units

/-- The remainder of the division toward zero; it has the sign of the dividend. -/
def rem (x y : Double) : Double :=
  (nanOperand? x y).getD <|
    if x.isInfinite || y.isZero then invalid
    else if y.isInfinite then x
    else ofUnits x.negative (x.units % y.units) 1

/-- How two numbers compare; nothing compares with a value that is not a number. -/
def compare? (x y : Double) : Option Ordering :=
  if x.isNaN || y.isNaN then none
  else
    let key (z : Double) : Int := if z.negative then -(z.magnitude : Int) else z.magnitude
    some (compare (key x) (key y))

/-- The number nearest to an integer. -/
def ofInt (i : Int) : Double := ofUnits (i < 0) (i.natAbs * one) 1

/-- The integer part, held within `[low, high]`; zero for what is not a number. -/
def truncateTo (low high : Int) (x : Double) : Int :=
  if x.isNaN then 0
  else if x.isInfinite then if x.negative then low else high
  else
    let whole : Int := x.units / one
    max low (min high (if x.negative then -whole else whole))

/-- The magnitude of the nearest single-precision number. Of what is not a number, the leading bits are kept. -/
def singleMagnitude (x : Double) : Nat :=
  if x.isNaN then Format.single.infinity + (pow2 22 ||| (x.magnitude / pow2 29 % pow2 23))
  else if x.isInfinite then Format.single.infinity
  else Format.single.round x.units (pow2 (Format.double.unitShift - Format.single.unitShift))

/-- The bits of the nearest single-precision number. -/
def singleBits (x : Double) : Nat := x.singleMagnitude + if x.negative then pow2 31 else 0

/-- The double that has the value of a single-precision number, given by its bits. -/
def ofSingleBits (bits : Nat) : Double :=
  let magnitude := bits % pow2 31
  let negative := pow2 31 ≤ bits % pow2 32
  if Format.single.infinity < magnitude then
    (ofMagnitude negative (Format.double.infinity + magnitude % pow2 23 * pow2 29)).quiet
  else if magnitude = Format.single.infinity then infinity negative
  else ofUnits negative (Format.single.units magnitude * pow2 (Format.double.unitShift - Format.single.unitShift)) 1

/-- Rounds to single precision. -/
def toSingle (x : Double) : Double := ofSingleBits x.singleBits

end Double

end Bindery
