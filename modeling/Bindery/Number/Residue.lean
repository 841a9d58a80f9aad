import Bindery.Number.Power
/-!
# Residues

Integers of a fixed width: the representative of an integer modulo a power of two that lies in the range of a signed or
an unsigned type. Constants are computed in 128 signed bits and then reduced to the width of their type.
-/
namespace Bindery

namespace Wide

/-- The representative of an integer in 128 signed bits. -/
def wrap (value : Int) : Int := value.bmod (pow2 128)

/-- The bits of an integer, in 128 places. -/
def bits (value : Int) : Nat := (value % pow2 128).toNat

def add (a b : Int) : Int := wrap (a + b)

def sub (a b : Int) : Int := wrap (a - b)

def mul (a b : Int) : Int := wrap (a * b)

def neg (a : Int) : Int := wrap (-a)

/-- The quotient, toward zero. -/
def div (a b : Int) : Int := wrap (a.tdiv b)

/-- The remainder, with the sign of the dividend. -/
def rem (a b : Int) : Int := wrap (a.tmod b)

def and (a b : Int) : Int := wrap (bits a &&& bits b : Nat)

def or (a b : Int) : Int := wrap (bits a ||| bits b : Nat)

def xor (a b : Int) : Int := wrap (bits a ^^^ bits b : Nat)

def not (a : Int) : Int := wrap (-a - 1)

def shiftLeft (a : Int) (amount : Nat) : Int := wrap (a * pow2 amount)

def shiftRight (a : Int) (amount : Nat) : Int := a / pow2 amount

/-- The least and the greatest integer in 128 signed bits. -/
def least : Int := -pow2 127

def greatest : Int := pow2 127 - 1

end Wide

/-- Cuts an integer to `bits` bits, read as a signed or an unsigned number: its lowest bits are kept, and the highest of
these is the sign. A width of zero, or of 128 and more, leaves it as it is. -/
def wrapInt (value : Int) (bits : Nat) (signed : Bool) : Int :=
  if bits = 0 ∨ 128 ≤ bits then value
  else
    let modulus := pow2 bits
    let raw := Wide.bits value &&& (modulus - 1)
    if signed ∧ raw.testBit (bits - 1) then raw - modulus else raw

end Bindery
