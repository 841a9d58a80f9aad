import Bindery.Number.Power
/-!
# Binary floating-point formats

A format fixes how many bits a full significand has and how wide the exponent field is. Every finite number of a format
is a whole multiple of its least positive number; that multiple is called its *units*. The *magnitude* of a number is
its bit pattern without the sign, read as a natural number: the zero, then the finite numbers in increasing order, then
infinity, then the values that are not numbers. All rounding is `Format.round`.
-/
namespace Bindery

/-- The whole number nearest to `n / d`; of two equally near ones, the even one. -/
def divNearest (n d : Nat) : Nat :=
  let q := n / d
  let r := 2 * (n % d)
  if r < d then q else if d < r then q + 1 else q + q % 2

theorem divNearest_one (n : Nat) : divNearest n 1 = n := by simp [divNearest, Nat.mod_one]

/-- `precision` counts the bits of a full significand, `width` those of the exponent field. -/
structure Format where
  precision : Nat
  width : Nat
  deriving DecidableEq, Repr

namespace Format

def single : Format := ⟨24, 8⟩

def double : Format := ⟨53, 11⟩

/-- The number one is two to this many units. -/
def unitShift (f : Format) : Nat := pow2 (f.width - 1) - 2 + (f.precision - 1)

theorem unitShift_single : single.unitShift = 149 := rfl

theorem unitShift_double : double.unitShift = 1074 := rfl

/-- How many magnitudes share one exponent. -/
def binade (f : Format) : Nat := pow2 (f.precision - 1)

/-- The magnitude of infinity. -/
def infinity (f : Format) : Nat := (pow2 f.width - 1) * f.binade

/-- The distance, in units, from a finite magnitude to the next. -/
def gap (f : Format) (magnitude : Nat) : Nat := pow2 (magnitude / f.binade - 1)

/-- The units of a finite magnitude. -/
def units (f : Format) (magnitude : Nat) : Nat :=
  if magnitude < f.binade then magnitude else (f.binade + magnitude % f.binade) * f.gap magnitude

/-- The magnitude nearest to `n / d` units, ties to even. What rounds past the largest finite number is infinite. The
number of binades above the lowest is a count of bits, and a carry out of the significand moves to the next binade of
itself. -/
def round (f : Format) (n d : Nat) : Nat :=
  let k := (n / d).log2 + 1 - f.precision
  min f.infinity (k * f.binade + divNearest n (d * pow2 k))

end Format

end Bindery
