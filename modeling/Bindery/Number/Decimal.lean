import Bindery.Number.Double
/-!
# Decimal text of doubles

`Double.ofDecimal` reads a decimal: the nearest double. `Double.describe` writes the fewest digits that read back, the
ones nearest to the number among those, in positional notation and without a fraction when there is none.
-/
namespace Bindery

/-- The digits of a number in base ten, the first one first. -/
def decimalDigits (n : Nat) : List Char := Nat.toDigits 10 n

theorem toList_toString (n : Nat) : (toString n).toList = decimalDigits n := String.toList_ofList

theorem isDigit_of_mem_decimalDigits {n : Nat} {c : Char} (h : c ∈ decimalDigits n) : c.isDigit :=
  Nat.isDigit_of_mem_toDigits (by decide) (by decide) h

/-- Digits read back as their number. -/
theorem decimalDigits_inj {m n : Nat} (h : decimalDigits m = decimalDigits n) : m = n := by
  have hread : ∀ k, Nat.ofDigitChars 10 (decimalDigits k) 0 = k := fun k => Nat.ofDigitChars_ten_toDigits
  rw [← hread m, h, hread]

namespace Double

/-- The double nearest to `digits * 10 ^ exponent`. An exponent far out of range is not raised to. -/
def ofDecimal (negative : Bool) (digits : Nat) (exponent : Int) : Double :=
  if digits = 0 then ofMagnitude negative 0
  else
    let top := (decimalDigits digits).length + exponent
    if 400 < top then infinity negative
    else if top < -400 then ofMagnitude negative 0
    else if 0 ≤ exponent then ofUnits negative (digits * pow10 exponent.toNat * one) 1
    else ofUnits negative (digits * one) (pow10 (-exponent).toNat)

/-- The decimals that read back as one positive finite number: those between `low` and `high` quarter units, the ends
included when `closed`. -/
structure Range where
  low : Nat
  high : Nat
  closed : Bool

/-- The range of the decimals that round to the number. Below the least number of a binade the gap is half as wide. -/
def range (x : Double) : Range :=
  let gap := Format.double.gap x.magnitude
  let atEdge := x.magnitude % Format.double.binade == 0 && Format.double.binade < x.magnitude
  { low := 4 * x.units - if atEdge then gap else 2 * gap
    high := 4 * x.units + 2 * gap
    closed := x.magnitude % 2 == 0 }

/-- Whether `digits / 10 ^ scale`, or `digits * 10 ^ (-scale)`, lies in the range. -/
def Range.admits (range : Range) (digits : Nat) (scale : Int) : Bool :=
  let n := 4 * digits * one * pow10 (-scale).toNat
  let d := pow10 scale.toNat
  if range.closed then range.low * d ≤ n && n ≤ range.high * d else range.low * d < n && n < range.high * d

/-- The place of the first digit: the number lies below ten to this power, and not below a tenth of that. -/
def decimalExponent (x : Double) : Int :=
  ((decimalDigits (x.units * pow10 400 / one)).length : Int) - 400

/-- The decimal with `scale` digits after the point that reads back and is nearest to the number, if one does. Of two
equally near ones the larger is taken. -/
def onGrid? (x : Double) (scale : Int) : Option Nat :=
  let n := x.units * pow10 scale.toNat
  let d := one * pow10 (-scale).toNat
  let below := n / d
  let nearAbove := d ≤ 2 * (n % d)
  let nearest := if nearAbove then below + 1 else below
  let other := if nearAbove then below else below + 1
  if x.range.admits nearest scale then some nearest
  else if x.range.admits other scale then some other
  else none

/-- The shortest decimal that reads back, as digits and the number of them after the point. -/
def shortest (x : Double) : Nat × Int :=
  ((List.range 17).findSome? fun (i : Nat) =>
    let scale := (i : Int) + 1 - x.decimalExponent
    (x.onGrid? scale).map (·, scale)).getD (0, 0)

/-- Writes `digits / 10 ^ scale` in positional notation, without trailing zeros after the point. -/
def positional (digits : Nat) (scale : Int) : List Char :=
  if scale ≤ 0 then decimalDigits digits ++ List.replicate (-scale).toNat '0'
  else
    let places := scale.toNat
    let whole := decimalDigits (digits / pow10 places)
    let part := decimalDigits (digits % pow10 places)
    let fraction := List.replicate (places - part.length) '0' ++ part
    let kept := (fraction.reverse.dropWhile (· == '0')).reverse
    if kept.isEmpty then whole else whole ++ '.' :: kept

/-- The text of a double. -/
def describe (x : Double) : String :=
  if x.isNaN then "NaN"
  else
    let sign := if x.negative then "-" else ""
    if x.isInfinite then sign ++ "inf"
    else if x.isZero then sign ++ "0"
    else sign ++ String.ofList (positional x.shortest.1 x.shortest.2)

end Double

end Bindery
