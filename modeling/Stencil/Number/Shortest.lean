import Stencil.Number.Binary64
import Stencil.Text.Basic

/-!
# The shortest decimal of a floating-point number

A finite number is written with the fewest significant digits that read back as the same number;
of several such decimals the one nearest to the number is taken, and the even last digit of two
equally near ones. `shortestDigits` finds it by testing, for one digit, two digits and so on up to
seventeen, the two neighbours of the number on the grid of decimals with that many digits: if a
grid has any decimal that reads back, one of the two neighbours does.

How the digits are then laid out, where positional notation ends and how an exponent looks, is the
business of a `FloatLayout`.
-/

namespace Stencil
namespace Binary64

/-- A positive rational number. -/
structure Ratio where
  numerator : Nat
  denominator : Nat

namespace Ratio

/-- `a` is less than `b`. -/
def lt (a b : Ratio) : Bool := a.numerator * b.denominator < b.numerator * a.denominator

/-- A natural number times a power of ten. -/
def decimal (digits : Nat) (exponent : Int) : Ratio :=
  ⟨digits * Nat.pow 10 exponent.toNat, Nat.pow 10 (-exponent).toNat⟩

/-- A natural number times a power of two. -/
def binary (mantissa : Nat) (exponent : Int) : Ratio :=
  ⟨mantissa * powerUp exponent, powerUp (-exponent)⟩

end Ratio

/-- The least and the greatest value that round to the number, and whether the two themselves
do. -/
structure Basin where
  low : Ratio
  high : Ratio
  closed : Bool

/-- The basin of `mantissa · 2 ^ exponent`: half way to the neighbour on either side. Below a power
of two the neighbours are twice as dense. -/
def basin (mantissa : Nat) (exponent : Int) : Basin where
  low :=
    if mantissa = Nat.pow 2 52 && exponent > leastExponent then
      Ratio.binary (4 * mantissa - 1) (exponent - 2)
    else Ratio.binary (2 * mantissa - 1) (exponent - 1)
  high := Ratio.binary (2 * mantissa + 1) (exponent - 1)
  closed := mantissa % 2 = 0

/-- Whether a value rounds to the number. -/
def Basin.holds (b : Basin) (r : Ratio) : Bool :=
  if b.closed then !r.lt b.low && !b.high.lt r else b.low.lt r && r.lt b.high

/-- The place of the first digit: `r` lies between `10 ^ (place - 1)`, included, and
`10 ^ place`. The guess from the number of bits is at most one too small. -/
def leadingPlace (r : Ratio) : Int :=
  let bits : Int := (Nat.log2 r.numerator : Int) - (Nat.log2 r.denominator : Int) - 1
  let guess := bits * 30103 / 100000
  if r.lt (Ratio.decimal 1 (guess + 1)) then guess + 1
  else if r.lt (Ratio.decimal 1 (guess + 2)) then guess + 2
  else guess + 3

/-- The decimal on the grid of `10 ^ exponent` that reads back as the number of the basin, if one
of the two neighbours of `r` does; the nearer of two, and the even one of two equally near. -/
def onGrid? (b : Basin) (r : Ratio) (exponent : Int) : Option Nat :=
  let numerator := r.numerator * Nat.pow 10 (-exponent).toNat
  let denominator := r.denominator * Nat.pow 10 exponent.toNat
  let floor := numerator / denominator
  let down := floor != 0 && b.holds (Ratio.decimal floor exponent)
  let up := b.holds (Ratio.decimal (floor + 1) exponent)
  if down && up then some (roundQuotient numerator denominator)
  else if down then some floor
  else if up then some (floor + 1)
  else none

/-- The first grid with a decimal that reads back, `count` more grids being tried from the one with
`place - 1` digits after the leading place on. -/
def firstGrid? (b : Basin) (r : Ratio) (exponent : Int) : Nat → Option (Nat × Int)
  | 0 => none
  | count + 1 =>
    match onGrid? b r exponent with
    | some digits => some (digits, exponent)
    | none => firstGrid? b r (exponent - 1) count

/-- A decimal without the zeros at its end. -/
def dropZeros : Nat → Nat → Int → Nat × Int
  | 0, digits, exponent => (digits, exponent)
  | fuel + 1, digits, exponent =>
    if digits % 10 = 0 && digits != 0 then dropZeros fuel (digits / 10) (exponent + 1)
    else (digits, exponent)

/-- The fewest digits, with the power of ten of the last, that read back as
`mantissa · 2 ^ exponent`. -/
def shortestDigits (mantissa : Nat) (exponent : Int) : Nat × Int :=
  if mantissa = 0 then (0, 0)
  else
    let r := Ratio.binary mantissa exponent
    match firstGrid? (basin mantissa exponent) r (leadingPlace r - 1) 17 with
    | some (digits, place) => dropZeros 20 digits place
    | none => (0, 0)

end Binary64

/-- How the digits of a number are laid out. -/
structure FloatLayout where
  /-- The least exponent of the first digit that is written positionally. -/
  leastPositional : Int
  /-- The greatest exponent of the first digit that is written positionally. -/
  greatestPositional : Int
  /-- The fewest digits of a written exponent. -/
  exponentDigits : Nat
  /-- The text of infinity, without sign. -/
  infinity : Text
  /-- The text of not-a-number. -/
  notANumber : Text

namespace FloatLayout

/-- Numbers from one ten-thousandth up to below ten to the sixteenth are positional; an exponent
has a sign and at least two digits. -/
def standard : FloatLayout where
  leastPositional := -4
  greatestPositional := 15
  exponentDigits := 2
  infinity := Text.ofString "inf"
  notANumber := Text.ofString "nan"

/-- A minus sign for a negative number. -/
def sign (negative : Bool) : Text := if negative then ['-'] else []

/-- Digits with a point after the first `whole` of them, zeros filling both sides. -/
def positional (digits : Text) (whole : Int) : Text :=
  if whole ≤ 0 then '0' :: '.' :: (List.replicate (-whole).toNat '0' ++ digits)
  else
    let front := digits.take whole.toNat
    let back := digits.drop whole.toNat
    front ++ List.replicate (whole.toNat - front.length) '0' ++ '.' ::
      (if back.isEmpty then ['0'] else back)

/-- Digits with a point after the first, if more follow, and an exponent. -/
def scientific (layout : FloatLayout) (digits : Text) (exponent : Int) : Text :=
  let size := Text.ofNat exponent.natAbs
  digits.take 1 ++ (if digits.length > 1 then '.' :: digits.drop 1 else []) ++
    'e' :: (if exponent < 0 then '-' else '+') ::
      (List.replicate (layout.exponentDigits - size.length) '0' ++ size)

/-- A number in this layout, with the shortest digits that read back. -/
def write (layout : FloatLayout) : Binary64 → Text
  | .nan _ => layout.notANumber
  | .infinite negative => sign negative ++ layout.infinity
  | .finite negative m e =>
    let (digits, place) := Binary64.shortestDigits m e
    let digits := Text.ofNat digits
    let first : Int := place + digits.length - 1
    sign negative ++
      (if m = 0 then positional digits 1
      else if layout.leastPositional ≤ first ∧ first ≤ layout.greatestPositional then
        positional digits (first + 1)
      else scientific layout digits first)

end FloatLayout
end Stencil
