/-!
# Floating-point numbers

`Binary64` holds the numbers of the IEEE 754 format of 64 bits as plain data: a finite number is a
sign, a mantissa below `2 ^ 53` and an exponent, and denotes `± mantissa · 2 ^ exponent` exactly.
Comparison, rounding and reading from decimal are then arithmetic on integers, and every statement
about them can be proved.

A not-a-number carries a payload. Two of them are never equal as numbers; the payload only tells
whether two occurrences are the same occurrence.
-/

namespace Stencil

/-- A number of the 64-bit floating-point format. -/
inductive Binary64 where
  /-- Not a number. -/
  | nan (payload : Nat)
  /-- Positive or negative infinity. -/
  | infinite (negative : Bool)
  /-- The number `± mantissa · 2 ^ exponent`. -/
  | finite (negative : Bool) (mantissa : Nat) (exponent : Int)
  deriving DecidableEq, Repr

namespace Binary64

/-- The least exponent: that of the numbers nearest to zero. -/
def leastExponent : Int := -1074

/-- The greatest exponent of a finite number. -/
def greatestExponent : Int := 971

/-- Zero with a sign. -/
def zero (negative : Bool) : Binary64 := .finite negative 0 leastExponent

/-- A quotient rounded to the nearest natural number, a half going to the even neighbour. -/
def roundQuotient (numerator denominator : Nat) : Nat :=
  let floor := numerator / denominator
  let twice := 2 * (numerator % denominator)
  if twice < denominator then floor
  else if twice > denominator then floor + 1
  else if floor % 2 = 0 then floor
  else floor + 1

/-- `2 ^ e` for `e` not negative, else one. -/
def powerUp (e : Int) : Nat := Nat.pow 2 e.toNat

/-- The exponent with which a positive quotient has a mantissa of exactly 53 bits, or the least
exponent if the quotient is too small for that. -/
def exponentOf (numerator denominator : Nat) : Int :=
  let guess : Int := (Nat.log2 numerator : Int) - (Nat.log2 denominator : Int) - 52
  let short := numerator * powerUp (-guess) < Nat.pow 2 52 * (denominator * powerUp guess)
  max leastExponent (if short then guess - 1 else guess)

/-- The nearest number to a quotient, a half going to the even mantissa, and infinity beyond the
greatest finite number. -/
def ofQuotient (negative : Bool) (numerator denominator : Nat) : Binary64 :=
  if numerator = 0 || denominator = 0 then zero negative
  else
    let e := exponentOf numerator denominator
    let m := roundQuotient (numerator * powerUp (-e)) (denominator * powerUp e)
    let (m, e) := if m = Nat.pow 2 53 then (Nat.pow 2 52, e + 1) else (m, e)
    if e > greatestExponent then .infinite negative else .finite negative m e

/-- The number nearest to `± digits · 10 ^ exponent`. Exponents far outside the format are decided
without writing the power out. -/
def ofDecimal (negative : Bool) (digits : Nat) (exponent : Int) : Binary64 :=
  let places : Int := (Nat.repr digits).length
  if digits = 0 then zero negative
  else if exponent + places > 400 then .infinite negative
  else if exponent + places < -400 then zero negative
  else ofQuotient negative (digits * Nat.pow 10 exponent.toNat) (Nat.pow 10 (-exponent).toNat)

/-- The number with the other sign. -/
def negate : Binary64 → Binary64
  | .nan payload => .nan payload
  | .infinite negative => .infinite !negative
  | .finite negative m e => .finite (!negative) m e

/-- A finite number as a quotient of integers. -/
def quotient (negative : Bool) (mantissa : Nat) (exponent : Int) : Int × Nat :=
  let n : Int := mantissa * powerUp exponent
  (if negative then -n else n, powerUp (-exponent))

/-- How two quotients with positive denominators compare. -/
def compareQuotients (a b : Int × Nat) : Ordering :=
  compare (a.1 * b.2) (b.1 * a.2)

/-- How a number compares with a quotient; `none` for not-a-number. -/
def compareWith (x : Binary64) (q : Int × Nat) : Option Ordering :=
  match x with
  | .nan _ => none
  | .infinite negative => some (if negative then .lt else .gt)
  | .finite negative m e => some (compareQuotients (quotient negative m e) q)

/-- How two numbers compare; `none` if either is not a number. -/
def compare? (x y : Binary64) : Option Ordering :=
  match x, y with
  | .nan _, _ => none
  | _, .nan _ => none
  | .infinite a, .infinite b =>
    some (if a = b then .eq else if a then .lt else .gt)
  | _, .infinite negative => some (if negative then .gt else .lt)
  | x, .finite negative m e => compareWith x (quotient negative m e)

/-- Whether the number is zero, of either sign. -/
def isZero : Binary64 → Bool
  | .finite _ m _ => m == 0
  | _ => false

/-- The integer that a finite number equals; `none` if it has a fractional part or is not
finite. -/
def integer? : Binary64 → Option Int
  | .finite negative m e =>
    let q := quotient negative m e
    if q.1 % q.2 = 0 then some (q.1 / q.2) else none
  | _ => none

/-- A finite number without its fractional part. -/
def truncate? : Binary64 → Option Int
  | .finite negative m e =>
    let q := quotient negative m e
    some (Int.tdiv q.1 q.2)
  | _ => none

end Binary64
end Stencil
