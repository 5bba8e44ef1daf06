import Stencil.Number.Binary64
import Stencil.Number.Numeral

/-!
# Decimal numerals

A decimal numeral is an optional sign and decimal digits of any script, with a point, an exponent or
both, or one of the words for infinity and not-a-number, in letters of either case. Whitespace
around it is ignored. It denotes the floating-point number nearest to it.
-/

namespace Stencil
namespace Decimal

/-- The exponent that a text begins with, and what follows it. Without digits there is none. -/
def exponent (t : Text) : Int × Text :=
  match t with
  | c :: rest =>
    let (negative, more) := Numeral.sign rest
    let digits := more.takeWhile Text.isDecimal
    match Text.natural? digits with
    | some n =>
      if c.toLower = 'e' then (if negative then -(n : Int) else n, more.drop digits.length)
      else (0, t)
    | none => (0, t)
  | [] => (0, [])

/-- The number that a text without sign denotes. -/
def readUnsigned? (nan : Nat) (negative : Bool) (t : Text) : Option Binary64 :=
  let word := Text.lowerAscii t
  if Text.isOneOf ["inf", "infinity"] word then some (.infinite negative)
  else if Text.isOneOf ["nan"] word then some (.nan nan)
  else
    let whole := t.takeWhile Text.isDecimal
    let rest := t.drop whole.length
    let fraction := if rest.head? == some '.' then (rest.drop 1).takeWhile Text.isDecimal else []
    let (power, more) :=
      exponent (if rest.head? == some '.' then rest.drop (fraction.length + 1) else rest)
    if !more.isEmpty then none
    else (Text.natural? (whole ++ fraction)).map fun n =>
      Binary64.ofDecimal negative n (power - fraction.length)

/-- The number that a text denotes, not-a-number being the one with the given identity. -/
def read? (nan : Nat) (t : Text) : Option Binary64 :=
  let (negative, rest) := Numeral.sign (Numeral.trimPadding t)
  readUnsigned? nan negative rest

end Decimal
end Stencil
