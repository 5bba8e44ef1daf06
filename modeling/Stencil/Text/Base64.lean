import Stencil.Text.Basic

/-!
# Bytes in Base64

Four digits of six bits stand for three bytes. Where the bytes end before that, equals signs fill up
the last four places, and what follows them is not read. Characters that are no digits are passed
over, and so is an equals sign where no bytes can end.
-/

namespace Stencil
namespace Base64

/-- The value of a digit. -/
def digit? (c : Char) : Option Nat :=
  if 'A' ≤ c ∧ c ≤ 'Z' then some (c.toNat - 0x41)
  else if 'a' ≤ c ∧ c ≤ 'z' then some (c.toNat - 0x61 + 26)
  else if '0' ≤ c ∧ c ≤ '9' then some (c.toNat - 0x30 + 52)
  else if c = '+' then some 62
  else if c = '/' then some 63
  else none

/-- The bytes of the rest of a text, from the place of the next digit among four on; `left` are the
bits that are left of the last digit, and `pads` the equals signs since. -/
def decodeFrom (place left pads : Nat) : Text → Option (List UInt8)
  | [] => if place = 0 then some [] else none
  | c :: rest =>
    if c = '=' then
      if place < 2 then decodeFrom place left pads rest
      else if place + pads + 1 < 4 then decodeFrom place left (pads + 1) rest
      else some []
    else match digit? c, place with
      | none, _ => decodeFrom place left pads rest
      | some d, 0 => decodeFrom 1 d 0 rest
      | some d, 1 => (decodeFrom 2 (d % 16) 0 rest).map (UInt8.ofNat (left * 4 + d / 16) :: ·)
      | some d, 2 => (decodeFrom 3 (d % 4) 0 rest).map (UInt8.ofNat (left * 16 + d / 4) :: ·)
      | some d, _ => (decodeFrom 0 0 0 rest).map (UInt8.ofNat (left * 64 + d) :: ·)

/-- The bytes that a text writes; `none` if there is another character than ASCII in it, or if it
ends among the four digits without being filled up. -/
def decode? (t : Text) : Option (List UInt8) :=
  if t.all fun c => c.toNat < 0x80 then decodeFrom 0 0 0 t else none

end Base64
end Stencil
