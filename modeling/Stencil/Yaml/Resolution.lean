import Stencil.Number.Decimal
import Stencil.Text.Base64
import Stencil.Yaml.Kind

/-!
# The values of scalars

A scalar of a kind denotes a value, or is at fault if it does not write one. The shape by which a
plain scalar is of its kind is narrower than what a tag may ask for, so numbers are read here by
the rules of numerals. The underscores of a number mean nothing.

There is one not-a-number in all documents that is written with a point: all occurrences of it are
the same occurrence. One that is written as a word is another one in each place.
-/

namespace Stencil
namespace Yaml

namespace Content

/-- The code points of what is written. -/
def codes : Content → List Nat
  | .text t => Text.points t
  | .points codes => codes

/-- What is written as a text, each surrogate being replaced by a character of no number. -/
def shown : Content → Text
  | .text t => t
  | .points codes => codes.map fun n => if Text.isSurrogate n then Char.ofNat 0xFFFD else .ofNat n

/-- What is written without underscores. -/
def ungrouped : Content → Content
  | .text t => .text (t.filter (· != '_'))
  | .points codes => .points (codes.filter (· != 0x5F))

/-- What is written in small letters. -/
def lower : Content → Content
  | .text t => .text (Text.lowerAscii t)
  | .points codes =>
    .points (codes.map fun n => if 0x41 ≤ n && n ≤ 0x5A then n + 0x20 else n)

/-- The last code points of what is written. -/
def ending (n : Nat) (content : Content) : List Nat :=
  content.codes.drop (content.codes.length - n)

end Content

/-- The truth value that a word names. -/
def truthOf (content : Content) : Except Fault Value :=
  let word := Text.lowerAscii content.shown
  if Text.isOneOf ["yes", "y", "true", "on"] word then .ok (.bool true)
  else if Text.isOneOf ["no", "n", "false", "off"] word then .ok (.bool false)
  else .error .noTruth

/-- The integer that is written, in one of four bases. -/
def integerOf (content : Content) : Except Fault Value :=
  let content := content.ungrouped
  let (negative, t) := Numeral.sign content.shown
  let signed (n : Int) : Value := .int (if negative then -n else n)
  let based (base : Nat) (letter : Char) (digits : Text) : Except Fault Value :=
    match Numeral.readBased? base letter digits with
    | some n => .ok (signed n)
    | none => .error (.noInteger base (content.ending digits.length))
  if content.shown.isEmpty then .error .noNumber
  else match t with
    | '0' :: 'b' :: digits => based 2 'b' digits
    | '0' :: 'o' :: digits => based 8 'o' digits
    | '0' :: 'x' :: digits => based 16 'x' digits
    | t =>
      match Numeral.read t with
      | .ok n => .ok (signed n)
      | .error (.tooLong digits) => .error (.tooLong digits)
      | .error (.malformed _) => .error (.noInteger 10 (content.ending t.length))

/-- The floating-point number that is written; `nan` is the identity of a not-a-number that is
written as a word. -/
def decimalOf (nan : Nat) (content : Content) : Except Fault Value :=
  let content := content.ungrouped.lower
  let (negative, t) := Numeral.sign content.shown
  if content.shown.isEmpty then .error .noNumber
  else if t == ".inf".toList then .ok (.float (.infinite negative))
  else if t == ".nan".toList then .ok (.float (.nan 0))
  else match Decimal.read? nan t with
    | some x => .ok (.float (if negative then x.negate else x))
    | none => .error (.noDecimal (content.ending t.length))

/-- The bytes that are written. -/
def bytesOf (content : Content) : Except Fault Value :=
  match content with
  | .points _ => .error .malformed
  | .text t =>
    match Base64.decode? t with
    | some bytes => .ok (.bytes bytes)
    | none => .error .malformed

/-- The moment or date that is written; one line end may follow it. -/
def timestampOf (content : Content) : Except Fault Value :=
  let t := content.shown
  match Timestamp.ofText? (if t.getLast? == some '\n' then t.dropLast else t) with
  | some timestamp => timestamp.value
  | none => .error .malformed

/-- The value of a scalar of a kind; `nan` is the identity of a not-a-number in it. -/
def valueOf (nan : Nat) (kind : Kind) (content : Content) : Except Fault Value :=
  match kind with
  | .null => .ok .null
  | .bool => truthOf content
  | .int => integerOf content
  | .float => decimalOf nan content
  | .timestamp => timestampOf content
  | .binary => bytesOf content
  | .text => .ok (.ofPoints content.codes)
  | _ => .error .malformed

end Yaml
end Stencil
