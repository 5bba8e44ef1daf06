import Stencil.Text.Digit
import Stencil.Yaml.Scalar
import Stencil.Yaml.Timestamp

/-!
# The kinds of nodes

What a node is can be said by a tag. A plain scalar without one is of a kind by its shape, by the
core rules of YAML 1.2: the absent value, truth values, integers in four bases, floating-point
numbers with a point or an exponent, infinities, not-a-number and timestamps. Any other scalar is
text; `yes` and `on` are.

Underscores may stand among the digits of a number, and the shape of a number asks for no digit
besides them: a scalar may have the shape of a number and no value. Two signs have kinds of their
own: `<<` is a key that merges mappings, and `=` is a key like any other text; neither is a value.
-/

namespace Stencil
namespace Yaml

/-- What a node is. -/
inductive Kind where
  | null
  | bool
  | int
  | float
  | timestamp
  | binary
  | text
  | sequence
  | mapping
  /-- A sequence of mappings with one entry each, as pairs. -/
  | pairs
  /-- The key that merges mappings. -/
  | merge
  /-- The reserved equals sign. -/
  | default
  /-- Nothing that a document can hold. -/
  | unknown
  deriving DecidableEq, Repr

namespace Kind

/-- Whether nodes of the kind hold others. -/
def isCollection (kind : Kind) : Bool := kind == .sequence || kind == .mapping || kind == .pairs

/-- The kinds that have a tag of their own, by the last part of the tag. -/
def byTag : List (String × Kind) :=
  [("null", .null), ("bool", .bool), ("int", .int), ("float", .float), ("timestamp", .timestamp),
   ("binary", .binary), ("str", .text), ("seq", .sequence), ("map", .mapping), ("pairs", .pairs),
   ("merge", .merge), ("value", .default)]

/-- How the tags of the common kinds begin. -/
def tagRoot : Text := Text.ofString "tag:yaml.org,2002:"

/-- The kind that a tag names. -/
def ofTag (tag : Text) : Kind :=
  match byTag.find? fun k => tagRoot ++ k.1.toList == tag with
  | some k => k.2
  | none => .unknown

/-! ## Shapes of plain scalars -/

/-- Whether a character is a digit of a base up to sixteen. -/
def isDigitOf (base : Nat) (c : Char) : Bool := (Text.hexValue? c).any (· < base)

/-- Whether a character is a digit of a base or an underscore. -/
def isPlaceOf (base : Nat) (c : Char) : Bool := isDigitOf base c || c == '_'

/-- Whether a text without sign has the shape of an integer. -/
def isInteger (t : Text) : Bool :=
  let (base, digits) := match t with
    | '0' :: 'b' :: digits => (2, digits)
    | '0' :: 'o' :: digits => (8, digits)
    | '0' :: 'x' :: digits => (16, digits)
    | digits => (10, digits)
  !digits.isEmpty && digits.all (isPlaceOf base)

/-- Whether a text is an exponent. Its sign may be left out if `signFree`. -/
def isExponent (signFree : Bool) : Text → Bool
  | c :: rest =>
    let digits := (Numeral.sign rest).2
    (c == 'e' || c == 'E') && !digits.isEmpty && digits.all (isDigitOf 10) &&
      (signFree || digits.length < rest.length)
  | [] => false

/-- Whether a text without sign has the shape of a floating-point number: digits with a point, an
exponent or both. Without digits before the point, the exponent must have a sign. -/
def isDecimal (t : Text) : Bool :=
  let whole := t.takeWhile (isPlaceOf 10)
  match t.drop whole.length with
  | '.' :: rest =>
    let fraction := rest.takeWhile (isPlaceOf 10)
    let exponent := rest.drop fraction.length
    (if whole.isEmpty then !fraction.isEmpty else whole.head? != some '_') &&
      (exponent.isEmpty || isExponent (!whole.isEmpty) exponent)
  | exponent => !whole.isEmpty && whole.head? != some '_' && isExponent true exponent

/-- The kind of a plain text on one line. -/
def ofLine (t : Text) : Kind :=
  let rest := (Numeral.sign t).2
  if Text.isOneOf ["true", "True", "TRUE", "false", "False", "FALSE"] t then .bool
  else if Text.isOneOf [".nan", ".NaN", ".NAN"] t then .float
  else if Text.isOneOf [".inf", ".Inf", ".INF"] rest || isDecimal rest then .float
  else if isInteger rest && t.head? != some '_' then .int
  else if t == ['<', '<'] then .merge
  else if Text.isOneOf ["", "~", "null", "Null", "NULL"] t then .null
  else if Timestamp.isShape t then .timestamp
  else if t == ['='] then .default
  else .text

/-- The kind of a plain scalar. A line end at its end does not change it. -/
def ofPlain : Content → Kind
  | .points _ => .text
  | .text t => ofLine (if t.length > 1 && t.getLast? == some '\n' then t.dropLast else t)

end Kind
end Yaml
end Stencil
