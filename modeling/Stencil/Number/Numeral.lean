import Stencil.Text.Quoted

/-!
# Integer numerals

A numeral is an optional sign and decimal digits of any script, which single underscores may
group; whitespace around it is ignored. Numerals of more than `longest` digits are refused,
because reading them takes quadratic time; for the same reason integers with more digits than that
are not written.
-/

namespace Stencil
namespace Numeral

/-- The most digits that a numeral may have. -/
def longest : Nat := 4300

/-- Why a text is no numeral. -/
inductive Fault where
  /-- What is read has another shape; this is how a message shows it. -/
  | malformed (shown : Text)
  /-- The text has too many digits. -/
  | tooLong (digits : Nat)
  deriving DecidableEq, Repr

/-- The whitespace allowed around a numeral: all but the four ASCII information separators. -/
def isPadding (c : Char) : Bool :=
  Text.isBlank c && !(0x1C ≤ c.toNat && c.toNat ≤ 0x1F)

/-- The text without the whitespace around a numeral. -/
def trimPadding (t : Text) : Text :=
  ((t.dropWhile isPadding).reverse.dropWhile isPadding).reverse

/-- Whether a numeral is negative, and what follows its sign. -/
def sign : Text → Bool × Text
  | '-' :: rest => (true, rest)
  | '+' :: rest => (false, rest)
  | t => (false, t)

/-- The digits that a text begins with, put together, and what follows them. Single underscores
between digits are passed; `none` if another underscore stands where a digit would go on. -/
def digits? (after : Bool) : Text → Option (Text × Text)
  | [] => some ([], [])
  | '_' :: c :: rest =>
    if after && Text.isDecimal c then digits? false (c :: rest) else none
  | c :: rest =>
    if c = '_' then none
    else if Text.isDecimal c then (digits? true rest).map fun (t, more) => (c :: t, more)
    else some ([], c :: rest)

/-- The integer that a text denotes. Too many digits are noticed before whatever follows them. -/
def read (t : Text) : Except Fault Int :=
  let (negative, rest) := sign (t.dropWhile isPadding)
  match digits? false rest with
  | none => .error (.malformed (Text.quoted t))
  | some (digits, more) =>
    if digits.length > longest then .error (.tooLong digits.length)
    else if !more.all isPadding then .error (.malformed (Text.quoted t))
    else match Text.natural? digits with
      | none => .error (.malformed (Text.quoted t))
      | some n => .ok (if negative then -(n : Int) else n)

/-- The value of a digit of a base up to sixteen: a decimal digit of any script or an ASCII
letter. -/
def digitOf? (base : Nat) (c : Char) : Option Nat :=
  ((Text.decimalValue? c).or (Text.hexValue? c)).filter (· < base)

/-- The integer that a text denotes in a base that is no ten. The letter that stands for the base
may stand before the digits, after a zero. -/
def readBased? (base : Nat) (letter : Char) (t : Text) : Option Int :=
  let (negative, rest) := sign (trimPadding t)
  let digits := match rest with
    | '0' :: c :: more => if c.toLower = letter then more else rest
    | _ => rest
  let values := digits.filterMap (digitOf? base)
  if values.isEmpty || values.length < digits.length then none
  else
    let n := Text.ofDigits base values
    some (if negative then -(n : Int) else n)

/-- Whether an integer has few enough digits to be written. -/
def isWritable (n : Int) : Bool := n.natAbs < Nat.pow 10 longest

/-- The message about an integer with too many digits to be written. -/
def unwritable : String :=
  s!"Exceeds the limit ({longest} digits) for integer string conversion; "
    ++ "use sys.set_int_max_str_digits() to increase the limit"

/-- The wording of a fault. At most two hundred characters of what is read are shown. -/
def Fault.message : Fault → String
  | .malformed shown =>
    let shown := String.ofList (shown.take 200)
    s!"invalid literal for int() with base 10: {shown}"
  | .tooLong digits =>
    s!"Exceeds the limit ({longest} digits) for integer string conversion: "
      ++ s!"value has {digits} digits; use sys.set_int_max_str_digits() to increase the limit"

end Numeral
end Stencil
