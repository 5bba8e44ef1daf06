import Stencil.Text.Printable

/-!
# Quoted text

A value that appears inside another value, or in a message, is shown **quoted**: between
apostrophes, or between double quotes when the text holds an apostrophe and no double quote, with
every character that would not print escaped. `quoted` writes this form, and `quotedBytes` the
corresponding form of a row of bytes.

Expressions are written with the same kind of literal, either quote allowed; `unquote` reads one. As
an escape can name a surrogate, it gives code points, and `quotedPoints` writes them.

Reading knows more escapes than writing uses, keeps the backslash of an escape it does not know,
drops a line break after a backslash, and refuses any other line break, a null character and an
escape that names no character. One escape gives the name of a character in braces; which characters
have names is told by a function.
-/

namespace Stencil
namespace Text

/-- One hexadecimal digit, with small letters. -/
def hexDigit (n : Nat) : Char := "0123456789abcdef".toList.getD n '0'

/-- The last `width` hexadecimal digits of a number, most significant first. -/
def hexadecimal : Nat → Nat → Text
  | 0, _ => []
  | width + 1, n => hexadecimal width (n / 16) ++ [hexDigit (n % 16)]

/-- The quote that needs no escape inside the text: the apostrophe, unless only the double quote
is free. -/
def quoteFor (t : Text) : Char :=
  if t.contains '\'' && !t.contains '"' then '"' else '\''

/-- How a character is shown between the given quotes. -/
def escape (quote c : Char) : Text :=
  if c = quote || c = '\\' then ['\\', c]
  else if c = '\n' then ['\\', 'n']
  else if c = '\r' then ['\\', 'r']
  else if c = '\t' then ['\\', 't']
  else if isPrintable c then [c]
  else if c.toNat < 0x100 then '\\' :: 'x' :: hexadecimal 2 c.toNat
  else if c.toNat < 0x10000 then '\\' :: 'u' :: hexadecimal 4 c.toNat
  else '\\' :: 'U' :: hexadecimal 8 c.toNat

/-- A text between quotes, with everything unprintable escaped. -/
def quoted (t : Text) : Text :=
  let quote := quoteFor t
  quote :: (t.flatMap (escape quote) ++ [quote])

/-- How a code point is shown between the given quotes. -/
def escapePoint (quote : Char) (n : Nat) : Text :=
  if isSurrogate n then '\\' :: 'u' :: hexadecimal 4 n else escape quote (Char.ofNat n)

/-- Code points between quotes, with everything unprintable escaped. -/
def quotedPoints (codes : List Nat) : Text :=
  let quote := quoteFor (codes.map Char.ofNat)
  quote :: (codes.flatMap (escapePoint quote) ++ [quote])

/-- How a byte is shown between the given quotes: ASCII as it is, the rest by number. -/
def escapeByte (quote : Char) (b : UInt8) : Text :=
  let c := Char.ofNat b.toNat
  if b.toNat < 0x80 then escape quote c else '\\' :: 'x' :: hexadecimal 2 b.toNat

/-- A row of bytes between quotes, marked by a leading `b`. -/
def quotedBytes (bytes : List UInt8) : Text :=
  let quote := quoteFor (bytes.map fun b => Char.ofNat b.toNat)
  'b' :: quote :: (bytes.flatMap (escapeByte quote) ++ [quote])

/-! ## Reading a literal -/

/-- Why an escape stands for no character. -/
inductive EscapeFault where
  /-- The escape `\x`, `\u` or `\U` that starts at `start` has fewer hexadecimal digits than its
  letter asks for; `stop` is where the digits end. -/
  | truncated (letter : Char) (start stop : Nat)
  /-- The escape that starts at `start` names a number beyond the last character. -/
  | illegalCharacter (start : Nat)
  /-- The escape `\N` that starts at `start` is not followed by a name in braces; reading comes as
  far as `stop`. -/
  | malformedName (start stop : Nat)
  /-- The escape `\N` from `start` to `stop` gives a name that no character has. -/
  | unknownName (start stop : Nat)
  deriving DecidableEq, Repr

/-- Why a quoted literal cannot be read. -/
inductive LiteralFault where
  /-- A line break stands in the literal as it is, at the end of the given line of the literal. -/
  | lineBreak (line : Nat)
  /-- A null character stands in the literal as it is. -/
  | nullCharacter
  /-- An escape stands for no character; the literal goes on to the given line. -/
  | escape (fault : EscapeFault) (line : Nat)
  deriving DecidableEq, Repr

/-- The value of a hexadecimal digit. -/
def hexValue? (c : Char) : Option Nat :=
  if '0' ≤ c ∧ c ≤ '9' then some (c.toNat - 0x30)
  else if 'a' ≤ c ∧ c ≤ 'f' then some (c.toNat - 0x61 + 10)
  else if 'A' ≤ c ∧ c ≤ 'F' then some (c.toNat - 0x41 + 10)
  else none

/-- The value of an octal digit. -/
def octalValue? (c : Char) : Option Nat :=
  if '0' ≤ c ∧ c ≤ '7' then some (c.toNat - 0x30) else none

/-- How many hexadecimal digits follow the letter of a numeric escape. -/
def escapeWidth? : Char → Option Nat
  | 'x' => some 2
  | 'u' => some 4
  | 'U' => some 8
  | _ => none

/-- The characters that one-letter escapes stand for. -/
def simpleEscape? : Char → Option Char
  | 'n' => some '\n'
  | 't' => some '\t'
  | 'r' => some '\r'
  | 'a' => some (Char.ofNat 7)
  | 'b' => some (Char.ofNat 8)
  | 'f' => some (Char.ofNat 12)
  | 'v' => some (Char.ofNat 11)
  | '\\' => some '\\'
  | '\'' => some '\''
  | '"' => some '"'
  | _ => none

/-- The number written by a row of digits in the given base. -/
def ofDigits (base : Nat) (digits : List Nat) : Nat := digits.foldl (base * · + ·) 0

/-- The octal digits at the front of a text, at most three. -/
def octalDigits (t : Text) : List Nat := (t.take 3).map octalValue? |>.takeWhile (·.isSome)
  |>.filterMap id

/-- The places that a character takes when positions inside an escaped literal are counted: a
character outside ASCII counts as the ten places of its longest escape. -/
def escapedPlaces (c : Char) : Nat := if c.toNat < 0x80 then 1 else 10

/-- The places that a backslash and a character take that make no escape together: before a
character outside ASCII, the backslash counts as its own escape. -/
def unknownPlaces (c : Char) : Nat := if c.toNat < 0x80 then 2 else 16

/-- The rest of a text after a line break of one character, or of two. -/
def afterLineBreak (c : Char) (rest : Text) : Text :=
  match c, rest with
  | '\r', '\n' :: more => more
  | _, rest => rest

theorem length_afterLineBreak_le (c : Char) (rest : Text) :
    (afterLineBreak c rest).length ≤ rest.length := by
  unfold afterLineBreak
  split <;> simp

/-- Whether a character breaks a line inside a literal. -/
def breaksLine (c : Char) : Bool := c = '\n' || c = '\r'

/-- The first line of a literal at the end of which no backslash protects the line break, and the
last line of the literal if there is none. The text is what follows from `line` on. -/
def brokenLine (line : Nat) : Text → Except Nat Nat
  | [] => .ok line
  | '\\' :: c :: rest =>
    if breaksLine c then brokenLine (line + 1) (afterLineBreak c rest) else brokenLine line rest
  | c :: rest => if breaksLine c then .error line else brokenLine line rest
  termination_by t => t.length
  decreasing_by
    · have := length_afterLineBreak_le c rest
      simp only [List.length_cons]
      omega
    all_goals simp only [List.length_cons]; omega

/-- The places that a part of a literal takes as it stands, escapes and all. -/
def places : Text → Nat
  | [] => 0
  | '\\' :: c :: rest =>
    if breaksLine c then places (afterLineBreak c rest) + 2 else places rest + unknownPlaces c
  | c :: rest => places rest + escapedPlaces c
  termination_by t => t.length
  decreasing_by
    · have := length_afterLineBreak_le c rest
      simp only [List.length_cons]
      omega
    all_goals simp only [List.length_cons]; omega

/-- The name in braces at the front of a text, as long as the closing brace is there; or how many
places are passed in looking for it. -/
def bracedName (t : Text) : Except Nat Text :=
  match t with
  | '\x7b' :: rest =>
    let name := rest.takeWhile (· ≠ '\x7d')
    if name.length = rest.length then .error (1 + places name)
    else if name.isEmpty then .error 1
    else .ok name
  | _ => .error 0

/-- Reads the inside of a literal, of which `place` places have been passed; `named` gives the
characters that have a name. -/
def unescape (named : Text → Option Char) (place : Nat) : Text → Except EscapeFault (List Nat)
  | [] => .ok []
  | '\\' :: c :: rest =>
    if breaksLine c then unescape named (place + 2) (afterLineBreak c rest)
    else if c = 'N' then
      match bracedName rest with
      | .error passed => .error (.malformedName place (place + 2 + passed))
      | .ok name =>
        let stop := place + 4 + places name
        match named name with
        | some d => (unescape named stop (rest.drop (name.length + 2))).map (d.toNat :: ·)
        | none => .error (.unknownName place stop)
    else match simpleEscape? c with
      | some d => (unescape named (place + 2) rest).map (d.toNat :: ·)
      | none =>
        match escapeWidth? c with
        | some width =>
          let digits := ((rest.take width).map hexValue?).takeWhile (·.isSome) |>.filterMap id
          if digits.length < width then
            .error (.truncated c place (place + 2 + digits.length))
          else
            let n := ofDigits 16 digits
            if n > 0x10FFFF then .error (.illegalCharacter place)
            else (unescape named (place + 2 + width) (rest.drop width)).map (n :: ·)
        | none =>
          let digits := octalDigits (c :: rest)
          if digits.isEmpty then
            (unescape named (place + unknownPlaces c) rest).map ('\\'.toNat :: c.toNat :: ·)
          else
            (unescape named (place + 1 + digits.length) (rest.drop (digits.length - 1))).map
              (ofDigits 8 digits :: ·)
  | c :: rest => (unescape named (place + escapedPlaces c) rest).map (c.toNat :: ·)
  termination_by t => t.length
  decreasing_by
    · have := length_afterLineBreak_le c rest
      simp only [List.length_cons]
      omega
    all_goals simp only [List.length_cons, List.length_drop]; omega

/-- The code points that a literal with its two quotes stands for. A null character is found before
anything else, and a line break before a broken escape. -/
def unquote (named : Text → Option Char) (literal : Text) : Except LiteralFault (List Nat) :=
  let inner := (literal.drop 1).dropLast
  if inner.contains (Char.ofNat 0) then .error .nullCharacter
  else match brokenLine 1 inner with
    | .error line => .error (.lineBreak line)
    | .ok line => (unescape named 0 inner).mapError fun fault => .escape fault line

/-- The wording of a fault in an escape. -/
def EscapeFault.message : EscapeFault → String
  | .truncated letter start stop =>
    let last := stop - 1
    let shape := String.ofList ('\\' :: letter :: List.replicate ((escapeWidth? letter).getD 0) 'X')
    s!"can't decode bytes in position {start}-{last}: truncated {shape} escape"
  | .illegalCharacter start =>
    let last := start + 9
    s!"can't decode bytes in position {start}-{last}: illegal Unicode character"
  | .malformedName start stop =>
    let last := stop - 1
    s!"can't decode bytes in position {start}-{last}: malformed \\N character escape"
  | .unknownName start stop =>
    let last := stop - 1
    s!"can't decode bytes in position {start}-{last}: unknown Unicode character name"

/-- The wording of a fault. -/
def LiteralFault.message : LiteralFault → String
  | .lineBreak line =>
    s!"unterminated string literal (detected at line {line}) (<unknown>, line 1)"
  | .nullCharacter => "source code string cannot contain null bytes"
  | .escape fault line =>
    let what := fault.message
    s!"(unicode error) 'unicodeescape' codec {what} (<unknown>, line {line})"

end Text
end Stencil
