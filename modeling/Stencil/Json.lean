import Stencil.Text.Quoted

/-!
# JSON output

Reports are written as JSON in an indented form: every item of an array and every field of an
object on a line of its own, two spaces deeper than its container, and empty containers closed at
once. In strings, the double quote, the backslash and the control characters are escaped; every
other character is written as it is.
-/

namespace Stencil

/-- A JSON document; the numbers of reports are natural. -/
inductive Json where
  | null
  | bool (b : Bool)
  | number (n : Nat)
  | text (t : Text)
  | array (items : List Json)
  | object (fields : List (Text × Json))

namespace Json

/-- How a character is written in a string. -/
def escape (c : Char) : Text :=
  if c = '"' || c = '\\' then ['\\', c]
  else if c = '\n' then ['\\', 'n']
  else if c = '\r' then ['\\', 'r']
  else if c = '\t' then ['\\', 't']
  else if c.toNat = 8 then ['\\', 'b']
  else if c.toNat = 12 then ['\\', 'f']
  else if c.toNat < 0x20 then '\\' :: 'u' :: Text.hexadecimal 4 c.toNat
  else [c]

/-- A text as a string. -/
def quote (t : Text) : Text := '"' :: (t.flatMap escape ++ ['"'])

/-- A line end and the indentation of a level. -/
def newLine (level : Nat) : Text := '\n' :: List.replicate (2 * level) ' '

/-- Lines between brackets, or just the brackets if there are none. -/
def enclose (opening closing : Char) (level : Nat) (lines : List Text) : Text :=
  if lines.isEmpty then [opening, closing]
  else
    let separator := ',' :: newLine (level + 1)
    opening :: (newLine (level + 1) ++ Text.join separator lines ++ newLine level ++ [closing])

mutual

/-- A document at a level of indentation. -/
def write (level : Nat) : Json → Text
  | .null => Text.ofString "null"
  | .bool b => Text.ofString (if b then "true" else "false")
  | .number n => Text.ofNat n
  | .text t => quote t
  | .array items => enclose '[' ']' level (writeItems (level + 1) items)
  | .object fields => enclose '\x7b' '\x7d' level (writeFields (level + 1) fields)

/-- The items of an array. -/
def writeItems (level : Nat) : List Json → List Text
  | [] => []
  | item :: rest => write level item :: writeItems level rest

/-- The fields of an object. -/
def writeFields (level : Nat) : List (Text × Json) → List Text
  | [] => []
  | (name, value) :: rest =>
    (quote name ++ ':' :: ' ' :: write level value) :: writeFields level rest

end

/-- A text, or null. -/
def optional (t : Option Text) : Json :=
  match t with
  | some t => .text t
  | none => .null

/-- A number, or null. -/
def count (n : Option Nat) : Json :=
  match n with
  | some n => .number n
  | none => .null

/-- An object from names and values. -/
def fields (entries : List (String × Json)) : Json :=
  .object (entries.map fun e => (Text.ofString e.1, e.2))

end Json
end Stencil
