import Stencil.Text.Basic

/-!
# Positions in a template

A position counts characters from the start of the text, and says on which line and in which column
it stands, both counted from one. Only a line feed ends a line. The position after a piece of text
is found by advancing over its characters, so the three numbers always belong together.
-/

namespace Stencil

/-- A place in the text of a template. -/
structure Position where
  /-- How many characters precede it. -/
  offset : Nat
  line : Nat
  column : Nat
  deriving DecidableEq, Repr

namespace Position

/-- The beginning of a text. -/
def start : Position := ⟨0, 1, 1⟩

/-- The position after one more character. -/
def next (p : Position) (c : Char) : Position :=
  if c = '\n' then ⟨p.offset + 1, p.line + 1, 1⟩ else ⟨p.offset + 1, p.line, p.column + 1⟩

/-- The position after a piece of text. -/
def advance (p : Position) (t : Text) : Position := t.foldl next p

/-- Line and column with a colon between them. -/
def write (p : Position) : String :=
  let line := p.line
  let column := p.column
  s!"{line}:{column}"

/-- A message with the position that it is about, if there is one. -/
def located (position : Option Position) (message : String) : String :=
  match position with
  | some p =>
    let place := p.write
    s!"{message} at {place}"
  | none => message

end Position
end Stencil
