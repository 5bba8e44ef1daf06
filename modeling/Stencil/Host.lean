import Stencil.Value.Basic

/-!
# The host

Templates are compiled and filled on a **host**: the language that the program is written in, with
its library. What the program leaves to its host is kept apart here, and everything else holds on
every host.

A host lets only so many calls be under way inside one another, and a computation that makes one
more fails. How many are left depends on where the program is called from, so there is one number
for reading the expressions of a template and one for filling it. What may nest without bound takes
its share of them: expressions in being read, evaluated and written, values in being compared and
written, and the calls of a template whose bodies hold calls. A level of these counts as the calls
that are under way on account of it; calls that are over before the next level begins do not count.

Besides, a host knows characters by their names, capital letters, and attributes of the values that
are neither collections nor objects of the data.
-/

namespace Stencil

/-- What the program leaves to the host that it runs on. -/
class Host where
  /-- How many calls may be under way inside the reading of an expression of a template. -/
  reading : Nat
  /-- How many calls may be under way inside the filling of a template. -/
  filling : Nat
  /-- How many calls are under way on account of a call whose body is being filled: those of the
  machine and those of the routine. -/
  calling : Nat
  /-- How many calls are under way on account of a level of an expression that is being written. -/
  writing : Nat
  /-- How many levels of collections are compared or written where so many calls may be under
  way. -/
  levels : Nat → Nat
  levels_mono : ∀ {room room' : Nat}, room ≤ room' → levels room ≤ levels room'
  /-- The character that has a name. -/
  character? : Text → Option Char
  /-- What a value that is neither a collection nor an object of the data has under a name. -/
  attribute? : Value → Text → Option Value
  /-- A text in capital letters. -/
  capitals : Text → Text

namespace Host

/-- What there can be too much of for a host. -/
inductive Excess where
  /-- Calls that are under way inside one another. -/
  | calls
  /-- Levels of collections that are compared. -/
  | compared
  /-- Levels of collections that are written. -/
  | written
  deriving DecidableEq, Repr

/-- How the host puts it that there is too much of something. -/
def Excess.message : Excess → String
  | .calls => "maximum recursion depth exceeded"
  | .compared => "maximum recursion depth exceeded in comparison"
  | .written => "maximum recursion depth exceeded while getting the repr of an object"

/-- The capital letters for a letter, if it is one of Latin-1. -/
def capitalsOf (c : Char) : Text :=
  if c = 'ß' then ['S', 'S']
  else if c = 'µ' then ['Μ']
  else if c = 'ÿ' then ['Ÿ']
  else if 'à' ≤ c ∧ c ≤ 'þ' ∧ c ≠ '÷' then [Char.ofNat (c.toNat - 32)]
  else [c.toUpper]

/-- A host with room for nearly a thousand calls, four of them for each call of a template and for
each level of an expression that is written. It knows no character by name, no attributes, and no
capital letters beyond Latin-1. -/
@[reducible] def usual : Host where
  reading := 950
  filling := 950
  calling := 4
  writing := 4
  levels room := room
  levels_mono h := h
  character? _ := none
  attribute? _ _ := none
  capitals t := t.flatMap capitalsOf

end Host
end Stencil
