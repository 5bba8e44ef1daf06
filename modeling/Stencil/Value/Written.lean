import Stencil.Number.Numeral
import Stencil.Number.Shortest
import Stencil.Text.Quoted
import Stencil.Value.Basic

/-!
# How values are written

A value is written in two ways. `denote` shows what it is made of: text is quoted, and a container
shows its items in the same way. `output` is what a template prints: text as it is, nothing for the
absent value, small letters for truth values, and for everything else what `denote` gives.

A collection that stands inside itself is shown there by three points between its brackets.

A value that holds an integer of too many digits is not written at all (`isWritable`); `asText?` is
the text of any other. A template can also fail to print a value because its collections are nested
too deeply; `obstacle?` is what stops it, whichever comes first in the value.
-/

namespace Stencil
namespace Value

/-- Pieces with a comma and a space between each two. -/
def commaSeparated : List Text → Text := Text.join [',', ' ']

/-- How a collection is shown inside itself. -/
def ellipsis : Value → Text
  | .map _ => Text.ofString "\x7b...\x7d"
  | _ => Text.ofString "[...]"

/-- A date as the call that makes it. -/
def denoteDate (d : Date) : Text :=
  Text.ofString "datetime.date(" ++
    (commaSeparated ([d.year, d.month, d.day].map Text.ofNat) ++ [')'])

/-- A zone as the call that makes it. -/
def denoteZone (zone : Zone) : Text :=
  Text.ofString "datetime.timezone(" ++
    (commaSeparated [Moment.writeSpan zone.minutes, Text.quoted zone.name] ++ [')'])

/-- A moment as the call that makes it. Seconds and microseconds are left out where they and what
follows them are zero. -/
def denoteMoment (m : Moment) : Text :=
  let fine :=
    if m.microsecond ≠ 0 then [m.second, m.microsecond]
    else if m.second ≠ 0 then [m.second]
    else []
  let numbers := [m.date.year, m.date.month, m.date.day, m.hour, m.minute] ++ fine
  let zone := m.zone.toList.map fun zone => Text.ofString "tzinfo=" ++ denoteZone zone
  Text.ofString "datetime.datetime(" ++
    (commaSeparated (numbers.map Text.ofNat ++ zone) ++ [')'])

mutual

/-- A value as it is shown inside the collections with an identity that are being shown: each of
them is shown again as `around` says. -/
def denoteIn (around : List (Nat × Text)) : Value → Text
  | .null => Text.ofString "None"
  | .bool b => Text.ofString (if b then "True" else "False")
  | .int n => Text.ofInt n
  | .float x => FloatLayout.standard.write x
  | .text t => Text.quoted t
  | .points codes => Text.quotedPoints codes
  | .bytes b => Text.quotedBytes b
  | .date d => denoteDate d
  | .moment m => denoteMoment m
  | .list items => '[' :: (commaSeparated (denoteAll around items) ++ [']'])
  | .tuple [item] => '(' :: (denoteIn around item ++ [',', ')'])
  | .tuple items => '(' :: (commaSeparated (denoteAll around items) ++ [')'])
  | .map entries => '\x7b' :: (commaSeparated (denoteEntries around entries) ++ ['\x7d'])
  | .stream _ _ => Text.ofString "<generator>"
  | .object _ _ => Text.ofString "<obj>"
  | .shared id inside =>
    match around.lookup id with
    | some t => t
    | none => denoteIn ((id, ellipsis inside) :: around) inside
  | .again id => (around.lookup id).getD []

/-- Each value of a row, shown. -/
def denoteAll (around : List (Nat × Text)) : List Value → List Text
  | [] => []
  | v :: rest => denoteIn around v :: denoteAll around rest

/-- Key and value of each entry, with a colon between them. -/
def denoteEntries (around : List (Nat × Text)) : List (Value × Value) → List Text
  | [] => []
  | (k, v) :: rest =>
    (denoteIn around k ++ ':' :: ' ' :: denoteIn around v) :: denoteEntries around rest

end

/-- A value as it is shown inside another one. -/
def denote (v : Value) : Text := denoteIn [] v

/-- The text of a value where a text is asked for: a text is its own, dates and moments are written
as such, anything else is shown. In the place of a surrogate stands the replacement character. -/
def asText : Value → Text
  | .text t => t
  | .points codes =>
    codes.map fun n => if Text.isSurrogate n then Char.ofNat 0xFFFD else Char.ofNat n
  | .date d => d.write
  | .moment m => m.write
  | v => denote v

/-- What a template prints for a value. -/
def output : Value → Text
  | .null => []
  | .bool b => Text.ofString (if b then "true" else "false")
  | v => asText v

mutual

/-- Whether all integers in a value have few enough digits to be written. -/
def isWritable : Value → Bool
  | .int n => Numeral.isWritable n
  | .list items => areWritable items
  | .tuple items => areWritable items
  | .map entries => haveWritable entries
  | .shared _ inside => isWritable inside
  | _ => true

/-- Whether each value of a row can be written. -/
def areWritable : List Value → Bool
  | [] => true
  | v :: rest => isWritable v && areWritable rest

/-- Whether key and value of each entry can be written. -/
def haveWritable : List (Value × Value) → Bool
  | [] => true
  | (k, v) :: rest => isWritable k && isWritable v && haveWritable rest

end

/-- The text of a value that can be written. -/
def asText? (v : Value) : Option Text := if v.isWritable then some v.asText else none

/-- What keeps a value from being written. -/
inductive Obstacle where
  /-- An integer of too many digits. -/
  | tooLong
  /-- Collections nested too deeply. -/
  | tooDeep
  deriving DecidableEq, Repr

mutual

/-- What keeps a value from being written that may have so many levels of collections. -/
def obstacle? (levels : Nat) : Value → Option Obstacle
  | .int n => if Numeral.isWritable n then none else some .tooLong
  | .list items => if levels = 0 then some .tooDeep else firstObstacle? (levels - 1) items
  | .tuple items => if levels = 0 then some .tooDeep else firstObstacle? (levels - 1) items
  | .map entries => if levels = 0 then some .tooDeep else entryObstacle? (levels - 1) entries
  | .shared _ inside => obstacle? levels inside
  | _ => none

/-- What keeps a row of values from being written. -/
def firstObstacle? (levels : Nat) : List Value → Option Obstacle
  | [] => none
  | v :: rest => (obstacle? levels v).or (firstObstacle? levels rest)

/-- What keeps entries from being written, the key of each before its value. -/
def entryObstacle? (levels : Nat) : List (Value × Value) → Option Obstacle
  | [] => none
  | (k, v) :: rest =>
    ((obstacle? levels k).or (obstacle? levels v)).or (entryObstacle? levels rest)

end

/-- What a template prints for a value that may have so many levels of collections. -/
def output? (levels : Nat) (v : Value) : Except Obstacle Text :=
  match obstacle? levels v with
  | some obstacle => .error obstacle
  | none => .ok v.output

end Value
end Stencil
