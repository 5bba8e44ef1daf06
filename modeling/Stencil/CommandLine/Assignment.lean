import Stencil.Value.Basic
import Stencil.Yaml.Document

/-!
# Assignments

An assignment `KEY=VALUE` on the command line sets a value of the data. The key is a path of names
with points between them; maps on the way are made where there are none. The value is a YAML
document, or the empty text if there is none.

A map that stands in several places is set in all of them: a path leads to the innermost such map
that it passes (`place`), and is followed from there on in each of its places.
-/

namespace Stencil
namespace CommandLine

/-- Why an assignment cannot be made. -/
inductive AssignmentFault where
  /-- There is no equals sign. -/
  | noValue (assignment : Text)
  /-- The key has no name in it. -/
  | noKey (assignment : Text)
  /-- The value is no YAML document, or one without a value. -/
  | unreadable (fault : Yaml.Fault)
  deriving DecidableEq, Repr

/-- The entries of a value that is a map, none of any other value. -/
def entriesOf : Option Value → List (Value × Value)
  | some (.map entries) => entries
  | _ => []

/-- The entries after setting a value at the end of a path. What stands on the way and is no map is
replaced by one. -/
def assign (value : Value) : List Text → List (Value × Value) → List (Value × Value)
  | [], entries => entries
  | [name], entries => Value.put (.text name) value entries
  | name :: rest, entries =>
    Value.put (.text name)
      (.map (assign value rest (entriesOf (Value.named name entries)))) entries

/-- Data in which values are set, and the first identity that is free. -/
structure Workspace where
  data : Value
  free : Nat

/-- Where a path is followed from, and what is left of it there. -/
structure Place where
  /-- The identity of a map; `none` for the data as a whole. -/
  identity : Option Nat
  path : List Text

/-- The place of a path that is followed from a map, `found` being the place so far. -/
def placeFrom (found : Place) : List Text → Value → Place
  | [], _ => found
  | name :: rest, v =>
    let here := match v with
      | .shared id _ => ⟨some id, name :: rest⟩
      | _ => found
    match v.entries?.bind (Value.named name) with
    | none => here
    | some next => if next.entries?.isSome && !rest.isEmpty then placeFrom here rest next else here

/-- The place of a path in data. -/
def place (path : List Text) (data : Value) : Place := placeFrom ⟨none, path⟩ path data

/-- A map after setting a value at the end of a path. -/
def assignIn (value : Value) (path : List Text) (v : Value) : Value :=
  .map (assign value path (entriesOf (some v)))

mutual

/-- The value with a change to the collection of an identity. -/
def changed (id : Nat) (change : Value → Value) : Value → Value
  | .list items => .list (changedAll id change items)
  | .tuple items => .tuple (changedAll id change items)
  | .map entries => .map (changedEntries id change entries)
  | .shared n inside =>
    .shared n (if n = id then change inside else changed id change inside)
  | v => v

/-- A row with a change to the collection of an identity. -/
def changedAll (id : Nat) (change : Value → Value) : List Value → List Value
  | [] => []
  | v :: rest => changed id change v :: changedAll id change rest

/-- Entries with a change to the collection of an identity; keys hold none. -/
def changedEntries (id : Nat) (change : Value → Value) :
    List (Value × Value) → List (Value × Value)
  | [] => []
  | (k, v) :: rest => (k, changed id change v) :: changedEntries id change rest

end

/-- Data after setting a value at the end of a path. -/
def assignTo (value : Value) (path : List Text) (data : Value) : Value :=
  let place := place path data
  match place.identity with
  | none => assignIn value place.path data
  | some id => changed id (assignIn value place.path) data

/-- The names of a key. -/
def keyPath (key : Text) : List Text :=
  (Text.fields '.' (Text.trim key)).filter fun part => !part.isEmpty

/-- The value of an assignment, and the first identity that is free then. -/
def valueOf (free : Nat) (t : Text) : Except AssignmentFault (Value × Nat) :=
  if Text.allBlank t then .ok (.text [], free)
  else (Yaml.readFrom free true t).mapError .unreadable

/-- How the text of a value is read: with the first identity that is free, before and after. -/
abbrev Loading := Nat → Text → Except AssignmentFault (Value × Nat)

/-- Makes an assignment, the value of which is read as given. -/
def assignOne (load : Loading) (work : Workspace) (assignment : Text) :
    Except AssignmentFault Workspace :=
  let key := assignment.takeWhile (· ≠ '=')
  if key.length = assignment.length then .error (.noValue assignment)
  else
    let path := keyPath key
    if path.isEmpty then .error (.noKey assignment)
    else (load work.free (assignment.drop (key.length + 1))).map fun (v, free) =>
      ⟨assignTo v path work.data, free⟩

/-- Makes assignments one after the other. -/
def assignAll (load : Loading) (work : Workspace) :
    List Text → Except AssignmentFault Workspace
  | [] => .ok work
  | assignment :: rest =>
    match assignOne load work assignment with
    | .ok work => assignAll load work rest
    | .error fault => .error fault

/-- The wording of a fault. -/
def AssignmentFault.message : AssignmentFault → String
  | .noValue assignment =>
    let assignment := String.ofList assignment
    s!"Invalid assignment '{assignment}'. Expected 'KEY=VALUE'"
  | .noKey assignment =>
    let assignment := String.ofList assignment
    s!"Invalid assignment '{assignment}'. Empty key"
  | .unreadable fault => fault.message

end CommandLine
end Stencil
