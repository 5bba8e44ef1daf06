import Stencil.Yaml.Building

/-!
# The value of a document

Most collections of a document do not stand inside themselves. Their values are put together from
the values of their parts, each only once, however many places it stands in (`Closing`). A map in
several places is one map, so it has an identity, which no collection of another document has; that
is left out where nothing will be set any more. The collections that stand inside themselves always
have one.
-/

namespace Stencil
namespace Yaml

/-- How often each collection is referred to from those that can be reached, `pending` being
references that have not been followed. -/
def countReferences (building : Building) : Nat → List Nat → Array Nat → Array Nat
  | 0, _, counts => counts
  | _, [], counts => counts
  | steps + 1, number :: pending, counts =>
    let isNew := counts[number]?.getD 0 == 0
    let more := if isNew then ((building.made? number).map inside).getD [] else []
    countReferences building steps (more ++ pending) (counts.modify number (· + 1))

/-- The number of references in all collections. -/
def Building.referenceCount (building : Building) : Nat :=
  (building.made.toList.map fun v => ((v.map inside).getD []).length).foldl (· + ·) 0

/-- The collections that have been looked at, and the values of those of them that do not lead to
themselves. -/
structure Closing where
  seen : Array Bool
  values : Array (Option Value)

namespace Closing

/-- Nothing has been looked at. -/
def start (size : Nat) : Closing := ⟨Array.replicate size false, Array.replicate size none⟩

/-- The value of a collection. -/
def value? (closing : Closing) (number : Nat) : Option Value := closing.values[number]?.join

/-- A part of a collection with values in the place of references. -/
def embed (closing : Closing) : Value → Value
  | .again number => (closing.value? number).getD (.again number)
  | .tuple items => .tuple (items.map fun v => match v with
    | .again number => (closing.value? number).getD (.again number)
    | v => v)
  | v => v

/-- Looks at a collection and what it leads to. A collection that is met again on the way from
itself has no value then, and neither has any that leads to it. -/
def visit (building : Building) (identify : Nat → Option Nat) : Nat → Nat → Closing → Closing
  | 0, _, closing => closing
  | steps + 1, number, closing =>
    if closing.seen[number]?.getD true then closing
    else match building.made? number with
      | none => closing
      | some v =>
        let begun := { closing with seen := closing.seen.modify number fun _ => true }
        let closing := (inside v).foldl
          (fun closing part => visit building identify steps part closing) begun
        if (inside v).all fun part => (closing.value? part).isSome then
          let whole := withParts closing.embed v
          let kept := match identify number with
            | some id => .shared id whole
            | none => whole
          { closing with values := closing.values.modify number fun _ => some kept }
        else closing

end Closing

/-- The value of a document, in which values can be set or not; identities are counted from `first`
on. -/
def Document.value (first : Nat) (isSettable : Bool) (document : Document) : Except Fault Value :=
  match (Build.document document.root).run (.start first document.nodes) with
  | .error fault => .error fault
  | .ok (v, building) =>
    let size := building.made.size
    let counts := countReferences building (building.referenceCount + 2) (references v)
      (Array.replicate size 0)
    let identify (number : Nat) : Option Nat :=
      if isSettable && counts[number]?.getD 0 > 1 && building.isMap number then
        some (building.identity number)
      else none
    let closing := (references v).foldl
      (fun closing part => Closing.visit building identify (size + 1) part closing) (.start size)
    .ok (building.unfolded closing.value? building.unfoldingSteps [] v)

/-- The first identity that can be given; zero is that of the common not-a-number. -/
def firstIdentity : Nat := 1

/-- The value of a text, with identities from `first` on, and the first identity that is free then;
the absent value for an empty text. -/
def readFrom (first : Nat) (isSettable : Bool) (t : Text) : Except Fault (Value × Nat) :=
  match Document.ofText t with
  | .error fault => .error fault
  | .ok none => .ok (.null, first)
  | .ok (some document) =>
    (document.value first isSettable).map fun v => (v, first + document.nodes.size)

/-- The value of a text in which nothing will be set. -/
def read (t : Text) : Except Fault Value := (readFrom firstIdentity false t).map (·.1)

end Yaml
end Stencil
