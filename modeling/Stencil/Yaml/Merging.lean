import Stencil.Yaml.Node

/-!
# Merging of mappings

The key `<<` brings the entries of other mappings into its own: those of one mapping, or of a
sequence of mappings of which the first one prevails. What is brought in comes first and is repeated
by what the mapping itself says, so that the later entry of a key counts. Only the last of several
such keys may bring in anything.

A mapping can be merged into itself by way of names. Every key `<<` is taken away before its
mappings are looked at, so merging ends after as many steps as there are such keys.
-/

namespace Stencil
namespace Yaml
namespace Nodes

/-- Whether a node is of a kind. -/
def isOfKind (nodes : Nodes) (kind : Kind) (number : Nat) : Bool :=
  nodes[number]?.any fun node => node.kind == kind

/-- The entries of a node that is a mapping. -/
def entries? (nodes : Nodes) (number : Nat) : Option (List (Nat × Nat)) :=
  match nodes[number]? with
  | some ⟨_, .mapping entries _⟩ => some entries
  | _ => none

/-- The entries of a node, none of one that is no mapping. -/
def entries (nodes : Nodes) (number : Nat) : List (Nat × Nat) := (nodes.entries? number).getD []

/-- The number of keys that merge mappings. -/
def mergeKeys (nodes : Nodes) : Nat :=
  (nodes.toList.map fun node =>
    match node.body with
    | .mapping entries _ => entries.countP fun e => nodes.isOfKind .merge e.1
    | _ => 0).foldl (· + ·) 0

/-- The nodes after changing the entries of one. -/
def setEntries (nodes : Nodes) (number : Nat) (entries : List (Nat × Nat)) (isMerged : Bool) :
    Nodes :=
  nodes.modify number fun node => { node with body := .mapping entries isMerged }

/-- The nodes with text in the place of some reserved signs. -/
def spell (nodes : Nodes) (keys : List Nat) : Nodes :=
  keys.foldl
    (fun nodes key =>
      if nodes.isOfKind .default key then
        nodes.modify key fun node => { node with kind := .text }
      else nodes)
    nodes

/-- Gives a mapping the entries that have been brought in, in front of its own. -/
def bring (nodes : Nodes) (number : Nat) (brought : List (Nat × Nat)) : Nodes :=
  let own := nodes.entries number
  let spelled := nodes.spell (own.map (·.1))
  if brought.isEmpty then spelled else spelled.setEntries number (brought ++ own) true

/-- Merges into a mapping what its keys `<<` say, in so many steps at most; `brought` are the
entries that one of them has brought in. -/
def mergeWithin (number : Nat) (brought : List (Nat × Nat)) : Nat → Nodes → Except Fault Nodes
  | 0, _ => .error .tooDeep
  | steps + 1, nodes =>
    let own := nodes.entries number
    match own.find? fun e => nodes.isOfKind .merge e.1 with
    | none => .ok (nodes.bring number brought)
    | some (key, value) =>
      if !brought.isEmpty then .error .malformed
      else
        let left := nodes.setEntries number (own.erase (key, value)) false
        match left[value]? with
        | some ⟨_, .mapping _ _⟩ => do
          let merged ← mergeWithin value [] steps left
          mergeWithin number (merged.entries value) steps merged
        | some ⟨_, .sequence items⟩ => do
          let (merged, rows) ← items.foldlM
            (fun (nodes, rows) item =>
              if (nodes.entries? item).isNone then .error .malformed
              else (mergeWithin item [] steps nodes).map fun nodes =>
                (nodes, nodes.entries item :: rows))
            (left, [])
          mergeWithin number rows.flatten steps merged
        | _ => .error .malformed

/-- Merges into a mapping what its keys `<<` say. -/
def merge (nodes : Nodes) (number : Nat) : Except Fault Nodes :=
  if (nodes.entries number).any fun e => nodes.isOfKind .merge e.1 then
    mergeWithin number [] (nodes.mergeKeys + 1) nodes
  else .ok (nodes.bring number [])

end Nodes
end Yaml
end Stencil
