import Stencil.Value.Written
import Stencil.Yaml.Merging
import Stencil.Yaml.Resolution

/-!
# The values of nodes

Sequences are lists and mappings are maps. As a key, a sequence is a tuple, and a mapping is no key.
A key occurs once in its mapping, unless something has been merged into it; then what comes later
prevails.

The value of a node is made once, and every name of the node stands for this value. So a collection
is referred to by the number of its node, as `Value.again`, and `made` holds what is in it. A
collection is begun empty and filled after all that are nearer to the root; of several faults the
first that is met on this way counts. What belongs to a key is filled at once, as keys have to be
compared. A collection that is still being filled as part of a key is nothing yet where it is
referred to.
-/

namespace Stencil
namespace Yaml

/-- How far the values of the nodes of a document are made. -/
structure Building where
  nodes : Nodes
  /-- The first identity of this document: a node is identified by this and its number. -/
  first : Nat
  /-- The values made so far by number; parts of them are referred to by number. -/
  made : Array (Option Value)
  /-- The collections that are being filled as parts of a key. -/
  underWay : List Nat
  /-- The collections that are still to be filled, the last one first. -/
  waiting : List Nat

/-- Making of a part of the values. -/
abbrev Build := StateT Building (Except Fault)

/-- The value of a node as a part of others: collections are referred to by number. -/
def referred (number : Nat) : Value → Value
  | .list _ => .again number
  | .map _ => .again number
  | v => v

/-- A collection of a kind with nothing in it. -/
def Kind.empty (kind : Kind) : Value := if kind = .mapping then .map [] else .list []

/-- The numbers of the collections that a part of a collection refers to. -/
def references : Value → List Nat
  | .again number => [number]
  | .tuple items => items.filterMap fun v => match v with
    | .again number => some number
    | _ => none
  | _ => []

/-- The numbers of the collections that a collection refers to. -/
def inside : Value → List Nat
  | .list items => items.flatMap references
  | .map entries => entries.flatMap fun e => references e.2
  | _ => []

/-- A collection with something in the place of each of its parts. -/
def withParts (change : Value → Value) : Value → Value
  | .list items => .list (items.map change)
  | .map entries => .map (entries.map fun e => (e.1, change e.2))
  | v => v

namespace Building

/-- Nothing is made yet. -/
def start (first : Nat) (nodes : Nodes) : Building :=
  ⟨nodes, first, Array.replicate nodes.size none, [], []⟩

/-- The identity of a node. -/
def identity (building : Building) (number : Nat) : Nat := building.first + number

/-- What has been made of a node. -/
def made? (building : Building) (number : Nat) : Option Value := building.made[number]?.join

/-- Whether a map has been made of a node. -/
def isMap (building : Building) (number : Nat) : Bool :=
  match building.made? number with
  | some (.map _) => true
  | _ => false

/-- A value with its parts in the place of references; some collections are `known` already. All
others have an identity. Inside themselves, and these are the collections `around`, they are
referred to by it. -/
def unfolded (building : Building) (known : Nat → Option Value) : Nat → List Nat → Value → Value
  | 0, _, v => v
  | steps + 1, around, v =>
    let part := unfolded building known steps
    match v with
    | .tuple items => .tuple (items.map (part around))
    | .again number =>
      match known number with
      | some whole => whole
      | none =>
        let id := building.identity number
        if around.contains number then .again id
        else match building.made? number with
          | some v => .shared id (withParts (part (number :: around)) v)
          | none => .null
    | v => v

/-- The steps that unfolding takes at most: two to a level. -/
def unfoldingSteps (building : Building) : Nat := 2 * building.made.size + 2

/-- Whether a value can be shown in a message, as far as it is made. -/
def isShown (building : Building) (v : Value) : Bool :=
  (building.unfolded (fun _ => none) building.unfoldingSteps [] v).isWritable

/-- The fault of a repeated key. The message about it shows the key and both values. -/
def repeatedKey (building : Building) (key value earlier : Value) : Fault :=
  if building.isShown key && building.isShown value && building.isShown earlier then .malformed
  else .unwritable

/-- The entries with one more. If they are checked, the key must be new. -/
def addEntry (building : Building) (checked : Bool) (entries : List (Value × Value))
    (key value : Value) : Except Fault (List (Value × Value)) :=
  if !key.isKey then .error .unusableKey
  else match checked, Value.lookup key entries with
    | true, some earlier => .error (building.repeatedKey key value earlier)
    | _, _ => .ok (Value.put key value entries)

end Building

namespace Build

/-- The document is none. -/
def refuse : Build α := throw .malformed

/-- The node of a number. -/
def node (number : Nat) : Build Node := do
  match (← get).nodes[number]? with
  | some node => return node
  | none => refuse

/-- Keeps the value of a node. -/
def keep (number : Nat) (v : Value) : Build Unit :=
  modify fun building => { building with made := building.made.modify number fun _ => some v }

/-- What is written in a scalar. A mapping in its place writes what stands under its key `=`. -/
def contentOf : Nat → Nat → Build Content
  | 0, _ => throw .tooDeep
  | steps + 1, number => do
    match (← node number).body with
    | .scalar content => return content
    | .sequence _ => refuse
    | .mapping entries _ =>
      let nodes := (← get).nodes
      match entries.find? fun e => nodes.isOfKind .default e.1 with
      | some (_, value) => contentOf steps value
      | none => refuse

/-- The value of a node of a kind that holds no others. -/
def scalar (number : Nat) (node : Node) : Build Value := do
  let id := (← get).identity number
  match node.kind, node.body with
  | .timestamp, .scalar content => ofExcept (valueOf id .timestamp content)
  | .timestamp, _ => refuse
  | .unknown, _ => refuse
  | .merge, _ => refuse
  | .default, _ => refuse
  | kind, _ =>
    let content ← contentOf ((← get).nodes.size + 1) number
    ofExcept (valueOf id kind content)

/-- The value of a node as a part of others. `fill` makes what is in a collection. -/
def part (fill : Nat → Build Value) (inKey : Bool) (number : Nat) : Build Value := do
  match (← get).made? number with
  | some v => return referred number v
  | none =>
    let node ← node number
    if !node.kind.isCollection then
      let v ← scalar number node
      keep number v
      return v
    else if (← get).underWay.contains number then return .null
    else if inKey then
      modify fun building => { building with underWay := number :: building.underWay }
      let v ← fill number
      modify fun building => { building with underWay := building.underWay.drop 1 }
      keep number v
      return .again number
    else
      keep number node.kind.empty
      modify fun building => { building with waiting := number :: building.waiting }
      return .again number

/-- A part as the key of a mapping: a list is a tuple of what is in it so far. -/
def keyOf (v : Value) : Build Value := do
  match v with
  | .again number =>
    match (← get).made? number with
    | some (.list items) => return .tuple items
    | _ => refuse
  | v => return v

/-- The key and the value of the only entry of a mapping. -/
def pair (fill : Nat → Build Value) (inKey : Bool) (number : Nat) : Build Value := do
  match (← node number).body with
  | .mapping [(key, value)] _ => return .tuple [← part fill inKey key, ← part fill inKey value]
  | _ => refuse

/-- What is in a collection. -/
def contents : Nat → Bool → Nat → Build Value
  | 0, _, _ => throw .tooDeep
  | steps + 1, inKey, number => do
    let fill := contents steps true
    let node ← node number
    match node.kind, node.body with
    | .sequence, .sequence items => return .list (← items.mapM (part fill inKey))
    | .pairs, .sequence items => return .list (← items.mapM (pair fill inKey))
    | .mapping, .mapping _ _ =>
      let nodes ← ofExcept ((← get).nodes.merge number)
      modify fun building => { building with nodes := nodes }
      let checked := match nodes[number]? with
        | some ⟨_, .mapping _ isMerged⟩ => !isMerged
        | _ => true
      let entries ← (nodes.entries number).foldlM
        (fun done (key, value) => do
          let k ← keyOf (← part fill true key)
          let v ← part fill inKey value
          ofExcept ((← get).addEntry checked done k v))
        []
      return .map entries
    | _, _ => refuse

/-- Fills the collections that wait, and then those that have been begun meanwhile. Every round
begins collections that have not been begun before. -/
def fillAll : Nat → Build Unit
  | 0 => return
  | rounds + 1 => do
    let building ← get
    if building.waiting.isEmpty then return
    set { building with waiting := [] }
    building.waiting.reverse.forM fun number => do
      keep number (← contents (building.nodes.size + 1) false number)
    fillAll rounds

/-- Makes all values of a document; gives that of its root. -/
def document (root : Nat) : Build Value := do
  let v ← part (contents ((← get).nodes.size + 1) true) false root
  fillAll ((← get).nodes.size + 1)
  return v

end Build
end Yaml
end Stencil
