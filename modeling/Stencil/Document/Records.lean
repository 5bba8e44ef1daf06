import Stencil.Document.Node

/-!
# The nodes of a document as a table

`records` lists all nodes of a document by number, each with the numbers of the node that it
belongs to and of the nodes that belong to it. The first record is the document itself. Nodes that
belong to nothing are listed too.

`walk` visits the nodes that belong to the document, each before what it holds, with the nodes
still to be visited on a stack; so it goes to any depth.
-/

namespace Stencil

/-- A node without the nodes inside it. -/
inductive Content where
  | document
  | text (value : Text) (position : Position)
  | tag (head : TagHead) (closing : Option Nat)

/-- A row of the table. -/
structure Record where
  id : Nat
  parent : Option Nat
  content : Content
  children : List Nat

namespace Node

/-- A node without the nodes inside it. -/
def content : Node → Content
  | .text _ value position _ => .text value position
  | .tag _ head closing _ => .tag head closing

mutual

/-- The records of a node that stands inside the node `parent`, and of the nodes inside it. -/
def records (parent : Nat) : Node → List Record
  | .text id value position attached =>
    [⟨id, if attached then some parent else none, .text value position, []⟩]
  | .tag id head closing children =>
    ⟨id, some parent, .tag head closing, (children.filter isAttached).map Node.id⟩ ::
      recordsAll id children

/-- The records of a row of nodes. -/
def recordsAll (parent : Nat) : List Node → List Record
  | [] => []
  | n :: rest => records parent n ++ recordsAll parent rest

end

/-- The nodes reached from those on a stack, each followed by what it holds. -/
def visit : List Node → List Node
  | [] => []
  | n :: stack => n :: visit (n.children ++ stack)
  termination_by stack => countAll stack
  decreasing_by
    have := countAll_children_lt n
    simp only [countAll_append, countAll]
    omega

mutual

/-- The node with a number, among a node and those inside it. -/
def withId? (id : Nat) (n : Node) : Option Node :=
  if n.id = id then some n
  else match n with
    | .text _ _ _ _ => none
    | .tag _ _ _ children => withIdAll? id children

/-- The node with a number, among a row of nodes and those inside them. -/
def withIdAll? (id : Nat) : List Node → Option Node
  | [] => none
  | n :: rest =>
    match withId? id n with
    | some found => some found
    | none => withIdAll? id rest

end

/-- The name of a tag. -/
def name? : Node → Option Text
  | .text _ _ _ _ => none
  | .tag _ head _ _ => head.name

end Node

namespace Document

/-- All nodes by number. -/
def records (document : Document) : List Record :=
  ⟨0, none, .document, document.roots.map Node.id⟩ :: Node.recordsAll 0 document.children

/-- The nodes that belong to the document, each before what it holds. -/
def walk (document : Document) : List Node := Node.visit document.roots

/-- The tags with a name, in the order of the walk. -/
def find (document : Document) (name : Text) : List Node :=
  document.walk.filter fun n => n.name? == some name

end Document
end Stencil
