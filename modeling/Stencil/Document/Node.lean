import Stencil.Source.Tag

/-!
# Documents

A document is a template as a tree: stretches of text and tags, a tag holding the nodes between its
opening and its closing tag. Every node has a number, in the order in which the nodes begin in the
template; zero is the document itself.

Whitespace before an isolated tag stays in the tree as a node that is not `attached`: it keeps its
number and belongs to nothing.
-/

namespace Stencil

/-- What an opening or anonymous tag says about itself. -/
structure TagHead where
  /-- The name of the tag; an anonymous tag has none. -/
  name : Option Text
  /-- The key of the tag's family. -/
  family : Value
  arguments : Arguments
  /-- What stands in the tag besides delimiters and name. -/
  raw : Text
  /-- The index of the tag among the segments of the template. -/
  segment : Nat
  position : Position

/-- A node of a document. -/
inductive Node where
  | text (id : Nat) (value : Text) (position : Position) (attached : Bool)
  /-- A tag, with the index of the segment that closes it, if one does. -/
  | tag (id : Nat) (head : TagHead) (closing : Option Nat) (children : List Node)

/-- A template as a tree. -/
structure Document where
  children : List Node
  segments : List Segment

/-- A tag as a handler sees it. -/
structure Occurrence where
  head : TagHead
  /-- The segments between the opening and the closing tag. -/
  enclosed : List Segment

/-- The text between the opening and the closing tag. -/
def Occurrence.source (tag : Occurrence) : Text := Segment.joined tag.enclosed

namespace Node

/-- The number of a node. -/
def id : Node → Nat
  | .text id _ _ _ => id
  | .tag id _ _ _ => id

/-- Whether a node belongs to a tag or to the document. -/
def isAttached : Node → Bool
  | .text _ _ _ attached => attached
  | .tag _ _ _ _ => true

/-- The nodes inside a node that belong to it. -/
def children : Node → List Node
  | .text _ _ _ _ => []
  | .tag _ _ _ children => children.filter isAttached

mutual

/-- How many nodes a node consists of. -/
def count : Node → Nat
  | .text _ _ _ _ => 1
  | .tag _ _ _ children => countAll children + 1

/-- How many nodes a row of nodes consists of. -/
def countAll : List Node → Nat
  | [] => 0
  | n :: rest => count n + countAll rest

end

theorem count_pos (n : Node) : 0 < n.count := by cases n <;> simp [count]

theorem countAll_append (a b : List Node) : countAll (a ++ b) = countAll a + countAll b := by
  induction a with
  | nil => simp [countAll]
  | cons n a ih => simp [countAll, ih, Nat.add_assoc]

theorem countAll_filter_le (p : Node → Bool) (a : List Node) :
    countAll (a.filter p) ≤ countAll a := by
  induction a with
  | nil => simp
  | cons n a ih =>
    simp only [List.filter_cons]
    split <;> simp only [countAll] <;> omega

theorem countAll_children_lt (n : Node) : countAll n.children < n.count := by
  cases n with
  | text => simp [children, count, countAll]
  | tag _ _ _ cs =>
    have := countAll_filter_le isAttached cs
    simp only [children, count]
    omega

end Node

namespace Document

/-- The segments that a tag encloses, from its own index to that of the segment closing it. -/
def enclosed (segments : List Segment) (head : TagHead) (closing : Option Nat) : List Segment :=
  match closing with
  | some last => (segments.drop (head.segment + 1)).take (last - (head.segment + 1))
  | none => []

/-- The nodes that belong to the document itself. -/
def roots (document : Document) : List Node := document.children.filter Node.isAttached

/-- The number of nodes, the document itself included. -/
def size (document : Document) : Nat := Node.countAll document.children + 1

end Document
end Stencil
