import Stencil.Document.Folding
import Stencil.Document.Records

/-!
# The outline of a document

The outline is what a document shows of itself for inspection: texts, and tags with name, family,
arguments, text and line. The document is a tag without any of these. It is computed from the
leaves up, to any depth.
-/

namespace Stencil

/-- What an outline shows of a tag, or of the document. -/
structure OutlineHead where
  isDocument : Bool
  name : Option Text
  family : Value
  arguments : Arguments
  raw : Option Text
  line : Option Nat

/-- An outline. -/
inductive Outline where
  | text (value : Text)
  | tag (head : OutlineHead) (children : List Outline)

namespace Outline

/-- What is shown of a tag. -/
def headOf (head : TagHead) : OutlineHead :=
  ⟨false, head.name, head.family, head.arguments, some head.raw, some head.position.line⟩

/-- What is shown of the document. -/
def documentHead : OutlineHead := ⟨true, none, .null, [], none, none⟩

/-- How the outline of a node is made; nothing can fail. -/
def rule : Rule Empty Outline where
  text value _ := .ok (.text value)
  tag head _ children := .ok (.tag (headOf head) children)

/-- The outlines of a row of nodes. -/
def ofNodes (nodes : List Node) : List Outline :=
  match rule.run nodes with
  | .ok outlines => outlines

/-- The outline of a node. -/
def ofNode : Node → Outline
  | .text _ value _ _ => .text value
  | .tag id head closing children =>
    .tag (headOf head) (ofNodes (Node.children (.tag id head closing children)))

end Outline

/-- The outline of a document. -/
def Document.outline (document : Document) : Outline :=
  .tag Outline.documentHead (Outline.ofNodes document.roots)

/-- The outline of the node with a number, if there is such a node; a negative number counts from
the last node. -/
def Document.outlineOf? (document : Document) (n : Int) : Option Outline :=
  let id := if n < 0 then n + document.size else n
  if id < 0 then none
  else if id = 0 then some document.outline
  else (Node.withIdAll? id.toNat document.children).map Outline.ofNode

end Stencil
