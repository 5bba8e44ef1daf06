import Stencil.Document.Folding
import Stencil.Grammar.Registry

/-!
# Generating instructions

A document becomes a fragment from its leaves up: a text becomes a literal, and a tag becomes what
its handler makes of it and of the joined fragments of the nodes inside. The document itself has no
handler; its fragment is what its nodes give, joined. Where fragments are joined, a member of a
chain must follow its chain.
-/

namespace Stencil
namespace Program

/-- What is shown of a tag for which nobody is responsible: its name, or its text. -/
def label (head : TagHead) : Text :=
  match head.name with
  | some (c :: name) => c :: name
  | _ => Text.trim head.raw

/-- The fragment of a tag, given the fragment of what it holds. -/
def ofTag (registry : Registry) (tag : Occurrence) (inner : Fragment) :
    Except CompileFault Fragment :=
  match registry.handlerFor? tag.head.family tag.head.name with
  | some handler => handler.apply tag inner
  | none => .error (.noHandler (label tag.head) tag.head.family.asText tag.head.position)

/-- Joins the fragments of the nodes inside a tag. -/
def joinAll (fragments : List Fragment) : Except CompileFault Fragment :=
  (Fragment.joinChecked fragments).mapError .brokenChain

/-- How the nodes of a document with the given segments become fragments. -/
def rule (registry : Registry) (segments : List Segment) : Rule CompileFault Fragment where
  text t _ := .ok [.literal t]
  tag head closing fragments :=
    match joinAll fragments with
    | .ok inner => ofTag registry ⟨head, Document.enclosed segments head closing⟩ inner
    | .error fault => .error fault

/-- The fragment of a document. -/
def generate (registry : Registry) (document : Document) : Except CompileFault Fragment :=
  match (rule registry document.segments).run document.roots with
  | .ok fragments => joinAll fragments
  | .error fault => .error fault

/-- The document that a template is. -/
def parse (registry : Registry) (template : Text) : Except CompileFault Document :=
  match Segment.cut registry.ordered template with
  | .error fault => .error (.unterminated fault)
  | .ok segments => (Document.ofSegments registry.ordered segments).mapError .unbuilt

/-- The fragment of a template. -/
def compile (registry : Registry) (template : Text) : Except CompileFault Fragment :=
  match parse registry template with
  | .ok document => generate registry document
  | .error fault => .error fault

end Program
end Stencil
