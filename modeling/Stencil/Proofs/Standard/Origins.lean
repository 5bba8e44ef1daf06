import Stencil.Proofs.Program.Shape
import Stencil.Proofs.Standard.Compilation

/-! # Where the instructions of a compiled template come from

Every instruction of what a template of the standard grammar compiles to, at any depth, is a literal
or was made for a tag of its document, and then it has the position of this tag
(`Standard.made_of_compile`).  There are no calls among them.
-/

namespace Stencil

/-- An instruction that is made for a tag at a position. -/
inductive Instruction.MadeAt (position : Position) : Instruction → Prop
  | expression (e : Expression) (source : Text) :
      MadeAt position (.expression e source (some position))
  | branch (condition : Expression) (body : Fragment) (source : Text) :
      MadeAt position (.branch condition body source (some position))
  | elseBranch (condition : Expression) (body : Fragment) (source : Text) :
      MadeAt position (.elseBranch condition body source (some position))
  | otherwise (body : Fragment) : MadeAt position (.otherwise body (some position))
  | loop (target : Text) (collection : Expression) (body : Fragment) (mode : LoopMode)
      (source : Text) : MadeAt position (.loop target collection body mode source (some position))

theorem Instruction.MadeAt.position?_eq {position : Position} {i : Instruction}
    (h : i.MadeAt position) : i.position? = some position := by cases h <;> rfl

/-- An instruction of a compiled template: a literal, or made for a tag at a position of which
something is known. -/
def Instruction.Made (known : Position → Prop) (i : Instruction) : Prop :=
  Fragment.isLiteral i = true ∨ ∃ position, known position ∧ i.MadeAt position

theorem Instruction.Made.mono {known known' : Position → Prop} {i : Instruction} (h : i.Made known)
    (himp : ∀ position, known position → known' position) : i.Made known' :=
  h.imp_right fun ⟨position, hknown, hmade⟩ => ⟨position, himp position hknown, hmade⟩

namespace Standard
open Fragment

variable [Host]

/-- What a construct makes of a tag: instructions at the position of the tag, with the fragment that
is given as their body; or that fragment as it is. -/
theorem made_of_apply {known : Position → Prop} {construct : Construct} {tag : Occurrence}
    {inner f : Fragment} (hknown : known tag.head.position)
    (hinner : Every (Instruction.Made known) inner) (h : construct.apply tag inner = .ok f) :
    Every (Instruction.Made known) f := by
  cases construct with
  | comment =>
    obtain rfl := Except.ok.inj h
    exact .nil
  | output =>
    obtain ⟨e, -, rfl⟩ := exists_of_map_eq_ok h
    exact .single (Or.inr ⟨_, hknown, .expression _ _⟩) .nil
  | conditional =>
    obtain ⟨e, -, rfl⟩ := exists_of_map_eq_ok h
    exact .single (Or.inr ⟨_, hknown, .branch _ _ _⟩) hinner
  | alternative =>
    obtain ⟨e, -, rfl⟩ := exists_of_map_eq_ok h
    exact .single (Or.inr ⟨_, hknown, .elseBranch _ _ _⟩) hinner
  | otherwise =>
    obtain rfl := Except.ok.inj h
    exact .single (Or.inr ⟨_, hknown, .otherwise _⟩) hinner
  | loop mode =>
    obtain ⟨target, e, source, -, -, rfl⟩ := loop_eq_ok h
    exact .single (Or.inr ⟨_, hknown, .loop _ _ _ _ _⟩) hinner
  | literal =>
    obtain rfl := Except.ok.inj h
    exact hinner

/-- A position of a tag of a template. -/
def HasTagAt (template : Text) (position : Position) : Prop :=
  ∃ document id head closing children, Program.parse registry template = .ok document ∧
    document.Holds (.tag id head closing children) ∧ head.position = position

/-- What literals have, and what every construct leaves to an instruction if all instructions inside
have it, all instructions have that the nodes of a document give. -/
theorem every_of_applyAll {document : Document} {P : Instruction → Prop}
    (literal : ∀ t, P (.literal t))
    (tag : ∀ {id head closing children construct inner f},
      document.Holds (.tag id head closing children) → Every P inner →
      Construct.apply construct ⟨head, Document.enclosed document.segments head closing⟩ inner =
        .ok f → Every P f)
    {nodes : List Node} {results : List Fragment} (hnodes : ∀ n ∈ nodes, document.Holds n)
    (h : (Program.rule registry document.segments).applyAll nodes = .ok results) :
    ∀ f ∈ results, Every P f := by
  refine Program.forall_of_applyAll (fun t => .single (literal t) .nil) ?_ hnodes h
  intro id head closing children results inner handler f hholds hall hjoin hhandler happly
  have htag : Program.ofTag registry
      ⟨head, Document.enclosed document.segments head closing⟩ inner = .ok f := by
    rw [Program.ofTag, hhandler]
    exact happly
  obtain ⟨construct, -, hmade⟩ := ofTag_eq_ok htag
  exact tag hholds (Every.joinAll literal hall hjoin) hmade

/-- Every instruction of what the nodes of a document give, at any depth, is a literal or was made
for a tag of the document. -/
theorem made_of_applyAll {template : Text} {document : Document}
    (hparse : Program.parse registry template = .ok document) {nodes : List Node}
    {results : List Fragment} (hnodes : ∀ n ∈ nodes, document.Holds n)
    (h : (Program.rule registry document.segments).applyAll nodes = .ok results) :
    ∀ f ∈ results, Every (Instruction.Made (HasTagAt template)) f := by
  refine every_of_applyAll (fun _ => Or.inl rfl) ?_ hnodes h
  intro id head closing children construct inner f hholds hinner happly
  exact made_of_apply ⟨document, id, head, closing, children, hparse, hholds, rfl⟩ hinner happly

/-- **Every instruction of a compiled template**, at any depth, is a literal or was made for a tag of
the template, at its position. -/
theorem made_of_compile {template : Text} {fragment : Fragment}
    (h : Program.compile registry template = .ok fragment) :
    Every (Instruction.Made (HasTagAt template)) fragment := by
  obtain ⟨document, results, hparse, hresults, hjoin⟩ := Program.exists_of_compile h
  have hmade := made_of_applyAll hparse document.holds_of_mem_children hresults
  exact Every.joinAll (fun _ => Or.inl rfl) hmade hjoin

end Standard
end Stencil
