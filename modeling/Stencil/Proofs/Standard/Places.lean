import Stencil.Proofs.Execution.Faults
import Stencil.Proofs.Execution.Refinement
import Stencil.Proofs.Standard.Faults

/-! # Positions are exact

Whatever the standard grammar says of a place in a template is so (`Standard.exactPositions`).  A
position is found once, where a segment is cut off, and passed on from there: to the node of the
segment, to the instructions that are made for a tag and to the faults of its handler, and from the
instructions to the faults of a run.  At every stage it is that of an offset of the source, with the
line and the column that the source has there, and but for texts it is where a tag begins.
-/

namespace Stencil
namespace Standard
open Fragment (Every)
open Segment (OpensAt)

section

variable [Host]

/-- The positions that come of a source are those of the places they are about. -/
structure ExactPositions (source : Text) : Prop where
  /-- A segment has the position at which it begins. -/
  segment : ∀ {before s after}, Segment.cut families source = .ok (before ++ s :: after) →
    s.position = .ofOffset source (Segment.joined before).length
  /-- A document has the segments of the source, and its nodes their positions. -/
  node : ∀ {document}, Program.parse registry source = .ok document →
    Segment.cut families source = .ok document.segments ∧
      ∀ n, document.Holds n → n.InPlace families source document.segments
  /-- Every instruction but the literals has the position of a tag, at any depth. -/
  instruction : ∀ {fragment}, Program.compile registry source = .ok fragment →
    Every (Instruction.LocatedAt (OpensAt families source)) fragment
  /-- Every documented fault in compiling has the position of a tag. -/
  compileFault : ∀ {fault faultClass}, Program.compile registry source = .error fault →
    fault.class? = some faultClass →
      ∃ p, fault.position? = some p ∧ OpensAt families source p
  /-- So has every fault of the template in filling it with whatever data, unless something is
  nested too deeply. -/
  renderFault : ∀ {fragment data fault}, Program.compile registry source = .ok fragment →
    Machine.render fragment data = .error (.render fault) → fault ≠ .tooDeep →
      ∃ p, fault.position? = some p ∧ OpensAt families source p

/-- The instructions of a compiled template are where its tags begin. -/
theorem locatedAt_of_compile {source : Text} {fragment : Fragment}
    (h : Program.compile registry source = .ok fragment) :
    Every (Instruction.LocatedAt (OpensAt families source)) fragment := by
  refine (made_of_compile h).imp fun i hmade => hmade.imp_right ?_
  rintro ⟨position, htag, hmadeAt⟩
  exact ⟨position, hmadeAt.position?_eq, registry_ordered ▸ opensAt_of_hasTagAt htag⟩

/-- **All positions are exact**, those of segments, nodes, instructions and faults, whatever the
source and the data. -/
theorem exactPositions (source : Text) : ExactPositions source where
  segment hcut := (Segment.position_of_cut hcut).1
  node hparse := by
    obtain ⟨items, hcut, -, -⟩ := Document.exists_items_of_parse registry_made hparse
    rw [← registry_ordered]
    exact ⟨hcut, fun n hn => Document.inPlace_of_holds registry_made hparse hn⟩
  instruction := locatedAt_of_compile
  compileFault := by
    intro fault faultClass hcompile hclass
    rw [← registry_ordered]
    rcases accountedAt_of_compile hcompile with ⟨-, p, -, hposition, hopens⟩ | ⟨inner, rfl, -⟩
    · exact ⟨p, hposition, hopens⟩
    · cases hclass
  renderFault := by
    intro fragment data fault hcompile hrender hdeep
    rw [Machine.render_eq_semantics] at hrender
    exact (Semantics.position_of_render (locatedAt_of_compile hcompile) hrender).resolve_left hdeep

end

/-! ## A fault on the third line -/

attribute [local instance] Host.usual

/-- A conditional with an output on the line after it. -/
def indented : Text := Text.ofString "one\n\x7bif $x\x7d two\n  \x7b$y.z\x7d\x7b/if\x7d"

/-- What it compiles to. -/
def indentedFragment : Fragment :=
  [.literal (Text.ofString "one\n"),
    .branch (.path ['x'] [])
      [.literal (Text.ofString " two\n  "),
        .expression (.path ['y'] [['z']]) ['$', 'y', '.', 'z'] (some ⟨18, 3, 3⟩)]
      ['$', 'x'] (some ⟨4, 2, 1⟩)]

/-- The output has no value if there is no name `y`, and this is said of its place. -/
theorem exactPositions_indented :
    Program.compile registry indented = .ok indentedFragment ∧
      Machine.render indentedFragment (.map [(word "x", .bool true)]) =
        .error (.render (.expression (.undefinedName ['y']) (some ⟨18, 3, 3⟩))) ∧
      OpensAt families indented ⟨18, 3, 3⟩ := by
  have hcompile : Program.compile registry indented = .ok indentedFragment := by cbv
  have hrender : Machine.render indentedFragment (.map [(word "x", .bool true)]) =
      .error (.render (.expression (.undefinedName ['y']) (some ⟨18, 3, 3⟩))) := by
    rw [Machine.render_eq_semantics]
    cbv
  obtain ⟨p, hp, hopens⟩ := (exactPositions indented).renderFault hcompile hrender (by decide)
  obtain rfl := Option.some.inj hp
  exact ⟨hcompile, hrender, hopens⟩

end Standard
end Stencil
