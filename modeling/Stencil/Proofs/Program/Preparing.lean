import Stencil.Program.Compiler
import Stencil.Proofs.Grammar.Registration
import Stencil.Proofs.Source.Searching

/-! # What a compiler has prepared makes no difference

A compiler keeps the names that it has prepared of a family under the key of the family, and never
drops them.  As the families of a registry stand under different keys, what is found under the key
of a family are its own names (`Prepared.Sound`): a computation that uses them comes to the same as
if it had prepared them itself, and leaves only such names behind (`Preparing.Computes`).  This goes
from the names of one family through readings, segments and rows of them up to whole templates, so
that a compiler answers as one that has met no template yet (`Compiler.compile_eq`).
-/

namespace Stencil
open Family

variable {families : List Family}

namespace Prepared

/-- What is kept under the key of a family are its names. -/
def Sound (families : List Family) (prepared : Prepared) : Prop :=
  ∀ e ∈ prepared, ∀ family ∈ families, Value.sameKey family.key e.1 = true →
    Tag.names? family.tags = some e.2

theorem sound_nil (families : List Family) : Sound families [] :=
  fun _ h => absurd h List.not_mem_nil

/-- The names of one more family are kept. -/
theorem Sound.cons {prepared : Prepared} (h : Sound families prepared) (hkeyed : Keyed families)
    {family : Family} (hmem : family ∈ families) {names : List (Text × TagSpec)}
    (hnames : Tag.names? family.tags = some names) :
    Sound families ((family.key, names) :: prepared) := by
  intro e he f hf hsame
  rcases List.mem_cons.mp he with rfl | he
  · rw [hkeyed.eq_of_sameKey hf hmem hsame]
    exact hnames
  · exact h e he f hf hsame

end Prepared

namespace Preparing

/-- A computation that comes to a value, whatever has been prepared. -/
def Computes {α : Type} (families : List Family) (x : Preparing α) (a : α) : Prop :=
  ∀ prepared, Prepared.Sound families prepared →
    ∃ prepared', StateT.run x prepared = (a, prepared') ∧ Prepared.Sound families prepared'

theorem computes_pure {α : Type} (a : α) : Computes families (pure a) a :=
  fun prepared hsound => ⟨prepared, rfl, hsound⟩

theorem Computes.bind {α β : Type} {x : Preparing α} {f : α → Preparing β} {a : α} {b : β}
    (hx : Computes families x a) (hf : Computes families (f a) b) :
    Computes families (x >>= f) b := by
  intro prepared hsound
  obtain ⟨prepared', hrun, hsound'⟩ := hx prepared hsound
  obtain ⟨prepared'', hrun', hsound''⟩ := hf prepared' hsound'
  refine ⟨prepared'', ?_, hsound''⟩
  rw [StateT.run_bind, hrun]
  exact hrun'

/-- **The names of a family** are what preparing them anew comes to. -/
theorem computes_names? (hkeyed : Keyed families) {family : Family} (hmem : family ∈ families) :
    Computes families (names? family) (Tag.names? family.tags) := by
  intro prepared hsound
  cases hfind : prepared.find? fun e => Value.sameKey family.key e.1 with
  | some e =>
    -- they have been prepared, of the only family under this key
    have hsame : Value.sameKey family.key e.1 = true := by
      simpa using List.find?_some hfind
    have hnames := hsound e (List.mem_of_find?_eq_some hfind) family hmem hsame
    refine ⟨prepared, ?_, hsound⟩
    simp only [names?, StateT.run_bind, StateT.run_get, pure_bind, hfind, hnames]
    rfl
  | none =>
    cases hnames : Tag.names? family.tags with
    | none =>
      refine ⟨prepared, ?_, hsound⟩
      simp only [names?, StateT.run_bind, StateT.run_get, pure_bind, hfind, hnames]
      rfl
    | some names =>
      refine ⟨(family.key, names) :: prepared, ?_, hsound.cons hkeyed hmem hnames⟩
      simp only [names?, StateT.run_bind, StateT.run_get, pure_bind, hfind, hnames]
      rfl

theorem computes_read (hkeyed : Keyed families) (raw : Text) :
    Computes families (read families raw) (Tag.read families raw) := by
  rw [read, Tag.read]
  cases hnext : next? families raw with
  | none => exact computes_pure _
  | some found =>
    obtain ⟨offset, family⟩ := found
    cases offset with
    | succ offset => exact computes_pure _
    | zero =>
      have hmem : family ∈ families := (next?_eq_some_iff.mp hnext).1.mem
      by_cases hnames : family.hasNames = true
      · simp only [if_pos hnames]
        refine (computes_names? hkeyed hmem).bind ?_
        cases Tag.names? family.tags with
        | none => exact computes_pure _
        | some names => exact computes_pure _
      · simp only [if_neg hnames]
        exact computes_pure _

theorem computes_add (hkeyed : Keyed families) (b : Building) (index : Nat) (segment : Segment) :
    Computes families (add families b index segment) (b.add families index segment) := by
  rw [add, Building.add]
  cases segment.kind with
  | text => exact computes_pure _
  | tag family => exact (computes_read hkeyed segment.raw).bind (computes_pure _)

/-- A row of segments, one after the other. -/
theorem computes_addAll (hkeyed : Keyed families) (b : Building) (index : Nat)
    (segments : List Segment) :
    Computes families (addAll families b index segments) (b.addAll families index segments) := by
  induction segments generalizing b index with
  | nil => exact computes_pure _
  | cons segment rest ih =>
    rw [addAll, Building.addAll]
    refine (computes_add hkeyed b index segment).bind ?_
    cases b.add families index segment with
    | error fault => exact computes_pure _
    | ok next => exact ih next (index + 1)

theorem computes_document (hkeyed : Keyed families) (segments : List Segment) :
    Computes families (document families segments) (Document.ofSegments families segments) := by
  rw [document, Document.ofSegments]
  refine (computes_addAll hkeyed .empty 0 segments).bind ?_
  cases Building.empty.addAll families 0 segments with
  | error fault => exact computes_pure _
  | ok b => exact computes_pure _

variable {registry : Registry}

theorem computes_parse (hkeyed : Keyed registry.ordered) (template : Text) :
    Computes registry.ordered (parse registry template) (Program.parse registry template) := by
  rw [parse, Program.parse]
  cases Segment.cut registry.ordered template with
  | error fault => exact computes_pure _
  | ok segments => exact (computes_document hkeyed segments).bind (computes_pure _)

theorem computes_compile (hkeyed : Keyed registry.ordered) (template : Text) :
    Computes registry.ordered (compile registry template) (Program.compile registry template) := by
  rw [compile, Program.compile]
  refine (computes_parse hkeyed template).bind ?_
  cases Program.parse registry template with
  | error fault => exact computes_pure _
  | ok document => exact computes_pure _

end Preparing

namespace Compiler

/-- A compiler over a registry, whatever it has prepared. -/
structure Over (registry : Registry) (compiler : Compiler) : Prop where
  registry_eq : compiler.registry = registry
  sound : compiler.prepared.Sound registry.ordered

variable {registry : Registry} {compiler : Compiler}

theorem over_ofRegistry (registry : Registry) : (ofRegistry registry).Over registry :=
  ⟨rfl, Prepared.sound_nil _⟩

/-- What a computation comes to, and the compiler after it. -/
theorem Over.run (h : compiler.Over registry) {α : Type} {x : Preparing α} {a : α}
    (hx : Preparing.Computes registry.ordered x a) :
    (compiler.run x).1 = a ∧ (compiler.run x).2.Over registry := by
  obtain ⟨prepared, hrun, hsound⟩ := hx compiler.prepared h.sound
  rw [Compiler.run, hrun]
  exact ⟨rfl, h.registry_eq, hsound⟩

theorem Over.parse (h : compiler.Over registry) (hkeyed : Keyed registry.ordered)
    (template : Text) :
    (compiler.parse template).1 = Program.parse registry template ∧
      (compiler.parse template).2.Over registry := by
  rw [Compiler.parse, h.registry_eq]
  exact h.run (Preparing.computes_parse hkeyed template)

theorem Over.compile (h : compiler.Over registry) (hkeyed : Keyed registry.ordered)
    (template : Text) :
    (compiler.compile template).1 = Program.compile registry template ∧
      (compiler.compile template).2.Over registry := by
  rw [Compiler.compile, h.registry_eq]
  exact h.run (Preparing.computes_compile hkeyed template)

end Compiler
end Stencil
