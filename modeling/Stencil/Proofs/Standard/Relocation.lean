import Stencil.Proofs.Document.Folding
import Stencil.Proofs.Document.Shifting
import Stencil.Proofs.Program.Gist
import Stencil.Proofs.Program.Relocation
import Stencil.Proofs.Standard.Compilation

/-! # Standard documents behind others

What the standard grammar makes of a document that comes behind another one.  Its handlers look at
the head of a tag and at the fragment inside, never at the numbers of nodes and segments; so a
shifted node compiles to the moved fragment (`apply_shift`).  Its families can be told apart at the
first character of an opener (`separable`), and the tags that detach whitespace before them are the
members of chains that need a predecessor (`declaresIsolated`): no template can begin with one
(`attaches_of_compiles`).
-/

namespace Stencil
namespace Standard
open Fragment

/-! ## The families -/

/-- All openers begin with the brace that opens a statement, and hold no closing one. -/
theorem separable : Family.Separable families where
  mark := by
    refine ⟨'\x7b', ⟨statementFamily, by simp [families], rfl⟩, fun f hf => ?_⟩
    rcases mem_families.mp hf with rfl | rfl | rfl <;> rfl
  unclosed := by
    have hcloser : ∀ f ∈ families, '\x7d' ∈ f.closer := by
      intro f hf
      rcases mem_families.mp hf with rfl | rfl | rfl
      all_goals simp [commentFamily, echoFamily, statementFamily]
    have hopener : ∀ e ∈ families, '\x7d' ∉ e.opener := by
      intro e he
      rcases mem_families.mp he with rfl | rfl | rfl
      all_goals simp [commentFamily, echoFamily, statementFamily]
    exact fun e he f hf hin => hopener e he (hin.subset (hcloser f hf))

/-- Whether a name of the standard grammar is that of a member of a chain that needs a
predecessor. -/
def needsPredecessor (family : Value) (name : Text) : Bool :=
  match construct? family (some name) with
  | some .alternative => true
  | some .otherwise => true
  | _ => false

/-- In the standard grammar the members of a chain that need a predecessor are isolated. -/
theorem declaresIsolated : DeclaresIsolated needsPredecessor families := by
  intro family hfamily spec hspec name hname
  obtain rfl := eq_statementFamily hfamily hspec
  simp only [statementFamily, List.mem_cons, List.not_mem_nil, or_false] at hspec
  rcases hspec with rfl | rfl | rfl | rfl | rfl | rfl
  all_goals
    obtain rfl := Value.text.inj hname
    rfl

/-! ## The handlers -/

variable [Host] (σ : Shift)

/-- The expression of a tag does not depend on where the tag stands. -/
theorem expression_shift {head : TagHead} {t : Text} {purpose : Purpose} {e : Expression}
    (h : expression head t purpose = .ok e) : expression (head.shift σ) t purpose = .ok e := by
  rw [expression] at h ⊢
  split at h
  · cases h
  · rename_i hempty
    rw [if_neg hempty]
    split at h
    · exact h
    all_goals cases h

/-- What is made of the expression of a tag is made of it where the tag stands behind another
document. -/
theorem map_expression_shift {head : TagHead} {t : Text} {purpose : Purpose} {f : Fragment}
    {g g' : Expression → Fragment} (hg : ∀ e, g' e = moved σ.place (g e))
    (h : (expression head t purpose).map g = .ok f) :
    (expression (head.shift σ) t purpose).map g' = .ok (moved σ.place f) := by
  cases he : expression head t purpose with
  | error fault => simp [he, Except.map] at h
  | ok e =>
    obtain rfl : g e = f := by simpa [he, Except.map] using h
    rw [expression_shift σ he, Except.map, hg]

/-- A handler makes of a tag behind another document the moved fragment. -/
def Movable (apply : Occurrence → Fragment → Except CompileFault Fragment) : Prop :=
  ∀ (head : TagHead) (enclosed enclosed' : List Segment) (inner f : Fragment),
    apply ⟨head, enclosed⟩ inner = .ok f →
    apply ⟨head.shift σ, enclosed'⟩ (moved σ.place inner) = .ok (moved σ.place f)

theorem movable_echo : Movable σ echo := fun _ _ _ _ _ h =>
  map_expression_shift σ (fun _ => rfl) h

theorem movable_output : Movable σ output := by
  intro head enclosed enclosed' inner f h
  rw [output] at h ⊢
  simp only [TagHead.shift] at h ⊢
  split at h
  · exact map_expression_shift σ (fun _ => rfl) h
  · cases h

theorem movable_conditional : Movable σ conditional := fun _ _ _ _ _ h =>
  map_expression_shift σ (fun e => by
    rw [moved_cons, Instruction.moved, movedAll_eq_moved]
    rfl) h

theorem movable_alternative : Movable σ alternative := fun _ _ _ _ _ h =>
  map_expression_shift σ (fun e => by
    rw [moved_cons, Instruction.moved, movedAll_eq_moved]
    rfl) h

omit [Host] in
theorem movable_otherwise : Movable σ otherwise := by
  intro head enclosed enclosed' inner f h
  obtain rfl := Except.ok.inj h
  rw [otherwise, moved_cons, Instruction.moved, movedAll_eq_moved]
  rfl

theorem movable_loop (mode : LoopMode) : Movable σ (loop mode) := by
  intro head enclosed enclosed' inner f h
  rw [loop] at h ⊢
  simp only [argument?, TagHead.shift] at h ⊢
  split at h
  · rename_i element collection helement hcollection
    split at h
    · cases h
    · rename_i target htarget
      refine map_expression_shift σ (fun e => ?_) h
      rw [moved_cons, Instruction.moved, movedAll_eq_moved]
      rfl
  · cases h

/-- **The standard handlers do not look at where a tag stands.** -/
theorem movable_of_mem {entry : Slot × Handler} (h : entry ∈ registry.handlers) :
    Movable σ entry.2.apply := by
  rw [registry_handlers] at h
  simp only [List.mem_cons, List.not_mem_nil, or_false] at h
  rcases h with rfl | rfl | rfl | rfl | rfl | rfl | rfl | rfl | rfl
  · exact fun _ _ _ _ _ h => (Except.ok.inj h) ▸ rfl
  · exact movable_echo σ
  · exact movable_output σ
  · exact movable_loop σ .each
  · exact movable_loop σ .index
  · exact movable_conditional σ
  · exact movable_alternative σ
  · exact movable_otherwise σ
  · exact fun _ _ _ _ _ h => (Except.ok.inj h) ▸ rfl

/-- A tag behind another document compiles to the moved fragment. -/
theorem movable_ofTag : Movable σ (Program.ofTag registry) := by
  intro head enclosed enclosed' inner f h
  rw [Program.ofTag] at h ⊢
  simp only [TagHead.shift, Registry.handlerFor?, Registry.handler?] at h ⊢
  cases hfound : registry.handlers.find? fun entry =>
      (Slot.of head.family head.name).same entry.1 with
  | none => simp [hfound] at h
  | some entry =>
    simp only [hfound, Option.map_some] at h ⊢
    exact movable_of_mem σ (List.mem_of_find?_eq_some hfound) _ _ _ _ _ h

/-! ## Nodes -/

/-- **The standard handlers do not ask where a tag stands among the segments.** -/
theorem unplaced : registry.Unplaced := by
  intro head enclosed enclosed' index inner
  rw [Program.ofTag, Program.ofTag]
  simp only [Registry.handlerFor?, Registry.handler?]
  cases hfound : registry.handlers.find? fun entry =>
      (Slot.of head.family head.name).same entry.1 with
  | none => rfl
  | some entry =>
    have hmem := List.mem_of_find?_eq_some hfound
    rw [registry_handlers] at hmem
    simp only [List.mem_cons, List.not_mem_nil, or_false] at hmem
    rcases hmem with rfl | rfl | rfl | rfl | rfl | rfl | rfl | rfl | rfl <;> rfl

variable (segments segments' : List Segment)

variable {segments}

mutual

/-- A node behind another document compiles to the moved fragment. -/
theorem apply_shift : ∀ {n : Node} {f : Fragment},
    (Program.rule registry segments).apply n = .ok f →
    (Program.rule registry segments').apply (n.shift σ) = .ok (moved σ.place f)
  | .text id t position attached, f, h => by
    obtain rfl := Except.ok.inj h
    rfl
  | .tag id head closing children, f, h => by
    obtain ⟨results, hresults, htag⟩ := Rule.apply_tag_eq_ok _ h
    rw [Node.shift, Node.shiftAll_eq_map, Rule.apply, applyAll_shift hresults]
    simp only [Program.rule] at htag ⊢
    cases hjoin : joinChecked results with
    | error fault => simp [Program.joinAll, hjoin, Except.mapError] at htag
    | ok inner =>
      simp only [Program.joinAll, hjoin, Except.mapError] at htag
      simp only [Program.joinAll, joinChecked_moved σ.place hjoin, Except.mapError]
      exact movable_ofTag σ _ _ _ _ _ htag

/-- **A row of nodes behind another document compiles to the moved fragments.** -/
theorem applyAll_shift : ∀ {nodes : List Node} {results : List Fragment},
    (Program.rule registry segments).applyAll nodes = .ok results →
    (Program.rule registry segments').applyAll (nodes.map (Node.shift σ)) =
      .ok (results.map (moved σ.place))
  | [], results, h => by
    obtain rfl := Except.ok.inj h
    rfl
  | n :: rest, results, h => by
    by_cases hn : n.isAttached = true
    · obtain ⟨f, more, hf, hmore, rfl⟩ := Rule.applyAll_cons_eq_ok _ hn h
      rw [List.map_cons, Rule.applyAll, if_pos (by simpa using hn), apply_shift hf,
        applyAll_shift hmore]
      rfl
    · rw [Rule.applyAll, if_neg hn] at h
      rw [List.map_cons, Rule.applyAll, if_neg (by simpa using hn)]
      exact applyAll_shift h

end

/-! ## The first tag -/

/-- The instruction of a member of a chain that needs a predecessor is such a member. -/
theorem isSuccessor_of_compiles {id : Nat} {head : TagHead} {closing : Option Nat}
    {children : List Node} {f : Fragment} (h : Compiles (.tag id head closing children) f)
    {name : Text} (hname : head.name = some name)
    (hneeds : needsPredecessor head.family name = true) :
    ∃ i, f = [i] ∧ isSuccessor i = true := by
  have hrole : role (.tag id head closing children) =
      tagRole head (Node.children (.tag id head closing children)) := rfl
  have hconstruct : construct? head.family head.name = some .alternative ∨
      construct? head.family head.name = some .otherwise := by
    rw [needsPredecessor, ← hname] at hneeds
    split at hneeds
    · exact Or.inl ‹_›
    · exact Or.inr ‹_›
    · cases hneeds
  rcases hconstruct with hc | hc
  · -- by its construct the tag has one of two roles, so the other cases of the relation fall away
    rw [tagRole, hc] at hrole
    simp only at hrole
    cases h with
    | alternative source hrole' hbody hwhole => exact ⟨_, rfl, rfl⟩
    | otherwise position hrole' hbody hwhole => exact ⟨_, rfl, rfl⟩
    | silent hrole' | text hrole' | output source hrole' | opening source hrole'
    | loop source hrole' =>
      rw [hrole] at hrole'
      split at hrole' <;> cases hrole'
  · rw [tagRole, hc] at hrole
    cases h with
    | alternative source hrole' hbody hwhole => exact ⟨_, rfl, rfl⟩
    | otherwise position hrole' hbody hwhole => exact ⟨_, rfl, rfl⟩
    | silent hrole' | text hrole' | output source hrole' | opening source hrole'
    | loop source hrole' =>
      rw [hrole] at hrole'
      cases hrole'

/-- **A template cannot begin with a member of a chain that needs a predecessor.** -/
theorem attaches_of_compiles : ∀ {nodes : List Node} {body : Fragment}, CompilesAll nodes body →
    ∀ {p : Option Instruction}, continues p = false → brokenAfter? p body = none →
    ∀ head, nodes.findSome? Node.head? = some head → head.Attaches needsPredecessor
  | _, _, .nil, _, _, _, head, h => by cases h
  | .text id t position attached :: rest, _, .cons hnode hrest, p, hp, hwhole, head, h => by
    cases hnode with
    | text hrole ht =>
      rw [List.singleton_append] at hwhole
      exact attaches_of_compiles hrest rfl ((brokenAfter?_cons p _ _).mp hwhole).2 head h
    | silent hrole | output source hrole | opening source hrole | alternative source hrole
    | otherwise position hrole | loop source hrole => cases hrole
  | .tag id own closing children :: rest, _, .cons hnode hrest, p, hp, hwhole, head, h => by
    obtain rfl : own = head := Option.some.inj h
    intro name hname
    cases hneeds : needsPredecessor own.family name with
    | false => rfl
    | true =>
      obtain ⟨i, rfl, hi⟩ := isSuccessor_of_compiles hnode hname hneeds
      have hcontinues := ((brokenAfter?_cons p i _).mp hwhole).1 hi
      exact absurd (hp.symm.trans hcontinues) Bool.false_ne_true

end Standard
end Stencil
