import Stencil.Proofs.Execution.Refinement
import Stencil.Proofs.Execution.Scopes
import Stencil.Proofs.Expression.Evaluation
import Stencil.Proofs.Standard.Origins

/-! # What a rendering depends on

A compiled template of the standard grammar depends on its data only through its free names: data
that have the same values for them, or lack the same of them, give the same text or the same fault
(`Standard.render_congr_free`).  For there are no calls in it, and what runs without calls depends on
the names that it looks up.  The names that loops bind are seen in the bodies of the loops and
nowhere else, as the scopes of a run lie in layers.
-/

namespace Stencil

/-- No names are bound around a template. -/
theorem Scope.bindings_ofData [Host] (data : Value) : (Scope.ofData data).bindings = [] := by
  unfold Scope.ofData
  split <;> rfl

theorem Scope.room_ofData [Host] (data : Value) : (Scope.ofData data).room = Host.filling := by
  unfold Scope.ofData
  split <;> rfl

/-- The value that a mapping has for a name, or that it has none. -/
theorem Scope.lookup_ofData [Host] {data : Value} {entries : List (Value × Value)}
    (h : (Scope.ofData data).data.entries? = some entries) (name : Text) :
    Expression.lookup (Scope.ofData data) name =
      match Value.named name entries with
      | some v => .ok v
      | none => .error (.undefinedName name) := by
  rw [Expression.lookup, bindings_ofData, Expression.nameIn, Value.exposed_of_entries? h]
  rfl

namespace Standard
open Fragment

/-- There are no calls in a compiled template. -/
theorem isPlain_of_made {known : Position → Prop} {i : Instruction} (h : i.Made known) :
    Semantics.IsPlain i := by
  rcases h with hliteral | ⟨position, -, hmade⟩
  · obtain ⟨t, rfl⟩ := eq_literal_of_isLiteral hliteral
    trivial
  · cases hmade <;> trivial

/-- **A rendering depends on the free names of the template.**  Mappings that have the same values
for them, or lack the same of them, give the same text or the same fault.  In a run the scopes lie
in layers: the bindings of a loop are in front of the scope around it for the block of one pair, and
no step changes the scopes that stay. -/
theorem render_congr_free [Host] {source : Text} {fragment : Fragment}
    (hcompile : Program.compile registry source = .ok fragment) :
    (∀ (a b : Value) (forA forB : List (Value × Value)),
      (Scope.ofData a).data.entries? = some forA → (Scope.ofData b).data.entries? = some forB →
      (∀ name ∈ Fragment.free fragment, Value.named name forA = Value.named name forB) →
        Machine.render fragment a = Machine.render fragment b) ∧
    ∀ (data : Value) (machine : Machine),
      Machine.Reaches (Machine.start fragment (Scope.ofData data)) machine →
        Machine.Layered (Scope.ofData data) machine.stack ∧
        ∀ next, machine.step = .running next →
          next.stack.map Machine.scopeOf = (machine.stack.map Machine.scopeOf).tail ∨
            ∃ pushed, next.stack.map Machine.scopeOf =
              pushed ++ machine.stack.map Machine.scopeOf := by
  refine ⟨fun a b forA forB ha hb hnames => ?_, fun data machine hreach =>
    ⟨Machine.layered_of_reaches hreach, fun next hstep =>
      Machine.scopes_of_move (Machine.move_of_step hstep)⟩⟩
  have hplain := (made_of_compile hcompile).imp fun i => isPlain_of_made
  have hagree : Scope.Agree (Fragment.free fragment) (Scope.ofData a) (Scope.ofData b) := by
    intro name hname
    rw [Scope.lookup_ofData ha, Scope.lookup_ofData hb, hnames name hname]
  have hroom : (Scope.ofData a).room = (Scope.ofData b).room :=
    (Scope.room_ofData a).trans (Scope.room_ofData b).symm
  rw [Machine.render_eq_semantics, Machine.render_eq_semantics, Semantics.render, Semantics.render,
    Semantics.run_congr hroom none [] fragment hplain hagree]

/-! ## A loop over two names -/

attribute [local instance] Host.usual

/-- The index of each item of a list, with a value that is the same for all. -/
def indexed : Text :=
  Text.ofString "\x7bforeach $x in $l\x7d\x7b$x_i\x7d\x7b$y\x7d\x7b/foreach\x7d"

/-- What it compiles to. -/
def indexedFragment : Fragment :=
  [.loop ['x'] (.path ['l'] [])
    [.expression (.path ['x', '_', 'i'] []) ['$', 'x', '_', 'i'] (some ⟨18, 1, 19⟩),
      .expression (.path ['y'] []) ['$', 'y'] (some ⟨24, 1, 25⟩)]
    .each ['$', 'l'] (some ⟨0, 1, 1⟩)]

/-- Only the list and the value are free. -/
theorem free_indexedFragment : Fragment.free indexedFragment = [['l'], ['y']] := by cbv

/-- Values for the names that the loop binds make no difference. -/
theorem render_congr_free_indexed :
    Program.compile registry indexed = .ok indexedFragment ∧
      ∀ items y x i : Value,
        Machine.render indexedFragment (.map [(word "l", items), (word "y", y)]) =
          Machine.render indexedFragment
            (.map [(word "x", x), (word "y", y), (word "x_i", i), (word "l", items)]) := by
  have hcompile : Program.compile registry indexed = .ok indexedFragment := by cbv
  refine ⟨hcompile, fun items y x i => (render_congr_free hcompile).1 _ _ _ _ rfl rfl ?_⟩
  rw [free_indexedFragment]
  intro name hname
  simp only [List.mem_cons, List.not_mem_nil, or_false] at hname
  rcases hname with rfl | rfl <;> cbv

end Standard
end Stencil
