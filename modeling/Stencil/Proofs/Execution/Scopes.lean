import Stencil.Proofs.Execution.Names
import Stencil.Proofs.Execution.Steps

/-! # Scopes in a run

The scopes of the frames on a stack lie in layers (`Machine.Layered`).  A block in a block has the
scope of that block.  A block in a loop has the scope of the loop with what the loop binds for one
pair in front of it, and nothing else; a block in a call likewise with what the call has asked for.
The outermost block has the data alone.

All machines of a run have their scopes in layers (`Machine.layered_of_reaches`), and the scope of a
frame stays as it is until the frame is taken from the stack (`Machine.scopes_of_move`).  So what a
loop binds is gone with the block that it was bound for, before the next pair and after the loop.
-/

namespace Stencil
namespace Machine

/-- The scope of a frame. -/
def scopeOf : Frame → Scope
  | .block _ scope _ => scope
  | .loop _ _ _ scope => scope
  | .call _ _ scope _ _ => scope

/-- The scope around what is put on a stack, which outside all frames is `base`. -/
def around (base : Scope) : List Frame → Scope
  | [] => base
  | frame :: _ => scopeOf frame

/-- A scope is another one with the names that a loop binds for a pair: they are found first, and
all other names as in the other one. -/
def Shadows (target : Text) (pair : Value × Value) (outer inner : Scope) : Prop :=
  ∀ name, Expression.lookup inner name =
    if name = target then .ok pair.2
    else if name = target ++ ['_', 'i'] then .ok pair.1
    else Expression.lookup outer name

variable [Host]

/-- The scope of a block that has been put on a stack. -/
def Fits (base scope : Scope) : List Frame → Prop
  | .loop target _ _ outer :: _ => ∃ pair, Shadows target pair outer scope
  | .call _ _ outer _ _ :: _ => ∃ bindings, scope = outer.inside.extend bindings
  | stack => scope = around base stack

/-- **The scopes of a stack lie in layers** above `base`. -/
def Layered (base : Scope) : List Frame → Prop
  | [] => True
  | .block _ scope _ :: below => Fits base scope below ∧ Layered base below
  | .loop _ _ _ scope :: below => scope = around base below ∧ Layered base below
  | .call _ _ scope _ _ :: below => scope = around base below ∧ Layered base below

/-- A move takes the scope on top away, or puts further ones on top; those that stay are not
changed. -/
theorem scopes_of_move {stack stack' : List Frame} (hmove : Move stack stack') :
    stack'.map scopeOf = (stack.map scopeOf).tail ∨
      ∃ pushed, stack'.map scopeOf = pushed ++ stack.map scopeOf := by
  cases hmove with
  | finish | exhaust | answer => exact Or.inl rfl
  | pass => exact Or.inr ⟨[], rfl⟩
  | enter hi => exact Or.inr ⟨[_], rfl⟩
  | loop pairs => exact Or.inr ⟨[_], rfl⟩
  | round pair more => exact Or.inr ⟨[_], rfl⟩
  | call bindings next written => exact Or.inr ⟨[_, _], rfl⟩
  | again bindings continuation => exact Or.inr ⟨[_], rfl⟩

/-- **A move keeps the layers.** -/
theorem layered_of_move {base : Scope} {stack stack' : List Frame} (hmove : Move stack stack')
    (h : Layered base stack) : Layered base stack' := by
  cases hmove with
  | finish | exhaust | answer => exact h.2
  | pass => exact h
  | enter hi => exact ⟨rfl, h⟩
  | loop pairs => exact ⟨rfl, h⟩
  | @round target body pairs scope below pair more =>
    exact ⟨⟨pair, scope.lookup_extend_bindings target pair⟩, h⟩
  | call bindings next written => exact ⟨⟨bindings, rfl⟩, rfl, h⟩
  | again bindings continuation => exact ⟨⟨bindings, rfl⟩, h⟩

/-- **Every machine of a run has its scopes in layers.** -/
theorem layered_of_reaches {fragment : Fragment} {scope : Scope} {machine : Machine}
    (h : Reaches (start fragment scope) machine) : Layered scope machine.stack := by
  induction h with
  | refl => exact ⟨rfl, trivial⟩
  | tail _ hstep ih => exact layered_of_move (move_of_step hstep) ih

end Machine
end Stencil
