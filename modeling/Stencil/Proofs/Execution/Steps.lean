import Mathlib.Logic.Relation
import Stencil.Execution.Machine

/-! # What a step does to the stack

A step of the machine looks at the frame on top, and does one of a few things to the stack, whatever
has been written and whatever the streams have left (`Machine.Move`).  Every step that goes on is
such a move (`Machine.move_of_step`), so that what is claimed of the frames of a run is proved move
by move.

Of the chain that is under way in a block, an instruction of which no body is run leaves what
`Machine.passed` says, and one of which the body is run in the scope of the block what
`Machine.entered` says; all others end it.
-/

namespace Stencil
namespace Machine

/-- How the chain stands after an instruction of which no body has been run. -/
def passed (i : Instruction) (chain : Option Bool) : Option Bool :=
  match i with
  | .branch _ _ _ _ => some false
  | .elseBranch _ _ _ _ => chain
  | _ => none

/-- How the chain stands after a member of a chain of which the body is run. -/
def entered (i : Instruction) : Option Bool :=
  match i with
  | .branch _ _ _ _ => some true
  | .elseBranch _ _ _ _ => some true
  | _ => none

/-- Whether an instruction is a member of a chain. -/
def isMember : Instruction → Bool
  | .branch _ _ _ _ => true
  | .elseBranch _ _ _ _ => true
  | .otherwise _ _ => true
  | _ => false

variable [Host]

/-- What a step can do to the stack. -/
inductive Move : List Frame → List Frame → Prop
  /-- A block is done. -/
  | finish {scope chain below} : Move (.block [] scope chain :: below) below
  /-- An instruction is run, or passed over. -/
  | pass {i rest scope chain below} :
      Move (.block (i :: rest) scope chain :: below) (.block rest scope (passed i chain) :: below)
  /-- The body of a member of a chain is begun, in the scope of its block. -/
  | enter {i rest scope chain below} (hi : isMember i = true) :
      Move (.block (i :: rest) scope chain :: below)
        (.block (body? i) scope none :: .block rest scope (entered i) :: below)
  /-- A loop is begun. -/
  | loop {target collection body mode source position rest scope chain below} (pairs : Pairs) :
      Move (.block (.loop target collection body mode source position :: rest) scope chain :: below)
        (.loop target body pairs scope :: .block rest scope none :: below)
  /-- A loop goes through its body for a pair. -/
  | round {target body pairs scope below} (pair : Value × Value) (more : Pairs) :
      Move (.loop target body pairs scope :: below)
        (.block body (scope.extend (Pairs.bindings target pair)) none ::
          .loop target body more scope :: below)
  /-- A loop is done. -/
  | exhaust {target body pairs scope below} : Move (.loop target body pairs scope :: below) below
  /-- A call fills its body for the first time. -/
  | call {routine body arguments position rest scope chain below} (bindings : List (Text × Value))
      (next : Text → Routine) (written : List Text) :
      Move (.block (.call routine body arguments position :: rest) scope chain :: below)
        (.block body (scope.inside.extend bindings) none ::
          .call next body scope position written :: .block rest scope none :: below)
  /-- A call fills its body once more. -/
  | again {next body scope position written below} (bindings : List (Text × Value))
      (continuation : Text → Routine) :
      Move (.call next body scope position written :: below)
        (.block body (scope.inside.extend bindings) none ::
          .call continuation body scope position written :: below)
  /-- A call is done. -/
  | answer {next body scope position written below} :
      Move (.call next body scope position written :: below) below

/-- What a routine that goes on does to the stack: it is done, or waits for its body. -/
theorem stack_of_resume {routine : Routine} {body : Fragment} {scope : Scope}
    {position : Option Position} {written : List Text} {below : List Frame} {store : Store}
    {next : Machine} (h : resume routine body scope position written below store = .running next) :
    next.stack = below ∨ ∃ bindings continuation, next.stack =
      .block body (scope.inside.extend bindings) none ::
        .call continuation body scope position written :: below := by
  unfold resume at h
  split at h
  · cases h
  · split at h
    · cases h
    · obtain rfl := Progress.running.inj h
      exact Or.inl rfl
  · obtain rfl := Progress.running.inj h
    exact Or.inr ⟨_, _, rfl⟩

variable {ε α β : Type}

omit [Host] in
theorem exists_of_bind {x : Except ε α} {f : α → Except ε β} {b : β} (h : x.bind f = .ok b) :
    ∃ a, x = .ok a ∧ f a = .ok b := by
  cases x with
  | error e => cases h
  | ok a => exact ⟨a, rfl, h⟩

omit [Host] in
theorem exists_of_map {x : Except ε α} {f : α → β} {b : β} (h : x.map f = .ok b) :
    ∃ a, x = .ok a ∧ f a = b := by
  cases x with
  | error e => cases h
  | ok a => exact ⟨a, rfl, Except.ok.inj h⟩

omit [Host] in
theorem ok_of_proceed {below : List Frame} {r : Except RunFault Machine} {next : Machine}
    (h : proceed below r = .running next) : r = .ok next := by
  cases r with
  | error fault => cases h
  | ok machine => exact congrArg Except.ok (Progress.running.inj h)

/-- An instruction that is run moves the stack. -/
theorem move_of_execute {i : Instruction} {rest : Fragment} {scope : Scope} {chain : Option Bool}
    {below : List Frame} {written : List Text} {store : Store} {next : Machine}
    (h : execute i rest scope chain below written store = .running next) :
    Move (.block (i :: rest) scope chain :: below) next.stack := by
  cases i with
  | literal t =>
    obtain rfl := Progress.running.inj h
    exact .pass
  | expression e source position =>
    obtain ⟨v, -, hwritten⟩ := exists_of_bind (ok_of_proceed h)
    obtain ⟨t, -, rfl⟩ := exists_of_map hwritten
    exact .pass
  | branch condition body source position =>
    obtain ⟨v, -, hnext⟩ := exists_of_map (ok_of_proceed h)
    split at hnext
    · obtain rfl := hnext
      exact .enter rfl
    · obtain rfl := hnext
      exact .pass
  | elseBranch condition body source position =>
    simp only [execute] at h
    split at h
    · obtain rfl := Progress.running.inj h
      exact .pass
    · obtain ⟨v, -, hnext⟩ := exists_of_map (ok_of_proceed h)
      split at hnext
      · obtain rfl := hnext
        exact .enter rfl
      · obtain rfl := hnext
        exact .pass
  | otherwise body position =>
    simp only [execute] at h
    split at h
    · obtain rfl := Progress.running.inj h
      exact .pass
    · obtain rfl := Progress.running.inj h
      exact .enter rfl
  | loop target collection body mode source position =>
    obtain ⟨v, -, hloop⟩ := exists_of_bind (ok_of_proceed h)
    obtain ⟨pairs, -, rfl⟩ := exists_of_map hloop
    exact .loop pairs
  | call routine body arguments position =>
    rcases stack_of_resume h with hstack | ⟨bindings, continuation, hstack⟩
    · rw [hstack]
      exact .pass
    · rw [hstack]
      exact .call bindings continuation written
  | unknown => cases h

/-- **Every step that goes on moves the stack.** -/
theorem move_of_step {machine next : Machine} (h : machine.step = .running next) :
    Move machine.stack next.stack := by
  obtain ⟨stack, written, store⟩ := machine
  cases stack with
  | nil => simp [step] at h
  | cons frame below =>
    cases frame with
    | block rest scope chain =>
      cases rest with
      | nil =>
        obtain rfl := Progress.running.inj h
        exact .finish
      | cons i rest => exact move_of_execute h
    | loop target body pairs scope =>
      simp only [step] at h
      split at h
      · obtain rfl := Progress.running.inj h
        exact .exhaust
      · rename_i pair more store' hnext
        obtain rfl := Progress.running.inj h
        exact .round pair more
    | call next body scope position written =>
      simp only [step] at h
      rcases stack_of_resume h with hstack | ⟨bindings, continuation, hstack⟩
      · rw [hstack]
        exact .answer
      · rw [hstack]
        exact .again bindings continuation

/-- The machines that a run comes to. -/
def Reaches : Machine → Machine → Prop :=
  Relation.ReflTransGen fun machine next => machine.step = .running next

end Machine
end Stencil
