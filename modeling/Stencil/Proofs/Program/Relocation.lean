import Stencil.Execution.Semantics
import Stencil.Proofs.Program.Joining

/-! # Moving a fragment to other positions

The positions in a fragment say where in the template its instructions come from.  They are shown in
faults and used for nothing else: if every position is replaced by another one, the fragment is
merged and joined as before (`merge_moved`, `brokenAfter?_moved`), writes the same, and fails in the
same way but for the position of the fault (`run_moved`).
-/

namespace Stencil

namespace Instruction

mutual

/-- An instruction with its positions moved. -/
def moved (place : Position → Position) : Instruction → Instruction
  | .literal t => .literal t
  | .expression e source position => .expression e source (position.map place)
  | .branch condition body source position =>
    .branch condition (movedAll place body) source (position.map place)
  | .elseBranch condition body source position =>
    .elseBranch condition (movedAll place body) source (position.map place)
  | .otherwise body position => .otherwise (movedAll place body) (position.map place)
  | .loop target collection body mode source position =>
    .loop target collection (movedAll place body) mode source (position.map place)
  | .call routine body arguments position =>
    .call routine (movedAll place body) arguments (position.map place)
  | .unknown => .unknown

/-- A row of instructions with its positions moved. -/
def movedAll (place : Position → Position) : List Instruction → List Instruction
  | [] => []
  | i :: rest => moved place i :: movedAll place rest

end

end Instruction

namespace Fragment

/-- A fragment with its positions moved. -/
def moved (place : Position → Position) (f : Fragment) : Fragment := f.map (Instruction.moved place)

theorem movedAll_eq_moved (place : Position → Position) (f : Fragment) :
    Instruction.movedAll place f = moved place f := by
  induction f with
  | nil => rfl
  | cons i rest ih => rw [Instruction.movedAll, ih, moved, moved, List.map_cons]

variable (place : Position → Position)

@[simp] theorem moved_cons (i : Instruction) (f : Fragment) :
    moved place (i :: f) = i.moved place :: moved place f := rfl

theorem flatten_map_moved (fragments : List Fragment) :
    (fragments.map (moved place)).flatten = moved place fragments.flatten := by
  rw [moved, List.map_flatten]
  rfl

/-! ## Joining -/

@[simp] theorem isLiteral_moved (i : Instruction) : isLiteral (i.moved place) = isLiteral i := by
  cases i <;> rfl

@[simp] theorem isSuccessor_moved (i : Instruction) :
    isSuccessor (i.moved place) = isSuccessor i := by
  cases i <;> rfl

theorem continues_moved (p : Option Instruction) :
    continues (p.map (Instruction.moved place)) = continues p := by
  cases p with
  | none => rfl
  | some i => cases i <;> rfl

theorem glue_moved (t : Text) (f : Fragment) :
    glue t (moved place f) = moved place (glue t f) := by
  cases f with
  | nil => cases t <;> rfl
  | cons i f =>
    by_cases hi : isLiteral i = true
    · obtain ⟨u, rfl⟩ := eq_literal_of_isLiteral hi
      rfl
    · have hi : isLiteral i = false := by simpa using hi
      rw [moved_cons, glue_cons (by simpa using hi), glue_cons hi]
      split <;> rfl

/-- A moved fragment merges to the moved merged fragment. -/
theorem merge_moved (f : Fragment) : merge (moved place f) = moved place (merge f) := by
  induction f with
  | nil => rfl
  | cons i rest ih =>
    by_cases hi : isLiteral i = true
    · obtain ⟨t, rfl⟩ := eq_literal_of_isLiteral hi
      rw [moved_cons, Instruction.moved, merge_literal, merge_literal, ih, glue_moved]
    · have hi : isLiteral i = false := by simpa using hi
      rw [moved_cons, merge_cons (by simpa using hi), merge_cons hi, ih, moved_cons]

/-- A moved fragment breaks a chain only if the fragment does. -/
theorem brokenAfter?_moved {f : Fragment} {p : Option Instruction}
    (h : brokenAfter? p f = none) :
    brokenAfter? (p.map (Instruction.moved place)) (moved place f) = none := by
  induction f generalizing p with
  | nil => rfl
  | cons i rest ih =>
    obtain ⟨hi, hrest⟩ := (brokenAfter?_cons p i rest).mp h
    refine (brokenAfter?_cons _ _ _).mpr ⟨fun hs => ?_, ih hrest⟩
    rw [continues_moved]
    exact hi (by simpa using hs)

/-- Fragments that can be joined can be joined when they are moved. -/
theorem joinChecked_moved {fragments : List Fragment} {body : Fragment}
    (h : joinChecked fragments = .ok body) :
    joinChecked (fragments.map (moved place)) = .ok (moved place body) := by
  obtain ⟨hbody, hwhole⟩ := joinChecked_eq_ok h
  have hmoved : broken? (moved place body) = none := brokenAfter?_moved (p := none) place hwhole
  rw [joinChecked, join, flatten_map_moved, merge_moved, ← hbody, hmoved]

end Fragment

/-! ## Faults -/

/-- A render fault with its position moved. -/
def RenderFault.moved (place : Position → Position) : RenderFault → RenderFault
  | .expression fault p => .expression fault (p.map place)
  | .notSequence collection typeName p => .notSequence collection typeName (p.map place)
  | .notIterable collection typeName p => .notIterable collection typeName (p.map place)
  | .unsupported => .unsupported
  | .call cause p => .call cause (p.map place)
  | .tooDeep => .tooDeep

namespace RunFault

/-- A fault with its position moved. -/
def moved (place : Position → Position) : RunFault → RunFault
  | .render fault => .render (fault.moved place)
  | .raised cause => .raised cause

/-- The wording of a fault, without its position. -/
def message : RunFault → String
  | .render fault => fault.message
  | .raised cause => cause.message

variable (place : Position → Position)

/-- A fault says the same wherever it arises. -/
theorem message_moved (fault : RunFault) : (fault.moved place).message = fault.message := by
  cases fault with
  | render fault => cases fault <;> rfl
  | raised cause => rfl

theorem ofEvaluation_map (position : Option Position) (fault : Expression.EvaluationFault) :
    ofEvaluation (position.map place) fault = (ofEvaluation position fault).moved place := by
  cases fault <;> rfl

theorem insideCall_moved (position : Option Position) (fault : RunFault) :
    (fault.moved place).insideCall (position.map place) =
      (fault.insideCall position).moved place := by
  cases fault <;> rfl

theorem atTop_moved (fault : RunFault) : (fault.moved place).atTop = fault.atTop.moved place := by
  cases fault with
  | render fault => rfl
  | raised cause => cases cause <;> rfl

end RunFault

/-- Moving the faults of an outcome leaves a result alone. -/
theorem mapError_ok {α ε ε' : Type} (f : ε → ε') (a : α) :
    (Except.ok a : Except ε α).mapError f = .ok a := rfl

variable [Host]

theorem Scope.evaluateAt_map (place : Position → Position) (scope : Scope) (e : Expression)
    (position : Option Position) :
    scope.evaluateAt e (position.map place) =
      (scope.evaluateAt e position).mapError (RunFault.moved place) := by
  rw [Scope.evaluateAt, Scope.evaluateAt]
  cases e.evaluate scope with
  | error fault => exact congrArg Except.error (RunFault.ofEvaluation_map place position fault)
  | ok v => rfl

omit [Host] in
theorem Pairs.of_map (place : Position → Position) (mode : LoopMode) (collection : Expression)
    (position : Option Position) (v : Value) :
    Pairs.of mode collection (position.map place) v =
      (Pairs.of mode collection position v).mapError (RunFault.moved place) := by
  unfold Pairs.of
  split
  · split <;> rfl
  · rfl
  · rfl
  · rfl
  · rfl
  · split <;> rfl

namespace Semantics

variable (place : Position → Position)

omit [Host] in
theorem iterate_moved (target : Text) {body body' : List (Text × Value) → Store → Outcome Text}
    (h : ∀ bindings store, body' bindings store = (body bindings store).mapError (.moved place))
    (n : Nat) (pairs : Pairs) (store : Store) :
    iterate target body' n pairs store =
      (iterate target body n pairs store).mapError (.moved place) := by
  induction n generalizing pairs store with
  | zero => rfl
  | succ n ih =>
    rw [iterate, iterate]
    cases hnext : pairs.next? store with
    | none => rfl
    | some r =>
      obtain ⟨pair, rest, store'⟩ := r
      simp only [h, ih]
      cases body (Pairs.bindings target pair) store' with
      | error fault => rfl
      | ok r =>
        simp only [mapError_ok]
        cases iterate target body n rest r.2 <;> rfl

theorem perform_moved (scope : Scope) (position : Option Position)
    {body body' : List (Text × Value) → Store → Outcome Text}
    (h : ∀ bindings store, body' bindings store = (body bindings store).mapError (.moved place))
    (routine : Routine) (store : Store) :
    perform scope (position.map place) body' routine store =
      (perform scope position body routine store).mapError (.moved place) := by
  induction routine generalizing store with
  | done v => rfl
  | fail fault => rfl
  | evaluate e next ih =>
    rw [perform, perform, Scope.evaluateAt_map]
    cases scope.evaluateAt e position with
    | error fault => rfl
    | ok v => exact ih v store
  | render bindings next ih =>
    rw [perform, perform, h]
    split
    · rfl
    · cases body bindings store with
      | error fault => rfl
      | ok r => exact ih r.1 r.2

/-- A body of a loop or a call, moved. -/
theorem body_moved {body : Fragment}
    (h : ∀ (scope : Scope) (chain : Option Bool) (store : Store),
      run scope chain store (Fragment.moved place body) =
        (run scope chain store body).mapError (.moved place)) (scope : Scope)
    (bindings : List (Text × Value)) (store : Store) :
    run (scope.extend bindings) none store (Fragment.moved place body) =
      (run (scope.extend bindings) none store body).mapError (.moved place) :=
  h (scope.extend bindings) none store

mutual

/-- A moved instruction writes the same, and fails with the moved fault. -/
theorem runOne_moved : ∀ (i : Instruction) (scope : Scope) (chain : Option Bool) (store : Store),
    runOne scope chain store (i.moved place) =
      (runOne scope chain store i).mapError (.moved place)
  | .literal _, _, _, _ => rfl
  | .expression e _ position, scope, _, store => by
    rw [Instruction.moved, runOne, runOne, Scope.evaluateAt_map]
    cases scope.evaluateAt e position with
    | error fault => rfl
    | ok v =>
      simp only [mapError_ok, RunFault.written]
      rcases v.output? (Host.levels scope.room) with (_ | _) | _ <;> rfl
  | .branch condition body _ position, scope, _, store => by
    rw [Instruction.moved, Fragment.movedAll_eq_moved, runOne, runOne, Scope.evaluateAt_map]
    cases scope.evaluateAt condition position with
    | error fault => rfl
    | ok v =>
      simp only [mapError_ok, run_moved body]
      split
      · cases run scope none store body <;> rfl
      · rfl
  | .elseBranch condition body _ position, scope, chain, store => by
    rw [Instruction.moved, Fragment.movedAll_eq_moved, runOne, runOne, Scope.evaluateAt_map]
    split
    · rfl
    · cases scope.evaluateAt condition position with
      | error fault => rfl
      | ok v =>
        simp only [mapError_ok, run_moved body]
        split
        · cases run scope none store body <;> rfl
        · rfl
  | .otherwise body _, scope, chain, store => by
    rw [Instruction.moved, Fragment.movedAll_eq_moved, runOne, runOne, run_moved body]
    split
    · rfl
    · cases run scope none store body <;> rfl
  | .loop target collection body mode _ position, scope, _, store => by
    rw [Instruction.moved, Fragment.movedAll_eq_moved, runOne, runOne, Scope.evaluateAt_map]
    cases scope.evaluateAt collection position with
    | error fault => rfl
    | ok v =>
      simp only [mapError_ok, Pairs.of_map]
      cases Pairs.of mode collection position v with
      | error fault => rfl
      | ok pairs =>
        simp only [mapError_ok,
          iterate_moved place target (body_moved place (run_moved body) scope)]
        generalize iterate target _ pairs.bound pairs store = outcome
        cases outcome <;> rfl
  | .call routine body arguments position, scope, _, store => by
    rw [Instruction.moved, Fragment.movedAll_eq_moved, runOne, runOne,
      perform_moved place scope position (body_moved place (run_moved body) scope.inside)]
    generalize perform scope position _ (routine ⟨arguments, scope.toNames⟩) store = outcome
    cases outcome with
    | error fault => exact congrArg Except.error (RunFault.insideCall_moved place position fault)
    | ok r =>
      simp only [mapError_ok, RunFault.written]
      rcases r.1.output? (Host.levels scope.room) with (_ | _) | _ <;> rfl
  | .unknown, _, _, _ => rfl

/-- **A moved fragment writes the same, and fails with the moved fault.** -/
theorem run_moved : ∀ (f : Fragment) (scope : Scope) (chain : Option Bool) (store : Store),
    run scope chain store (Fragment.moved place f) =
      (run scope chain store f).mapError (.moved place)
  | [], _, _, _ => rfl
  | i :: rest, scope, chain, store => by
    rw [Fragment.moved_cons, run, run, runOne_moved i]
    cases runOne scope chain store i with
    | error fault => rfl
    | ok r =>
      simp only [mapError_ok, run_moved rest]
      cases run scope r.1.2 r.2 rest <;> rfl

end

end Semantics
end Stencil
