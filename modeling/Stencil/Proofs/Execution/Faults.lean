import Stencil.Execution.Semantics
import Stencil.Proofs.Program.Shape

/-! # Where runs fail

A fault of a run that knows of the template has the position of an instruction: of the one whose
expression has no value, or whose collection a loop cannot go through, or of the call in which
something was raised.  So if something is known of the position of every instruction of a fragment
that is not a literal, at any depth, it is known of the position of every such fault
(`Semantics.locatedAt_of_run`).  The induction is on the fragment.  What is raised below the level of
templates has no position, and gets one only in a call; a fault that has passed a call, a loop or a
branch is the one that arose inside.
-/

namespace Stencil

/-- An instruction that is a literal, or has a position of which something is known. -/
def Instruction.LocatedAt (known : Position → Prop) (i : Instruction) : Prop :=
  Fragment.isLiteral i = true ∨ ∃ p, i.position? = some p ∧ known p

/-- A fault that knows nothing of the template, or has a position of which something is known. -/
def RunFault.LocatedAt (known : Position → Prop) : RunFault → Prop
  | .render fault => ∃ p, fault.position? = some p ∧ known p
  | .raised _ => True

namespace Semantics
open Fragment

variable {known : Position → Prop} {position : Option Position} {fault : RunFault}

/-! ## Steps of an instruction -/

theorem locatedAt_of_evaluateAt [Host] (hposition : ∃ p, position = some p ∧ known p) {scope : Scope}
    {e : Expression} (h : scope.evaluateAt e position = .error fault) : fault.LocatedAt known := by
  rw [Scope.evaluateAt] at h
  cases he : e.evaluate scope with
  | ok v => simp [he, Except.mapError] at h
  | error inner =>
    simp only [he, Except.mapError, Except.error.injEq] at h
    subst h
    cases inner with
    | badIndex | misused | tooDeep => trivial
    | _ => exact hposition

theorem locatedAt_of_pairs (hposition : ∃ p, position = some p ∧ known p) {mode : LoopMode}
    {collection : Expression} {v : Value}
    (h : Pairs.of mode collection position v = .error fault) : fault.LocatedAt known := by
  unfold Pairs.of at h
  split at h
  · split at h
    · cases h
    · exact Except.error.inj h ▸ hposition
  · cases h
  · cases h
  · cases h
  · cases h
  · split at h
    · exact Except.error.inj h ▸ trivial
    · exact Except.error.inj h ▸ hposition

theorem locatedAt_of_written [Host] {β : Type} {room : Nat} {v : Value} {g : Text → β}
    (h : (RunFault.written room v).map g = .error fault) : fault.LocatedAt known := by
  rw [RunFault.written] at h
  rcases hv : v.output? (Host.levels room) with obstacle | t
  · rw [hv] at h
    obtain rfl := Except.error.inj h
    cases obstacle <;> trivial
  · rw [hv] at h
    cases h

/-- A loop fails where its body fails. -/
theorem locatedAt_of_iterate {target : Text} {body : List (Text × Value) → Store → Outcome Text}
    (hbody : ∀ {bindings store fault}, body bindings store = .error fault →
      fault.LocatedAt known) {fuel : Nat} {pairs : Pairs} {store : Store}
    (h : iterate target body fuel pairs store = .error fault) : fault.LocatedAt known := by
  induction fuel generalizing pairs store with
  | zero => cases h
  | succ fuel ih =>
    rw [iterate] at h
    split at h
    · cases h
    · split at h
      · rename_i hround
        exact Except.error.inj h ▸ hbody hround
      · split at h
        · rename_i hrest
          obtain rfl := Except.error.inj h
          exact ih hrest
        · cases h

/-- A routine fails by itself, or where an expression or the body of its call does. -/
theorem locatedAt_of_perform [Host] (hposition : ∃ p, position = some p ∧ known p) {scope : Scope}
    {body : List (Text × Value) → Store → Outcome Text}
    (hbody : ∀ {bindings store fault}, body bindings store = .error fault →
      fault.LocatedAt known) {routine : Routine} {store : Store}
    (h : perform scope position body routine store = .error fault) : fault.LocatedAt known := by
  induction routine generalizing store with
  | done v => cases h
  | fail inner => exact Except.error.inj h ▸ trivial
  | render bindings next ih =>
    rw [perform] at h
    split at h
    · exact Except.error.inj h ▸ trivial
    · split at h
      · rename_i hinside
        exact Except.error.inj h ▸ hbody hinside
      · exact ih _ h
  | evaluate e next ih =>
    rw [perform] at h
    split at h
    · rename_i hvalue
      exact Except.error.inj h ▸ locatedAt_of_evaluateAt hposition hvalue
    · exact ih _ h

/-- A call gives its position to what was raised in it. -/
theorem locatedAt_insideCall (hposition : ∃ p, position = some p ∧ known p)
    (h : fault.LocatedAt known) : (fault.insideCall position).LocatedAt known := by
  cases fault with
  | render inner => exact h
  | raised cause => exact hposition

/-! ## Fragments -/

variable [Host]

mutual

/-- The fault of an instruction is where the instruction is, or one inside it. -/
theorem locatedAt_of_runOne {scope : Scope} {chain : Option Bool} {store : Store}
    {fault : RunFault} : ∀ i : Instruction, i.LocatedAt known →
      Every (Instruction.LocatedAt known) (Machine.body? i) →
      runOne scope chain store i = .error fault → fault.LocatedAt known
  | .literal _, _, _, h => nomatch h
  | .expression e _ position, hi, _, h => by
    have hposition := hi.resolve_left Bool.false_ne_true
    rw [runOne] at h
    split at h
    · rename_i hvalue
      exact Except.error.inj h ▸ locatedAt_of_evaluateAt hposition hvalue
    · exact locatedAt_of_written h
  | .branch condition body _ position, hi, hbody, h => by
    have hposition := hi.resolve_left Bool.false_ne_true
    rw [runOne] at h
    split at h
    · rename_i hvalue
      exact Except.error.inj h ▸ locatedAt_of_evaluateAt hposition hvalue
    · split at h
      · split at h
        · rename_i hrun
          exact Except.error.inj h ▸ locatedAt_of_run body hbody hrun
        · cases h
      · cases h
  | .elseBranch condition body _ position, hi, hbody, h => by
    have hposition := hi.resolve_left Bool.false_ne_true
    rw [runOne] at h
    split at h
    · cases h
    · split at h
      · rename_i hvalue
        exact Except.error.inj h ▸ locatedAt_of_evaluateAt hposition hvalue
      · split at h
        · split at h
          · rename_i hrun
            exact Except.error.inj h ▸ locatedAt_of_run body hbody hrun
          · cases h
        · cases h
  | .otherwise body _, _, hbody, h => by
    rw [runOne] at h
    split at h
    · cases h
    · split at h
      · rename_i hrun
        exact Except.error.inj h ▸ locatedAt_of_run body hbody hrun
      · cases h
  | .loop target collection body mode _ position, hi, hbody, h => by
    have hposition := hi.resolve_left Bool.false_ne_true
    rw [runOne] at h
    split at h
    · rename_i hvalue
      exact Except.error.inj h ▸ locatedAt_of_evaluateAt hposition hvalue
    · split at h
      · rename_i hpairs
        exact Except.error.inj h ▸ locatedAt_of_pairs hposition hpairs
      · split at h
        · rename_i hiterate
          exact Except.error.inj h ▸ locatedAt_of_iterate (locatedAt_of_run body hbody) hiterate
        · cases h
  | .call routine body arguments position, hi, hbody, h => by
    have hposition := hi.resolve_left Bool.false_ne_true
    rw [runOne] at h
    split at h
    · rename_i hperform
      have hinside := locatedAt_of_perform hposition (locatedAt_of_run body hbody) hperform
      exact Except.error.inj h ▸ locatedAt_insideCall hposition hinside
    · rename_i v store hperform
      generalize hwritten : (RunFault.written scope.room v).map _ = written at h
      cases written with
      | ok r => cases h
      | error inner =>
        exact Except.error.inj h ▸ locatedAt_insideCall hposition (locatedAt_of_written hwritten)
  | .unknown, hi, _, _ => by
    obtain ⟨p, hnone, -⟩ := hi.resolve_left Bool.false_ne_true
    cases hnone

/-- **The fault of a run is where an instruction of the fragment is**, at some depth, or knows
nothing of the template. -/
theorem locatedAt_of_run {scope : Scope} {chain : Option Bool} {store : Store}
    {fault : RunFault} : ∀ f : Fragment, Every (Instruction.LocatedAt known) f →
      run scope chain store f = .error fault → fault.LocatedAt known
  | [], _, h => nomatch h
  | i :: rest, hall, h => by
    rw [run] at h
    split at h
    · rename_i hone
      exact Except.error.inj h ▸ locatedAt_of_runOne i (hall.mem List.mem_cons_self)
        (hall.body List.mem_cons_self) hone
    · split at h
      · rename_i hrest
        exact Except.error.inj h ▸ locatedAt_of_run rest hall.tail hrest
      · cases h

end

/-- **The fault of a template that is filled** is where one of its instructions is, unless
something is nested too deeply. -/
theorem position_of_render {fragment : Fragment} (hall : Every (Instruction.LocatedAt known) fragment)
    {data : Value} {fault : RenderFault} (h : render fragment data = .error (.render fault)) :
    fault = .tooDeep ∨ ∃ p, fault.position? = some p ∧ known p := by
  rw [render] at h
  cases hrun : run (Scope.ofData data) none [] fragment with
  | ok r => simp [hrun] at h
  | error inner =>
    simp only [hrun, Except.error.injEq] at h
    have hlocated := locatedAt_of_run fragment hall hrun
    cases inner with
    | render own =>
      obtain rfl := RunFault.render.inj h
      exact Or.inr hlocated
    | raised cause =>
      cases cause with
      | tooDeep => exact Or.inl (RunFault.render.inj h).symm
      | _ => cases h

end Semantics
end Stencil
