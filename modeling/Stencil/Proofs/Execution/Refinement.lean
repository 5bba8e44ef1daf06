import Stencil.Execution.Machine
import Stencil.Execution.Semantics

/-! # The machine runs what fragments mean

`Semantics.run` gives the meaning of a fragment by recursion; the machine works on an explicit stack
of blocks, loops and calls that are all half done.  Each frame is a recursion that was interrupted:
a block has the rest of its instructions and its chain, a loop the pairs to come, a call the routine
that waits for its body.  `complete` says, by the semantics, what such a stack still comes to, from
the text written in the frame on top.

A step of the machine moves work from the stack into that text or onto the stack, and leaves what
the stack comes to as it was (`outcome_step`).  The machine stops, so the run gives what the stack
came to at the beginning (`run_eq_complete`); for a stack with a single block that is the meaning of
the block (`run_start`).  That the machine stops is said in steps as well (`exists_runFor`).
-/

namespace Stencil

namespace Semantics

/-- A loop that has at most as many pairs to come as it has fuel does not feel its fuel. -/
theorem iterate_congr_fuel (target : Text) (body : List (Text × Value) → Store → Outcome Text) :
    ∀ (n m : Nat) (pairs : Pairs) (store : Store), pairs.bound ≤ n → pairs.bound ≤ m →
      iterate target body n pairs store = iterate target body m pairs store := by
  have stuck : ∀ (pairs : Pairs) (store : Store), pairs.bound ≤ 0 → pairs.next? store = none := by
    intro pairs store hb
    cases hnext : pairs.next? store with
    | none => rfl
    | some r =>
      have := Pairs.bound_lt_of_next? (show pairs.next? store = some (r.1, r.2.1, r.2.2) from hnext)
      omega
  -- a pair takes one of the fuel and at least one of the bound, on either side
  intro n
  induction n with
  | zero =>
    intro m pairs store hn _
    cases m with
    | zero => rfl
    | succ m => rw [iterate, iterate, stuck pairs store hn]
  | succ n ih =>
    intro m pairs store hn hm
    cases m with
    | zero => rw [iterate, iterate, stuck pairs store hm]
    | succ m =>
      rw [iterate, iterate]
      cases hnext : pairs.next? store with
      | none => rfl
      | some r =>
        obtain ⟨pair, rest, store'⟩ := r
        have hlt := Pairs.bound_lt_of_next? hnext
        cases hbody : body (Pairs.bindings target pair) store' with
        | error fault => simp only [hbody]
        | ok r =>
          simp only [hbody]
          rw [ih m rest r.2 (by omega) (by omega)]

/-- A loop without a pair to come writes nothing. -/
theorem iterate_bound_of_none {target : Text} {body : List (Text × Value) → Store → Outcome Text}
    {pairs : Pairs} {store : Store} (h : pairs.next? store = none) :
    iterate target body pairs.bound pairs store = .ok ([], store) := by
  cases hb : pairs.bound with
  | zero => rw [iterate]
  | succ n => rw [iterate, h]

/-- A loop with a pair to come runs its body for it and goes on with the pairs after it. -/
theorem iterate_bound_of_some {target : Text} {body : List (Text × Value) → Store → Outcome Text}
    {pairs rest : Pairs} {store store' : Store} {pair : Value × Value}
    (h : pairs.next? store = some (pair, rest, store')) :
    iterate target body pairs.bound pairs store =
      match body (Pairs.bindings target pair) store' with
      | .error fault => .error fault
      | .ok (t, store) =>
        match iterate target body rest.bound rest store with
        | .error fault => .error fault
        | .ok (u, store) => .ok (t ++ u, store) := by
  have hlt := Pairs.bound_lt_of_next? h
  cases hb : pairs.bound with
  | zero => omega
  | succ n =>
    rw [iterate, h]
    cases hbody : body (Pairs.bindings target pair) store' with
    | error fault => simp only [hbody]
    | ok r =>
      have hfuel := iterate_congr_fuel target body n rest.bound rest r.2 (by omega) (Nat.le_refl _)
      cases hrest : iterate target body rest.bound rest r.2 <;> simp only [hbody, hfuel, hrest]

end Semantics

namespace Machine
open Semantics

@[simp] theorem text_cons (t : Text) (written : List Text) :
    text (t :: written) = text written ++ t := by
  simp [text]

/-- A render fault passes through the calls that it meets. -/
theorem unwind_render (fault : RenderFault) : ∀ stack : List Frame,
    unwind (.render fault) stack = .render fault
  | [] => rfl
  | .call _ _ _ _ _ :: _ => rfl
  | .block _ _ _ :: below => unwind_render fault below
  | .loop _ _ _ _ :: below => unwind_render fault below

/-- A fault that has left a call is not changed by the calls around it. -/
theorem unwind_insideCall (fault : RunFault) (position : Option Position) (stack : List Frame) :
    unwind (fault.insideCall position) stack = fault.insideCall position := by
  cases fault with
  | render fault => exact unwind_render fault stack
  | raised cause => exact unwind_render (.call cause position) stack

variable [Host]

/-- The body of a loop or a call as a block of its own, in the scope extended by some bindings. -/
def fill (scope : Scope) (body : Fragment) (bindings : List (Text × Value)) (store : Store) :
    Outcome Text :=
  Semantics.run (scope.extend bindings) none store body

theorem fill_def (scope : Scope) (body : Fragment) :
    (fun bindings store => Semantics.run (scope.extend bindings) none store body) =
      fill scope body := rfl

/-! ## What a stack comes to -/

/-- What a stack comes to if `written` has been written in its innermost frame or below it, up to
the next call that waits. -/
def complete : List Frame → Text → Store → Except RunFault Text
  | [], written, _ => .ok written
  | .block rest scope chain :: below, written, store =>
    match Semantics.run scope chain store rest with
    | .error fault => .error (unwind fault below)
    | .ok (t, store) => complete below (written ++ t) store
  | .loop target body pairs scope :: below, written, store =>
    match iterate target (fill scope body) pairs.bound pairs store with
    | .error fault => .error (unwind fault below)
    | .ok (t, store) => complete below (written ++ t) store
  | .call next body scope position outer :: below, written, store =>
    match perform scope position (fill scope.inside body) (next written) store with
    | .error fault => .error (unwind (fault.insideCall position) below)
    | .ok (v, store) =>
      match RunFault.written scope.room v with
      | .error fault => .error (unwind (fault.insideCall position) below)
      | .ok t => complete below (text outer ++ t) store

/-- What a step leads to in the end. -/
def Progress.outcome : Progress → Except RunFault Text
  | .running machine => complete machine.stack (text machine.written) machine.store
  | .finished t => .ok t
  | .failed fault => .error fault

/-! ## A step changes nothing about it -/

/-- A call that goes on comes to what its routine does, and then to what the stack below does. -/
theorem outcome_resume (body : Fragment) (scope : Scope) (position : Option Position)
    (written : List Text) (below : List Frame) (store : Store) (routine : Routine) :
    (resume routine body scope position written below store).outcome =
      match perform scope position (fill scope.inside body) routine store with
      | .error fault => .error (unwind (fault.insideCall position) below)
      | .ok (v, store) =>
        match RunFault.written scope.room v with
        | .error fault => .error (unwind (fault.insideCall position) below)
        | .ok t => complete below (text written ++ t) store := by
  induction routine with
  | done v =>
    simp only [resume, advance, perform]
    cases RunFault.written scope.room v with
    | error fault => rfl
    | ok t => simp [Progress.outcome]
  | fail fault => rfl
  | evaluate e next ih =>
    cases hv : scope.evaluateAt e position with
    | error fault => simp only [resume, advance, perform, hv, Progress.outcome]
    | ok v => simpa only [resume, advance, perform, hv] using ih v
  | render bindings next ih =>
    by_cases hroom : scope.room < Host.calling
    · simp only [resume, advance, perform, hroom, if_true, Progress.outcome]
    · -- the routine waits below the block of its body; a fault of the body leaves the call unchanged
      simp only [resume, advance, perform, hroom, if_false, Progress.outcome, complete, fill]
      cases Semantics.run (scope.inside.extend bindings) none store body with
      | error fault => simp only [unwind, unwind_insideCall]
      | ok r => simp [text]

/-- An instruction that is run comes to what it means, and then to what the rest of its block and
the stack below do. -/
theorem outcome_execute (i : Instruction) (rest : Fragment) (scope : Scope) (chain : Option Bool)
    (below : List Frame) (written : List Text) (store : Store) :
    (execute i rest scope chain below written store).outcome =
      match runOne scope chain store i with
      | .error fault => .error (unwind fault below)
      | .ok ((t, chain), store) =>
        complete (.block rest scope chain :: below) (text written ++ t) store := by
  cases i with
  | literal t => simp [execute, runOne, Progress.outcome]
  | expression e source position =>
    simp only [execute, runOne]
    cases scope.evaluateAt e position with
    | error fault => rfl
    | ok v =>
      simp only [Except.bind]
      cases RunFault.written scope.room v with
      | error fault => rfl
      | ok t => simp [Except.map, proceed, Progress.outcome]
  | branch condition body source position =>
    simp only [execute, runOne]
    cases scope.evaluateAt condition position with
    | error fault => rfl
    | ok v =>
      by_cases hv : v.truthy = true
      · -- the body is a block of its own on the stack, and the chain of this one waits below it
        simp only [Except.map, hv, ↓reduceIte, proceed, Progress.outcome, complete]
        cases Semantics.run scope none store body <;> rfl
      · simp [Except.map, hv, proceed, Progress.outcome]
  | elseBranch condition body source position =>
    by_cases hc : chain = some true
    · simp [execute, runOne, hc, Progress.outcome]
    · simp only [execute, runOne, hc, ↓reduceIte]
      cases scope.evaluateAt condition position with
      | error fault => rfl
      | ok v =>
        by_cases hv : v.truthy = true
        · simp only [Except.map, hv, ↓reduceIte, proceed, Progress.outcome, complete]
          cases Semantics.run scope none store body <;> rfl
        · simp [Except.map, hv, proceed, Progress.outcome]
  | otherwise body position =>
    by_cases hc : chain = some true
    · simp [execute, runOne, hc, Progress.outcome]
    · simp only [execute, runOne, hc, ↓reduceIte, Progress.outcome, complete]
      cases Semantics.run scope none store body <;> rfl
  | loop target collection body mode source position =>
    simp only [execute, runOne]
    cases scope.evaluateAt collection position with
    | error fault => rfl
    | ok v =>
      simp only [Except.bind]
      cases Pairs.of mode collection position v with
      | error fault => rfl
      | ok pairs =>
        simp only [Except.map, proceed, Progress.outcome, complete, fill_def]
        cases iterate target (fill scope body) pairs.bound pairs store <;> rfl
  | call routine body arguments position =>
    simp only [execute, outcome_resume, runOne, fill_def]
    cases perform scope position (fill scope.inside body) (routine ⟨arguments, scope.toNames⟩)
      store with
    | error fault => rfl
    | ok r =>
      obtain ⟨v, store⟩ := r
      dsimp only
      cases RunFault.written scope.room v <;> rfl
  | unknown => rfl

/-- **A step of the machine leaves what its stack comes to as it was.** -/
theorem outcome_step (machine : Machine) :
    machine.step.outcome = complete machine.stack (text machine.written) machine.store := by
  obtain ⟨stack, written, store⟩ := machine
  cases stack with
  | nil => rfl
  | cons frame below =>
    cases frame with
    | block rest scope chain =>
      cases rest with
      | nil => simp [step, Progress.outcome, complete, Semantics.run]
      | cons i rest =>
        simp only [step, outcome_execute, complete, Semantics.run]
        cases runOne scope chain store i with
        | error fault => rfl
        | ok r =>
          obtain ⟨⟨t, chain⟩, store⟩ := r
          dsimp only
          cases Semantics.run scope chain store rest with
          | error fault => rfl
          | ok r => simp
    | loop target body pairs scope =>
      simp only [step, complete]
      cases hnext : pairs.next? store with
      | none => simp [iterate_bound_of_none hnext, Progress.outcome]
      | some r =>
        obtain ⟨pair, rest, store'⟩ := r
        rw [iterate_bound_of_some hnext]
        simp only [Progress.outcome, complete, fill]
        cases Semantics.run (scope.extend (Pairs.bindings target pair)) none store' body with
        | error fault => rfl
        | ok r =>
          obtain ⟨t, store⟩ := r
          dsimp only
          cases iterate target (fill scope body) rest.bound rest store with
          | error fault => rfl
          | ok r => simp
    | call next body scope position outer =>
      simp only [step, outcome_resume, complete]

/-! ## A run -/

theorem run_eq (machine : Machine) :
    run machine =
      match machine.step with
      | .running next => run next
      | .finished t => .ok t
      | .failed fault => .error fault := by
  rw [run]
  split <;> simp_all

/-- A run comes to what its stack comes to. -/
theorem run_eq_complete (machine : Machine) :
    run machine = complete machine.stack (text machine.written) machine.store := by
  -- on the steps to come: each leaves the right side as it was, and the last one reads it off
  induction acc_precedes machine with
  | intro machine _ ih =>
    rw [run_eq, ← outcome_step]
    cases h : machine.step with
    | running next => exact ih next h
    | finished t => rfl
    | failed fault => rfl

/-- The machine that runs a fragment gives its meaning. -/
theorem run_start (fragment : Fragment) (scope : Scope) :
    run (start fragment scope) = (Semantics.run scope none [] fragment).map Prod.fst := by
  rw [run_eq_complete]
  simp only [start, complete]
  cases Semantics.run scope none [] fragment with
  | error fault => rfl
  | ok r => simp [text, Except.map]

/-- The machine fills a template as the semantics does. -/
theorem render_eq_semantics (fragment : Fragment) (data : Value) :
    render fragment data = Semantics.render fragment data := by
  rw [render, run_start, Semantics.render]
  cases Semantics.run (Scope.ofData data) none [] fragment <;> rfl

end Machine
end Stencil
