import Stencil.Execution.Iteration

/-!
# The machine

Templates nest to any depth, so they are not run by recursion but by a machine with an explicit
stack. A frame of the stack is a block with the instructions it has still to run, a loop with the
pairs it has still to go through, or a call whose routine waits for its body. The machine takes a
step from the frame on top; what is written goes to a list, of which a call keeps its own while its
body is being filled.

A body that a routine asks for is filled from within the routine: while this lasts, the call and its
routine are under way, and there is less room for what else may nest. A routine that asks for its
body where there is no room left fails.

The machine always stops (`acc_precedes`). A step either finishes a piece of work or replaces it by
smaller ones: the body of an instruction is a part of the instruction, a loop has a bound on the
pairs to come, and a routine has a step less to take after each answer. So a stack on top of which a
block is put stops if the stack itself does, by induction on the block, and `run` is recursion along
the steps of a machine that stops.
-/

namespace Stencil

/-- A piece of work under way. -/
inductive Frame where
  /-- A block: what is left of it, its scope, and how the chain under way stands. -/
  | block (rest : Fragment) (scope : Scope) (chain : Option Bool)
  | loop (target : Text) (body : Fragment) (pairs : Pairs) (scope : Scope)
  /-- A call that waits for the text of its body, with what was written before it. -/
  | call (next : Text → Routine) (body : Fragment) (scope : Scope) (position : Option Position)
      (written : List Text)

/-- A machine: the work under way, the innermost first, the texts written, the newest first, and
the store. -/
structure Machine where
  stack : List Frame
  written : List Text
  store : Store

namespace Machine

/-- What a step leads to. -/
inductive Progress where
  | running (machine : Machine)
  | finished (t : Text)
  | failed (fault : RunFault)

/-- How far a routine gets on its own. -/
inductive Advance where
  | done (result : Value)
  | waiting (bindings : List (Text × Value)) (next : Text → Routine)

/-- Runs a routine until it is done or asks for its body, which there has to be room for. -/
def advance [Host] (scope : Scope) (position : Option Position) : Routine → Except RunFault Advance
  | .done v => .ok (.done v)
  | .fail fault => .error (.raised (.routine fault))
  | .render bindings next =>
    if scope.room < Host.calling then .error (.raised (.tooDeep .calls))
    else .ok (.waiting bindings next)
  | .evaluate e next =>
    match scope.evaluateAt e position with
    | .ok v => advance scope position (next v)
    | .error fault => .error fault

/-- What the calls on a stack make of a fault: the innermost one takes what is raised. -/
def unwind (fault : RunFault) : List Frame → RunFault
  | [] => fault
  | .call _ _ _ position _ :: _ => fault.insideCall position
  | _ :: below => unwind fault below

/-- The machine after a step, or what the stack makes of a fault. -/
def proceed (below : List Frame) : Except RunFault Machine → Progress
  | .ok machine => .running machine
  | .error fault => .failed (unwind fault below)

/-- The text that was written. -/
def text (written : List Text) : Text := written.reverse.flatten

/-- Goes on with a call as far as its routine gets. `written` is what was written before it. -/
def resume [Host] (routine : Routine) (body : Fragment) (scope : Scope) (position : Option Position)
    (written : List Text) (below : List Frame) (store : Store) : Progress :=
  match advance scope position routine with
  | .error fault => .failed (unwind (fault.insideCall position) below)
  | .ok (.done v) =>
    match RunFault.written scope.room v with
    | .error fault => .failed (unwind (fault.insideCall position) below)
    | .ok t => .running ⟨below, t :: written, store⟩
  | .ok (.waiting bindings next) =>
    .running
      ⟨.block body (scope.inside.extend bindings) none ::
        .call next body scope position written :: below, [], store⟩

/-- Runs an instruction of a block; `rest` is what follows it in the block. -/
def execute [Host] (i : Instruction) (rest : Fragment) (scope : Scope) (chain : Option Bool)
    (below : List Frame) (written : List Text) (store : Store) : Progress :=
  let back (chain : Option Bool) := Frame.block rest scope chain :: below
  match i with
  | .literal t => .running ⟨back none, t :: written, store⟩
  | .expression e _ position =>
    proceed below ((scope.evaluateAt e position).bind fun v =>
      (RunFault.written scope.room v).map fun t => ⟨back none, t :: written, store⟩)
  | .branch condition body _ position =>
    proceed below ((scope.evaluateAt condition position).map fun v =>
      if v.truthy then ⟨.block body scope none :: back (some true), written, store⟩
      else ⟨back (some false), written, store⟩)
  | .elseBranch condition body _ position =>
    if chain = some true then .running ⟨back chain, written, store⟩
    else proceed below ((scope.evaluateAt condition position).map fun v =>
      if v.truthy then ⟨.block body scope none :: back (some true), written, store⟩
      else ⟨back chain, written, store⟩)
  | .otherwise body _ =>
    if chain = some true then .running ⟨back none, written, store⟩
    else .running ⟨.block body scope none :: back none, written, store⟩
  | .loop target collection body mode _ position =>
    proceed below ((scope.evaluateAt collection position).bind fun v =>
      (Pairs.of mode collection position v).map fun pairs =>
        ⟨.loop target body pairs scope :: back none, written, store⟩)
  | .call routine body arguments position =>
    resume (routine ⟨arguments, scope.toNames⟩) body scope position written (back none) store
  | .unknown => .failed (unwind (.render .unsupported) below)

/-- Takes a step. -/
def step [Host] (machine : Machine) : Progress :=
  match machine.stack with
  | [] => .finished (text machine.written)
  | .block [] _ _ :: below => .running ⟨below, machine.written, machine.store⟩
  | .block (i :: rest) scope chain :: below =>
    execute i rest scope chain below machine.written machine.store
  | .loop target body pairs scope :: below =>
    match pairs.next? machine.store with
    | none => .running ⟨below, machine.written, machine.store⟩
    | some (pair, rest, store) =>
      .running
        ⟨.block body (scope.extend (Pairs.bindings target pair)) none ::
          .loop target body rest scope :: below, machine.written, store⟩
  | .call next body scope position written :: below =>
    resume (next (text machine.written)) body scope position written below machine.store

/-! ## The machine stops -/

variable [Host]

/-- `a` is the machine after a step of `b`. -/
def Precedes (a b : Machine) : Prop := b.step = .running a

/-- A stack stops, whatever has been written and whatever the store. -/
def Stops (stack : List Frame) : Prop :=
  ∀ written store, Acc Precedes ⟨stack, written, store⟩

/-- A block can be put on any stack that stops, in any scope. -/
def Harmless (body : Fragment) : Prop :=
  ∀ below, Stops below → ∀ scope chain, Stops (.block body scope chain :: below)

/-- A machine stops if its next state, if there is one, does. -/
theorem acc_of_step {machine : Machine}
    (h : ∀ next, machine.step = .running next → Acc Precedes next) : Acc Precedes machine :=
  ⟨machine, fun next step => h next step⟩

theorem stops_nil : Stops [] := fun _ _ =>
  acc_of_step fun _ h => by simp [step] at h

theorem harmless_nil : Harmless [] := fun below hbelow scope chain written store =>
  acc_of_step fun next h => by
    simp only [step, Progress.running.injEq] at h
    exact h ▸ hbelow _ _

theorem stops_loop {body : Fragment} (hbody : Harmless body) {below : List Frame}
    (hbelow : Stops below) (target : Text) (scope : Scope) :
    ∀ (n : Nat) (pairs : Pairs), pairs.bound ≤ n →
      Stops (.loop target body pairs scope :: below) := by
  intro n
  induction n with
  | zero =>
    intro pairs hn written store
    refine acc_of_step fun next h => ?_
    simp only [step] at h
    split at h
    · simp only [Progress.running.injEq] at h
      exact h ▸ hbelow _ _
    · rename_i hnext
      have := Pairs.bound_lt_of_next? hnext
      omega
  | succ n ih =>
    intro pairs hn written store
    refine acc_of_step fun next h => ?_
    simp only [step] at h
    split at h
    · simp only [Progress.running.injEq] at h
      exact h ▸ hbelow _ _
    · rename_i pair rest store' hnext
      have := Pairs.bound_lt_of_next? hnext
      simp only [Progress.running.injEq] at h
      exact h ▸ hbody _ (ih rest (by omega)) _ _ _ _

/-- What a call leads to stops, if its body is harmless and the stack below stops. -/
theorem acc_of_resume {body : Fragment} (hbody : Harmless body) {below : List Frame}
    (hbelow : Stops below) (scope : Scope) (position : Option Position) :
    ∀ (routine : Routine) (written : List Text) (store : Store) (next : Machine),
      resume routine body scope position written below store = .running next →
        Acc Precedes next := by
  intro routine
  induction routine with
  | done v =>
    intro written store next h
    simp only [resume, advance] at h
    split at h
    · simp at h
    · simp only [Progress.running.injEq] at h
      exact h ▸ hbelow _ _
  | fail fault =>
    intro written store next h
    simp [resume, advance] at h
  | evaluate e continuation ih =>
    intro written store next h
    simp only [resume, advance] at h
    cases hv : scope.evaluateAt e position with
    | error fault => simp [hv] at h
    | ok v =>
      rw [hv] at h
      exact ih v written store next (by simpa only [resume] using h)
  | render bindings continuation ih =>
    intro written store next h
    have hroom : ¬scope.room < Host.calling := fun hlow => by simp [resume, advance, hlow] at h
    simp only [resume, advance, hroom, if_false, Progress.running.injEq] at h
    have hcall : Stops (.call continuation body scope position written :: below) :=
      fun text store => acc_of_step fun next h => ih _ written store next (by simpa [step] using h)
    exact h ▸ hbody _ hcall _ _ _ _

/-- The bodies of an instruction. -/
def body? : Instruction → Fragment
  | .branch _ body _ _ => body
  | .elseBranch _ body _ _ => body
  | .otherwise body _ => body
  | .loop _ _ body _ _ _ => body
  | .call _ body _ _ => body
  | _ => []

theorem harmless_cons {i : Instruction} (hi : Harmless (body? i)) {rest : Fragment}
    (hrest : Harmless rest) : Harmless (i :: rest) := by
  intro below hbelow scope chain written store
  have back (c : Option Bool) : Stops (.block rest scope c :: below) := hrest _ hbelow scope c
  refine acc_of_step fun next h => ?_
  simp only [step] at h
  cases i with
  | literal t =>
    simp only [execute, Progress.running.injEq] at h
    exact h ▸ back _ _ _
  | expression e source position =>
    simp only [execute] at h
    cases hv : scope.evaluateAt e position with
    | error fault => simp [hv, proceed, Except.bind] at h
    | ok v =>
      cases ht : RunFault.written scope.room v with
      | error fault => simp [hv, ht, proceed, Except.bind, Except.map] at h
      | ok t =>
        simp only [hv, ht, proceed, Except.bind, Except.map, Progress.running.injEq] at h
        exact h ▸ back _ _ _
  | branch condition body source position =>
    simp only [execute] at h
    cases hv : scope.evaluateAt condition position with
    | error fault => simp [hv, proceed, Except.map] at h
    | ok v =>
      simp only [hv, proceed, Except.map, Progress.running.injEq] at h
      split at h
      · exact h ▸ hi _ (back _) _ _ _ _
      · exact h ▸ back _ _ _
  | elseBranch condition body source position =>
    simp only [execute] at h
    split at h
    · simp only [Progress.running.injEq] at h
      exact h ▸ back _ _ _
    · cases hv : scope.evaluateAt condition position with
      | error fault => simp [hv, proceed, Except.map] at h
      | ok v =>
        simp only [hv, proceed, Except.map, Progress.running.injEq] at h
        split at h
        · exact h ▸ hi _ (back _) _ _ _ _
        · exact h ▸ back _ _ _
  | otherwise body position =>
    simp only [execute] at h
    split at h
    · simp only [Progress.running.injEq] at h
      exact h ▸ back _ _ _
    · simp only [Progress.running.injEq] at h
      exact h ▸ hi _ (back _) _ _ _ _
  | loop target collection body mode source position =>
    simp only [execute] at h
    cases hv : scope.evaluateAt collection position with
    | error fault => simp [hv, proceed, Except.bind] at h
    | ok v =>
      cases hp : Pairs.of mode collection position v with
      | error fault => simp [hv, hp, proceed, Except.bind, Except.map] at h
      | ok pairs =>
        simp only [hv, hp, proceed, Except.bind, Except.map, Progress.running.injEq] at h
        exact h ▸ stops_loop hi (back _) _ _ _ pairs (Nat.le_refl _) _ _
  | call routine body arguments position =>
    exact acc_of_resume hi (back none) scope position _ _ _ _ h
  | unknown => simp [execute] at h

mutual

theorem harmless_body : ∀ i : Instruction, Harmless (body? i)
  | .literal _ => harmless_nil
  | .expression _ _ _ => harmless_nil
  | .branch _ body _ _ => harmless body
  | .elseBranch _ body _ _ => harmless body
  | .otherwise body _ => harmless body
  | .loop _ _ body _ _ _ => harmless body
  | .call _ body _ _ => harmless body
  | .unknown => harmless_nil

/-- Every block can be put on any stack that stops. -/
theorem harmless : ∀ body : Fragment, Harmless body
  | [] => harmless_nil
  | i :: rest => harmless_cons (harmless_body i) (harmless rest)

end

theorem stops : ∀ stack : List Frame, Stops stack
  | [] => stops_nil
  | .block body scope chain :: below => harmless body _ (stops below) scope chain
  | .loop target body pairs scope :: below =>
    stops_loop (harmless body) (stops below) target scope _ pairs (Nat.le_refl _)
  | .call next body scope position written :: below => fun _ store =>
    acc_of_step fun machine h =>
      acc_of_resume (harmless body) (stops below) scope position _ _ store machine
        (by simpa [step] using h)

/-- Every machine stops. -/
theorem acc_precedes (machine : Machine) : Acc Precedes machine :=
  stops machine.stack machine.written machine.store

instance : WellFoundedRelation Machine := ⟨Precedes, ⟨acc_precedes⟩⟩

/-! ## Running the machine -/

/-- Runs a machine until it stops. -/
def run (machine : Machine) : Except RunFault Text :=
  match _h : machine.step with
  | .running next => run next
  | .finished t => .ok t
  | .failed fault => .error fault
  termination_by machine
  decreasing_by exact _h

/-- A machine about to run a fragment. -/
def start (fragment : Fragment) (scope : Scope) : Machine :=
  ⟨[.block fragment scope none], [], []⟩

/-- The text of a template filled with data. -/
def render (fragment : Fragment) (data : Value) : Except RunFault Text :=
  (run (start fragment (Scope.ofData data))).mapError RunFault.atTop

end Machine
end Stencil
