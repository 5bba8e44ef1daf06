import Stencil.Library.Extension
import Stencil.Proofs.Execution.Failures

/-! # Which call has a fault

A fault is raised in one place: by an instruction, or by the routine of a call that goes on
(`Machine.Raises`).  Around that place there are the calls of which the body is being filled, the
innermost first (`Machine.callsOn`); a routine that fails is inside its own call.  The fault goes
through all of them (`Machine.attributed`), and a run fails with what comes out
(`Machine.run_eq_error_iff_raises`).  But the first call that it meets already makes a fault of the
template of it, and such a fault passes through: so it is attributed once, to the innermost call.

The body of a call is filled on the stack of the call.  What stands below on a stack takes no part
in a run: it remains as it is until the frames above it are gone, and of a fault it makes what its
calls make of it (`Machine.step_onto`).  So filling the body there comes to what running it as a
block of its own comes to, in the scope of the call with the further bindings and with the room that
the call leaves (`Machine.reaches_body`, `Machine.run_body_error`).  The frames below, that is what
had been written before the call, the chain and the scope of its block, are the same afterwards.
-/

namespace Stencil

section

variable [Host]

/-- What a routine fails with, of a call at a position in a scope, before it asks for its body. -/
inductive Routine.Fails (scope : Scope) (position : Option Position) : Routine → RunFault → Prop
  /-- The routine fails of its own. -/
  | own (fault : RoutineFault) : Fails scope position (.fail fault) (.raised (.routine fault))
  /-- It asks for the value of an expression that has none. -/
  | expression {e : Expression} {next : Value → Routine} {fault : RunFault}
      (h : scope.evaluateAt e position = .error fault) :
      Fails scope position (.evaluate e next) fault
  /-- It goes on with the value of an expression, and fails then. -/
  | after {e : Expression} {next : Value → Routine} {v : Value} {fault : RunFault}
      (hv : scope.evaluateAt e position = .ok v) (h : Fails scope position (next v) fault) :
      Fails scope position (.evaluate e next) fault
  /-- Its result cannot be written. -/
  | unwritable {v : Value} {fault : RunFault} (h : RunFault.written scope.room v = .error fault) :
      Fails scope position (.done v) fault
  /-- There is no room for its body. -/
  | tooDeep {bindings : List (Text × Value)} {next : Text → Routine}
      (h : scope.room < Host.calling) :
      Fails scope position (.render bindings next) (.raised (.tooDeep .calls))

/-- What an instruction fails with, other than a call, before a body of it is begun. -/
inductive Instruction.Fails (scope : Scope) (chain : Option Bool) :
    Instruction → RunFault → Prop
  | expression {e : Expression} {source : Text} {position : Option Position} {fault : RunFault}
      (h : scope.evaluateAt e position = .error fault) :
      Fails scope chain (.expression e source position) fault
  | unwritable {e : Expression} {source : Text} {position : Option Position} {v : Value}
      {fault : RunFault} (hv : scope.evaluateAt e position = .ok v)
      (h : RunFault.written scope.room v = .error fault) :
      Fails scope chain (.expression e source position) fault
  | branch {condition : Expression} {body : Fragment} {source : Text}
      {position : Option Position} {fault : RunFault}
      (h : scope.evaluateAt condition position = .error fault) :
      Fails scope chain (.branch condition body source position) fault
  | elseBranch {condition : Expression} {body : Fragment} {source : Text}
      {position : Option Position} {fault : RunFault} (hchain : chain ≠ some true)
      (h : scope.evaluateAt condition position = .error fault) :
      Fails scope chain (.elseBranch condition body source position) fault
  | collection {target : Text} {collection : Expression} {body : Fragment} {mode : LoopMode}
      {source : Text} {position : Option Position} {fault : RunFault}
      (h : scope.evaluateAt collection position = .error fault) :
      Fails scope chain (.loop target collection body mode source position) fault
  | pairs {target : Text} {collection : Expression} {body : Fragment} {mode : LoopMode}
      {source : Text} {position : Option Position} {v : Value} {fault : RunFault}
      (hv : scope.evaluateAt collection position = .ok v)
      (h : Pairs.of mode collection position v = .error fault) :
      Fails scope chain (.loop target collection body mode source position) fault
  | unknown : Fails scope chain .unknown (.render .unsupported)

namespace Machine

/-! ## Where a fault is raised -/

/-- The positions of the calls on a stack, the innermost first. -/
def callsOn : List Frame → List (Option Position)
  | [] => []
  | .call _ _ _ position _ :: below => position :: callsOn below
  | _ :: below => callsOn below

/-- What calls at positions make of a fault inside them, one after the other, the innermost first. -/
def attributed (calls : List (Option Position)) (fault : RunFault) : RunFault :=
  calls.foldl (fun fault position => fault.insideCall position) fault

omit [Host] in
/-- A fault of the template passes through all calls. -/
theorem attributed_render (own : RenderFault) (calls : List (Option Position)) :
    attributed calls (.render own) = .render own := by
  induction calls with
  | nil => rfl
  | cons position outer ih => exact ih

omit [Host] in
/-- The innermost call decides what becomes of a fault, and those around it change nothing. -/
theorem attributed_cons (position : Option Position) (outer : List (Option Position))
    (fault : RunFault) : attributed (position :: outer) fault = fault.insideCall position := by
  cases fault with
  | render own => exact attributed_render own outer
  | raised cause => exact attributed_render (.call cause position) outer

/-- A call that is under way: its body, its scope and its position, what had been written before it,
and the stack below it. -/
structure Site where
  body : Fragment
  scope : Scope
  position : Option Position
  outer : List Text
  below : List Frame

/-- The machine is about to go on with the routine of a call. -/
inductive Performs : Machine → Routine → Site → Prop
  /-- The call is begun. -/
  | begun {routine : CallContext → Routine} {body : Fragment} {arguments : Arguments}
      {position : Option Position} {rest : Fragment} {scope : Scope} {chain : Option Bool}
      {below : List Frame} {written : List Text} {store : Store} :
      Performs
        ⟨.block (.call routine body arguments position :: rest) scope chain :: below, written, store⟩
        (routine ⟨arguments, scope.toNames⟩)
        ⟨body, scope, position, written, .block rest scope none :: below⟩
  /-- The body has been filled. -/
  | answered {next : Text → Routine} {body : Fragment} {scope : Scope}
      {position : Option Position} {outer : List Text} {below : List Frame} {written : List Text}
      {store : Store} :
      Performs ⟨.call next body scope position outer :: below, written, store⟩
        (next (text written)) ⟨body, scope, position, outer, below⟩

/-- **A fault is raised inside calls**: the machine is about to run an instruction that fails, or to
go on with a routine that fails, in the innermost of the calls. -/
inductive Raises : Machine → List (Option Position) → RunFault → Prop
  | instruction {i : Instruction} {rest : Fragment} {scope : Scope} {chain : Option Bool}
      {below : List Frame} {written : List Text} {store : Store} {fault : RunFault}
      (h : i.Fails scope chain fault) :
      Raises ⟨.block (i :: rest) scope chain :: below, written, store⟩ (callsOn below) fault
  | routine {machine : Machine} {routine : Routine} {site : Site} {fault : RunFault}
      (hperforms : Performs machine routine site)
      (h : routine.Fails site.scope site.position fault) :
      Raises machine (site.position :: callsOn site.below) fault

theorem step_of_performs {machine : Machine} {routine : Routine} {site : Site}
    (h : Performs machine routine site) :
    machine.step = resume routine site.body site.scope site.position site.outer site.below
      machine.store := by
  cases h <;> rfl

omit [Host] in
/-- What a stack makes of a fault is what its calls make of it. -/
theorem unwind_eq_attributed (fault : RunFault) (stack : List Frame) :
    unwind fault stack = attributed (callsOn stack) fault := by
  induction stack with
  | nil => rfl
  | cons frame below ih =>
    cases frame with
    | block | loop => exact ih
    | call next body scope position outer =>
      exact (attributed_cons position (callsOn below) fault).symm

omit [Host] in
theorem proceed_eq_failed_iff {below : List Frame} {r : Except RunFault Machine}
    {fault : RunFault} :
    proceed below r = .failed fault ↔ ∃ own, r = .error own ∧ fault = unwind own below := by
  cases r with
  | ok machine => simp [proceed]
  | error own => simp [proceed, eq_comm]

/-- A call fails if its routine does, and the fault is attributed to it. -/
theorem resume_of_fails {routine : Routine} {scope : Scope} {position : Option Position}
    {own : RunFault} (h : routine.Fails scope position own) (body : Fragment)
    (written : List Text) (below : List Frame) (store : Store) :
    resume routine body scope position written below store =
      .failed (own.insideCall position) := by
  induction h with
  | own fault => simp only [resume, advance, unwind_insideCall]
  | expression h => simp only [resume, advance, h, unwind_insideCall]
  | after hv _ ih => simpa only [resume, advance, hv] using ih
  | unwritable h => simp only [resume, advance, h, unwind_insideCall]
  | tooDeep h => simp only [resume, advance, if_pos h, unwind_insideCall]

/-- A call fails only if its routine does. -/
theorem fails_of_resume {routine : Routine} {body : Fragment} {scope : Scope}
    {position : Option Position} {written : List Text} {below : List Frame} {store : Store}
    {fault : RunFault}
    (h : resume routine body scope position written below store = .failed fault) :
    ∃ own, routine.Fails scope position own ∧ fault = own.insideCall position := by
  induction routine with
  | done v =>
    simp only [resume, advance] at h
    cases hv : RunFault.written scope.room v with
    | ok t => simp [hv] at h
    | error own =>
      simp only [hv, unwind_insideCall, Progress.failed.injEq] at h
      exact ⟨own, .unwritable hv, h.symm⟩
  | fail own =>
    simp only [resume, advance, unwind_insideCall, Progress.failed.injEq] at h
    exact ⟨_, .own own, h.symm⟩
  | render bindings next ih =>
    by_cases hroom : scope.room < Host.calling
    · simp only [resume, advance, if_pos hroom, unwind_insideCall, Progress.failed.injEq] at h
      exact ⟨_, .tooDeep hroom, h.symm⟩
    · simp only [resume, advance, if_neg hroom] at h
      cases h
  | evaluate e next ih =>
    simp only [resume, advance] at h
    cases hv : scope.evaluateAt e position with
    | error own =>
      simp only [hv, unwind_insideCall, Progress.failed.injEq] at h
      exact ⟨own, .expression hv, h.symm⟩
    | ok v =>
      rw [hv] at h
      obtain ⟨own, hfails, hfault⟩ := ih v h
      exact ⟨own, .after hv hfails, hfault⟩

theorem execute_of_fails {i : Instruction} {scope : Scope} {chain : Option Bool} {fault : RunFault}
    (h : i.Fails scope chain fault) (rest : Fragment) (below : List Frame) (written : List Text)
    (store : Store) :
    execute i rest scope chain below written store = .failed (unwind fault below) := by
  cases h with
  | expression h => simp [execute, h, Except.bind, proceed]
  | unwritable hv h => simp [execute, hv, h, Except.bind, Except.map, proceed]
  | branch h => simp [execute, h, Except.map, proceed]
  | elseBranch hchain h => simp [execute, hchain, h, Except.map, proceed]
  | collection h => simp [execute, h, Except.bind, proceed]
  | pairs hv h => simp [execute, hv, h, Except.bind, Except.map, proceed]
  | unknown => rfl

/-- An instruction that cannot be run fails itself, or is a call of which the routine fails. -/
theorem fails_of_execute {i : Instruction} {rest : Fragment} {scope : Scope} {chain : Option Bool}
    {below : List Frame} {written : List Text} {store : Store} {fault : RunFault}
    (h : execute i rest scope chain below written store = .failed fault) :
    (∃ own, i.Fails scope chain own ∧ fault = unwind own below) ∨
      ∃ routine body arguments position, i = .call routine body arguments position ∧
        ∃ own, (routine ⟨arguments, scope.toNames⟩).Fails scope position own ∧
          fault = own.insideCall position := by
  cases i with
  | literal t => cases h
  | expression e source position =>
    obtain ⟨own, hown, hfault⟩ := proceed_eq_failed_iff.mp h
    refine Or.inl ⟨own, ?_, hfault⟩
    rcases error_of_bind hown with hv | ⟨v, hv, hwritten⟩
    · exact .expression hv
    · exact .unwritable hv (error_of_map hwritten)
  | branch condition body source position =>
    obtain ⟨own, hown, hfault⟩ := proceed_eq_failed_iff.mp h
    exact Or.inl ⟨own, .branch (error_of_map hown), hfault⟩
  | elseBranch condition body source position =>
    simp only [execute] at h
    split at h
    · cases h
    · rename_i hchain
      obtain ⟨own, hown, hfault⟩ := proceed_eq_failed_iff.mp h
      exact Or.inl ⟨own, .elseBranch hchain (error_of_map hown), hfault⟩
  | otherwise body position =>
    simp only [execute] at h
    split at h <;> cases h
  | loop target collection body mode source position =>
    obtain ⟨own, hown, hfault⟩ := proceed_eq_failed_iff.mp h
    refine Or.inl ⟨own, ?_, hfault⟩
    rcases error_of_bind hown with hv | ⟨v, hv, hpairs⟩
    · exact .collection hv
    · exact .pairs hv (error_of_map hpairs)
  | call routine body arguments position =>
    exact Or.inr ⟨routine, body, arguments, position, rfl, fails_of_resume h⟩
  | unknown =>
    exact Or.inl ⟨_, .unknown, (Progress.failed.inj h).symm⟩

/-- **A machine that fails to step raises a fault**, and fails with what the calls around make of
it. -/
theorem step_eq_failed_iff {machine : Machine} {fault : RunFault} :
    machine.step = .failed fault ↔
      ∃ calls own, Raises machine calls own ∧ fault = attributed calls own := by
  constructor
  · intro h
    obtain ⟨stack, written, store⟩ := machine
    cases stack with
    | nil => cases h
    | cons frame below =>
      cases frame with
      | block rest scope chain =>
        cases rest with
        | nil => cases h
        | cons i rest =>
          rcases fails_of_execute h with ⟨own, hfails, hfault⟩ |
            ⟨routine, body, arguments, position, rfl, own, hfails, hfault⟩
          · exact ⟨callsOn below, own, .instruction hfails,
              hfault.trans (unwind_eq_attributed own below)⟩
          · exact ⟨position :: callsOn below, own, .routine .begun hfails,
              hfault.trans (attributed_cons position _ own).symm⟩
      | loop target body pairs scope =>
        simp only [step] at h
        split at h <;> cases h
      | call next body scope position outer =>
        obtain ⟨own, hfails, hfault⟩ := fails_of_resume h
        exact ⟨position :: callsOn below, own, .routine .answered hfails,
          hfault.trans (attributed_cons position _ own).symm⟩
  · rintro ⟨calls, own, hraises, rfl⟩
    cases hraises with
    | instruction h => rw [← unwind_eq_attributed]; exact execute_of_fails h _ _ _ _
    | routine hperforms h =>
      rw [step_of_performs hperforms, attributed_cons]
      exact resume_of_fails h _ _ _ _

/-- **A run fails with what has been raised**, attributed to the innermost call around. -/
theorem run_eq_error_iff_raises {machine : Machine} {fault : RunFault} :
    run machine = .error fault ↔
      ∃ last calls own, Reaches machine last ∧ Raises last calls own ∧
        fault = attributed calls own := by
  rw [run_eq_error_iff]
  simp only [step_eq_failed_iff]
  exact ⟨fun ⟨last, hreach, calls, own, h⟩ => ⟨last, calls, own, hreach, h⟩,
    fun ⟨last, calls, own, hreach, h⟩ => ⟨last, hreach, calls, own, h⟩⟩

/-! ## What stands below -/

/-- The machine with further frames below. -/
def onto (machine : Machine) (extra : List Frame) : Machine :=
  { machine with stack := machine.stack ++ extra }

/-- What a step leads to with further frames below. -/
def Progress.onto (extra : List Frame) : Progress → Progress
  | .running machine => .running (machine.onto extra)
  | .finished t => .finished t
  | .failed fault => .failed (unwind fault extra)

omit [Host] in
theorem unwind_append (fault : RunFault) (stack extra : List Frame) :
    unwind fault (stack ++ extra) = unwind (unwind fault stack) extra := by
  induction stack with
  | nil => rfl
  | cons frame below ih =>
    cases frame with
    | block | loop => exact ih
    | call next body scope position outer => exact (unwind_insideCall fault position extra).symm

theorem resume_append (routine : Routine) (body : Fragment) (scope : Scope)
    (position : Option Position) (written : List Text) (below extra : List Frame) (store : Store) :
    resume routine body scope position written (below ++ extra) store =
      (resume routine body scope position written below store).onto extra := by
  unfold resume
  cases advance scope position routine with
  | error fault => simp only [Progress.onto, unwind_append]
  | ok r =>
    cases r with
    | done v =>
      cases hv : RunFault.written scope.room v with
      | error fault => simp only [hv, Progress.onto, unwind_append]
      | ok t => simp only [hv, Progress.onto, Machine.onto]
    | waiting bindings next => rfl

omit [Host] in
theorem proceed_append (below extra : List Frame) (r : Except RunFault Machine) :
    proceed (below ++ extra) (r.map (·.onto extra)) = (proceed below r).onto extra := by
  cases r with
  | ok machine => rfl
  | error fault => simp only [Except.map, proceed, Progress.onto, unwind_append]

theorem execute_append (i : Instruction) (rest : Fragment) (scope : Scope) (chain : Option Bool)
    (below extra : List Frame) (written : List Text) (store : Store) :
    execute i rest scope chain (below ++ extra) written store =
      (execute i rest scope chain below written store).onto extra := by
  cases i with
  | literal t => rfl
  | expression e source position =>
    simp only [execute, ← proceed_append]
    cases scope.evaluateAt e position with
    | error fault => rfl
    | ok v =>
      simp only [Except.bind]
      cases RunFault.written scope.room v <;> rfl
  | branch condition body source position =>
    simp only [execute, ← proceed_append]
    cases scope.evaluateAt condition position with
    | error fault => rfl
    | ok v =>
      simp only [Except.map]
      cases v.truthy <;> rfl
  | elseBranch condition body source position =>
    simp only [execute]
    split
    · rfl
    · rw [← proceed_append]
      cases scope.evaluateAt condition position with
      | error fault => rfl
      | ok v =>
        simp only [Except.map]
        cases v.truthy <;> rfl
  | otherwise body position =>
    simp only [execute]
    split <;> rfl
  | loop target collection body mode source position =>
    simp only [execute, ← proceed_append]
    cases scope.evaluateAt collection position with
    | error fault => rfl
    | ok v =>
      simp only [Except.bind]
      cases Pairs.of mode collection position v <;> rfl
  | call routine body arguments position =>
    exact resume_append _ _ _ _ _ (.block rest scope none :: below) _ _
  | unknown => simp only [execute, Progress.onto, unwind_append]

/-- **A step does not look below**: with further frames there it does the same, as long as there are
frames above them. -/
theorem step_onto {machine : Machine} (h : machine.stack ≠ []) (extra : List Frame) :
    (machine.onto extra).step = machine.step.onto extra := by
  obtain ⟨stack, written, store⟩ := machine
  cases stack with
  | nil => exact absurd rfl h
  | cons frame below =>
    cases frame with
    | block rest scope chain =>
      cases rest with
      | nil => rfl
      | cons i rest => exact execute_append i rest scope chain below extra written store
    | loop target body pairs scope =>
      simp only [Machine.onto, List.cons_append, step]
      cases hnext : pairs.next? store with
      | none => rfl
      | some r => rfl
    | call next body scope position outer =>
      exact resume_append _ body scope position outer below extra store

theorem reaches_onto {machine last : Machine} (h : Reaches machine last) (extra : List Frame) :
    Reaches (machine.onto extra) (last.onto extra) := by
  induction h with
  | refl => exact .refl
  | @tail before last _ hstep ih =>
    have hstack : before.stack ≠ [] := fun hnil => by
      rw [step, hnil] at hstep
      cases hstep
    refine ih.tail ?_
    rw [step_onto hstack, hstep]
    rfl

/-- A run that fails does so with further frames below, and these make of the fault what they do. -/
theorem run_onto_eq_error {machine : Machine} {fault : RunFault} (h : run machine = .error fault)
    (extra : List Frame) : run (machine.onto extra) = .error (unwind fault extra) := by
  obtain ⟨last, hreach, hlast⟩ := run_eq_error_iff.mp h
  have hstack : last.stack ≠ [] := fun hnil => by
    rw [step, hnil] at hlast
    cases hlast
  refine run_eq_error_iff.mpr ⟨last.onto extra, reaches_onto hreach extra, ?_⟩
  rw [step_onto hstack, hlast]
  rfl

omit [Host] in
theorem proceed_ne_finished (below : List Frame) (r : Except RunFault Machine) (t : Text) :
    proceed below r ≠ .finished t := by
  cases r <;> exact Progress.noConfusion

theorem resume_ne_finished (routine : Routine) (body : Fragment) (scope : Scope)
    (position : Option Position) (written : List Text) (below : List Frame) (store : Store)
    (t : Text) : resume routine body scope position written below store ≠ .finished t := by
  unfold resume
  split
  · exact Progress.noConfusion
  · split <;> exact Progress.noConfusion
  · exact Progress.noConfusion

theorem execute_ne_finished (i : Instruction) (rest : Fragment) (scope : Scope)
    (chain : Option Bool) (below : List Frame) (written : List Text) (store : Store) (t : Text) :
    execute i rest scope chain below written store ≠ .finished t := by
  cases i with
  | literal | unknown => exact Progress.noConfusion
  | expression | branch | loop => exact proceed_ne_finished _ _ _
  | elseBranch condition body source position =>
    simp only [execute]
    split
    · exact Progress.noConfusion
    · exact proceed_ne_finished _ _ _
  | otherwise body position =>
    simp only [execute]
    split <;> exact Progress.noConfusion
  | call routine body arguments position => exact resume_ne_finished _ _ _ _ _ _ _ _

/-- A run is over when no frame is left. -/
theorem stack_eq_nil_of_finished {machine : Machine} {t : Text} (h : machine.step = .finished t) :
    machine.stack = [] := by
  obtain ⟨stack, written, store⟩ := machine
  cases stack with
  | nil => rfl
  | cons frame below =>
    cases frame with
    | block rest scope chain =>
      cases rest with
      | nil => cases h
      | cons i rest => exact absurd h (execute_ne_finished _ _ _ _ _ _ _ _)
    | loop target body pairs scope =>
      simp only [step] at h
      split at h <;> cases h
    | call next body scope position outer =>
      exact absurd h (resume_ne_finished _ _ _ _ _ _ _ _)

/-- A run that comes to a text is one to a machine without frames that has written the text. -/
theorem exists_finished_of_run {machine : Machine} {t : Text} (h : run machine = .ok t) :
    ∃ written store, text written = t ∧ Reaches machine ⟨[], written, store⟩ := by
  induction acc_precedes machine with
  | intro machine _ ih =>
    rw [run_eq] at h
    cases hstep : machine.step with
    | running next =>
      simp only [hstep] at h
      obtain ⟨written, store, ht, hreach⟩ := ih next hstep h
      exact ⟨written, store, ht, .head hstep hreach⟩
    | finished own =>
      obtain ⟨stack, written, store⟩ := machine
      obtain rfl := stack_eq_nil_of_finished hstep
      simp only [hstep, Except.ok.injEq] at h
      exact ⟨written, store, (Progress.finished.inj hstep).trans h, .refl⟩
    | failed fault => simp [hstep] at h

/-! ## The body of a call -/

/-- The machine that runs the body of a call as a block of its own, in the scope inside the call
extended by bindings. -/
def alone (site : Site) (bindings : List (Text × Value)) (store : Store) : Machine :=
  ⟨[.block site.body (site.scope.inside.extend bindings) none], [], store⟩

/-- The frames on which the body of a call is filled: the call itself, that goes on afterwards, and
the ones below it. -/
def under (site : Site) (next : Text → Routine) : List Frame :=
  .call next site.body site.scope site.position site.outer :: site.below

/-- A routine that asks for its body puts it on the stack as a block. -/
theorem step_of_waiting {machine : Machine} {routine : Routine} {site : Site}
    (hperforms : Performs machine routine site) {bindings : List (Text × Value)}
    {next : Text → Routine}
    (h : advance site.scope site.position routine = .ok (.waiting bindings next)) :
    machine.step = .running ((alone site bindings machine.store).onto (under site next)) := by
  rw [step_of_performs hperforms, resume, h]
  rfl

/-- **The body of a call that comes to a text alone** comes to it on the stack of the call, and
leaves all frames there as they are. -/
theorem reaches_body {machine : Machine} {routine : Routine} {site : Site}
    (hperforms : Performs machine routine site) {bindings : List (Text × Value)}
    {next : Text → Routine}
    (h : advance site.scope site.position routine = .ok (.waiting bindings next)) {t : Text}
    (hrun : run (alone site bindings machine.store) = .ok t) :
    ∃ written store, text written = t ∧
      Reaches (alone site bindings machine.store) ⟨[], written, store⟩ ∧
      Reaches machine ⟨under site next, written, store⟩ := by
  obtain ⟨written, store, ht, hreach⟩ := exists_finished_of_run hrun
  exact ⟨written, store, ht, hreach,
    .head (step_of_waiting hperforms h) (reaches_onto hreach (under site next))⟩

/-- The call takes the fault of a body that fails alone. -/
theorem run_body_error {machine : Machine} {routine : Routine} {site : Site}
    (hperforms : Performs machine routine site) {bindings : List (Text × Value)}
    {next : Text → Routine}
    (h : advance site.scope site.position routine = .ok (.waiting bindings next)) {own : RunFault}
    (hrun : run (alone site bindings machine.store) = .error own) :
    run machine = .error (own.insideCall site.position) := by
  rw [run_eq, step_of_waiting hperforms h]
  exact run_onto_eq_error hrun (under site next)

/-- A run with data fails with what its machine makes of the fault that it comes to. -/
theorem render_eq_error_iff {fragment : Fragment} {data : Value} {fault : RunFault} :
    render fragment data = .error fault ↔
      ∃ own, run (start fragment (Scope.ofData data)) = .error own ∧ fault = own.atTop := by
  rw [render]
  cases run (start fragment (Scope.ofData data)) with
  | ok t => simp [Except.mapError]
  | error own => simp [Except.mapError, eq_comm]

/-- **What a call fails with, and what it has of its body.**  A run with data fails exactly where a
fault is raised inside calls, with what all of them make of it.  A fault of the template reaches the
outside as it is, however many calls there are.  Anything else that is raised inside a call is
reported with the position of the innermost one, as what its handler failed with.

When a routine asks for its body, what the body comes to as a block of its own decides: either the
routine goes on with its text, and what had been written before, and all frames below the call are
the same as they were; or the run fails with the fault of the body, attributed to this call. -/
theorem render_calls (fragment : Fragment) (data : Value) :
    (∀ fault, render fragment data = .error fault ↔
      ∃ machine calls own, Reaches (start fragment (Scope.ofData data)) machine ∧
        Raises machine calls own ∧ fault = (attributed calls own).atTop) ∧
    (∀ machine calls own, Reaches (start fragment (Scope.ofData data)) machine →
      Raises machine calls (.render own) → render fragment data = .error (.render own)) ∧
    (∀ machine position outer cause, Reaches (start fragment (Scope.ofData data)) machine →
      Raises machine (position :: outer) (.raised cause) →
        ∃ own : RenderFault, render fragment data = .error (.render own) ∧
          own = .call cause position ∧ own.position? = position ∧
          own.message = "Tag handler failed: " ++ cause.message) ∧
    ∀ machine routine site bindings next,
      Reaches (start fragment (Scope.ofData data)) machine → Performs machine routine site →
      advance site.scope site.position routine = .ok (.waiting bindings next) →
        (∀ t, run (alone site bindings machine.store) = .ok t →
          ∃ written store,
            Reaches (alone site bindings machine.store) ⟨[], written, store⟩ ∧
            Reaches machine ⟨under site next, written, store⟩ ∧
            Performs ⟨under site next, written, store⟩ (next t) site) ∧
        (∀ own, run (alone site bindings machine.store) = .error own →
          render fragment data = .error (own.insideCall site.position)) := by
  have hiff : ∀ fault, render fragment data = .error fault ↔
      ∃ machine calls own, Reaches (start fragment (Scope.ofData data)) machine ∧
        Raises machine calls own ∧ fault = (attributed calls own).atTop := by
    intro fault
    simp only [render_eq_error_iff, run_eq_error_iff_raises]
    constructor
    · rintro ⟨_, ⟨machine, calls, own, hreach, hraises, rfl⟩, hfault⟩
      exact ⟨machine, calls, own, hreach, hraises, hfault⟩
    · rintro ⟨machine, calls, own, hreach, hraises, hfault⟩
      exact ⟨_, ⟨machine, calls, own, hreach, hraises, rfl⟩, hfault⟩
  refine ⟨hiff, fun machine calls own hreach hraises => ?_,
    fun machine position outer cause hreach hraises => ?_,
    fun machine routine site bindings next hreach hperforms hadvance =>
      ⟨fun t hrun => ?_, fun own hrun => ?_⟩⟩
  · refine (hiff _).mpr ⟨machine, calls, _, hreach, hraises, ?_⟩
    rw [attributed_render]
    rfl
  · refine ⟨.call cause position, (hiff _).mpr ⟨machine, _, _, hreach, hraises, ?_⟩, rfl, rfl, rfl⟩
    rw [attributed_cons]
    rfl
  · obtain ⟨written, store, rfl, halone, hmachine⟩ := reaches_body hperforms hadvance hrun
    exact ⟨written, store, halone, hmachine, .answered⟩
  · refine render_eq_error_iff.mpr ⟨own.insideCall site.position, ?_, ?_⟩
    · rw [run_eq_of_reaches hreach]
      exact run_body_error hperforms hadvance hrun
    · cases own <;> rfl

end Machine

end

namespace Machine

attribute [local instance] Host.usual

/-- A call without a position that fails, in the body of one with a position: the fault is without a
position. -/
theorem render_calls_nested :
    render [.call Extension.upper [.call Extension.boom [] [] none] [] (some ⟨0, 1, 1⟩)] (.map []) =
      .error (.render (.call (.routine (.divisionByZero "boom")) none)) := by
  obtain ⟨-, -, hraised, -⟩ := render_calls
    [.call Extension.upper [.call Extension.boom [] [] none] [] (some ⟨0, 1, 1⟩)] (.map [])
  obtain ⟨own, hrender, rfl, -, -⟩ :=
    hraised _ none [some ⟨0, 1, 1⟩] _ (.single rfl) (.routine .begun (.own _))
  exact hrender

end Machine
end Stencil
