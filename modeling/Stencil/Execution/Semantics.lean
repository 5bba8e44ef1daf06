import Stencil.Execution.Iteration

/-!
# What a fragment means

The meaning of a fragment is given by recursion on it: from a scope and a store it goes to a text
and a store, or to a fault. A block is run instruction by instruction. Between instructions it
knows how the chain that may be under way stands: no chain, a chain of which a member has been
taken, or one of which none has. The body of a taken branch is run to its end in the same scope
before the next instruction; the body of a loop is run once per pair in a scope of its own; a call
runs its routine, which may run the body as a block of its own and has only its text to go on.
-/

namespace Stencil
namespace Semantics

/-- What running comes to. -/
abbrev Outcome (α : Type) := Except RunFault (α × Store)

/-- Runs a body for each pair to come, `fuel` of them at most. -/
def iterate (target : Text) (body : List (Text × Value) → Store → Outcome Text) :
    Nat → Pairs → Store → Outcome Text
  | 0, _, store => .ok ([], store)
  | fuel + 1, pairs, store =>
    match pairs.next? store with
    | none => .ok ([], store)
    | some (pair, rest, store) =>
      match body (Pairs.bindings target pair) store with
      | .error fault => .error fault
      | .ok (t, store) =>
        match iterate target body fuel rest store with
        | .error fault => .error fault
        | .ok (u, store) => .ok (t ++ u, store)

/-- Runs a routine of a call at a position in a scope, with a way to run the body, which there has
to be room for. -/
def perform [Host] (scope : Scope) (position : Option Position)
    (body : List (Text × Value) → Store → Outcome Text) : Routine → Store → Outcome Value
  | .done v, store => .ok (v, store)
  | .fail fault, _ => .error (.raised (.routine fault))
  | .evaluate e next, store =>
    match scope.evaluateAt e position with
    | .error fault => .error fault
    | .ok v => perform scope position body (next v) store
  | .render bindings next, store =>
    if scope.room < Host.calling then .error (.raised (.tooDeep .calls))
    else match body bindings store with
      | .error fault => .error fault
      | .ok (t, store) => perform scope position body (next t) store

variable [Host]

mutual

/-- Runs an instruction; gives its text and how the chain stands after it. -/
def runOne (scope : Scope) (chain : Option Bool) (store : Store) :
    Instruction → Outcome (Text × Option Bool)
  | .literal t => .ok ((t, none), store)
  | .expression e _ position =>
    match scope.evaluateAt e position with
    | .error fault => .error fault
    | .ok v => (RunFault.written scope.room v).map fun t => ((t, none), store)
  | .branch condition body _ position =>
    match scope.evaluateAt condition position with
    | .error fault => .error fault
    | .ok v =>
      if v.truthy then
        match run scope none store body with
        | .error fault => .error fault
        | .ok (t, store) => .ok ((t, some true), store)
      else .ok (([], some false), store)
  | .elseBranch condition body _ position =>
    if chain = some true then .ok (([], chain), store)
    else match scope.evaluateAt condition position with
      | .error fault => .error fault
      | .ok v =>
        if v.truthy then
          match run scope none store body with
          | .error fault => .error fault
          | .ok (t, store) => .ok ((t, some true), store)
        else .ok (([], chain), store)
  | .otherwise body _ =>
    if chain = some true then .ok (([], none), store)
    else match run scope none store body with
      | .error fault => .error fault
      | .ok (t, store) => .ok ((t, none), store)
  | .loop target collection body mode _ position =>
    match scope.evaluateAt collection position with
    | .error fault => .error fault
    | .ok v =>
      match Pairs.of mode collection position v with
      | .error fault => .error fault
      | .ok pairs =>
        match iterate target (fun bindings store => run (scope.extend bindings) none store body)
            pairs.bound pairs store with
        | .error fault => .error fault
        | .ok (t, store) => .ok ((t, none), store)
  | .call routine body arguments position =>
    match perform scope position
        (fun bindings store => run (scope.inside.extend bindings) none store body)
        (routine ⟨arguments, scope.toNames⟩) store with
    | .error fault => .error (fault.insideCall position)
    | .ok (v, store) =>
      ((RunFault.written scope.room v).map fun t => ((t, none), store)).mapError
        (·.insideCall position)
  | .unknown => .error (.render .unsupported)

/-- Runs a block, of which the chain under way stands as given. -/
def run (scope : Scope) (chain : Option Bool) (store : Store) :
    List Instruction → Outcome Text
  | [] => .ok ([], store)
  | i :: rest =>
    match runOne scope chain store i with
    | .error fault => .error fault
    | .ok ((t, chain), store) =>
      match run scope chain store rest with
      | .error fault => .error fault
      | .ok (u, store) => .ok (t ++ u, store)

end

/-- The text of a template filled with data. -/
def render (fragment : Fragment) (data : Value) : Except RunFault Text :=
  match run (Scope.ofData data) none [] fragment with
  | .ok (t, _) => .ok t
  | .error fault => .error fault.atTop

end Semantics
end Stencil
