import Stencil.Execution.RunFault

/-!
# What a loop goes through

A loop goes through pairs: the items of a sequence with their indexes, the values of a map with
their keys, or the items of a stream as it yields them. A loop by index asks the sequence for the
item at each index; any other loop takes the items as they come and counts them. A stream yields
each item once in a run, to whichever loop asks first; the `Store` of the run keeps what each stream
has left. A loop over a stream of `n` items gets at most `n` of them, whatever happens inside it,
and so comes to an end.
-/

namespace Stencil

/-- What each stream that has been asked has left. -/
abbrev Store := List (Nat × List Value)

namespace Store

/-- What a stream has left, of the given items. -/
def remaining (store : Store) (id : Nat) (items : List Value) : List Value :=
  (store.lookup id).getD items

/-- The store after a stream is left with the given items. -/
def leave (id : Nat) (items : List Value) : Store → Store
  | [] => [(id, items)]
  | entry :: rest =>
    if entry.1 = id then (id, items) :: rest else entry :: leave id items rest

end Store

/-- What a loop has still to go through. -/
inductive Pairs where
  /-- Values, each after its index or key. -/
  | fixed (pairs : List (Value × Value))
  /-- A stream of which the loop has had so many items. -/
  | stream (id : Nat) (items : List Value) (taken : Nat)

namespace Pairs

/-- Values with their indexes, from the given index on. -/
def enumerate (index : Nat) : List Value → List (Value × Value)
  | [] => []
  | v :: rest => (.int index, v) :: enumerate (index + 1) rest

/-- The values at the indexes of a row, each after its index. -/
def indexed (items : List Value) : List (Value × Value) :=
  (List.finRange items.length).map fun i => (.int i.val, items[i])

/-- To count items as they come is to ask for them at their indexes. -/
theorem enumerate_eq_map (items : List Value) (index : Nat) :
    enumerate index items =
      (List.finRange items.length).map fun i => (.int (index + i.val : Nat), items[i]) := by
  induction items generalizing index with
  | nil => rfl
  | cons v rest ih =>
    have hrange : List.finRange (v :: rest).length =
        0 :: (List.finRange rest.length).map Fin.succ := List.finRange_succ
    rw [enumerate, ih, hrange, List.map_cons, List.map_map]
    refine congrArg (_ :: ·) (List.map_congr_left fun i _ => ?_)
    have hplace : index + 1 + i.val = index + i.succ.val := by rw [Fin.val_succ]; omega
    exact Prod.ext (congrArg (fun n : Nat => Value.int n) hplace) rfl

theorem indexed_eq_enumerate (items : List Value) : indexed items = enumerate 0 items := by
  simp only [enumerate_eq_map, indexed, Nat.zero_add]

/-- An upper bound on the pairs to come. -/
def bound : Pairs → Nat
  | .fixed pairs => pairs.length
  | .stream _ items taken => items.length - taken

/-- The next pair, with the pairs after it and the store. -/
def next? (pairs : Pairs) (store : Store) : Option ((Value × Value) × Pairs × Store) :=
  match pairs with
  | .fixed [] => none
  | .fixed (pair :: rest) => some (pair, .fixed rest, store)
  | .stream id items taken =>
    if taken < items.length then
      match store.remaining id items with
      | [] => none
      | v :: rest => some ((.int taken, v), .stream id items (taken + 1), Store.leave id rest store)
    else none

theorem bound_lt_of_next? {pairs rest : Pairs} {store store' : Store} {pair : Value × Value}
    (h : pairs.next? store = some (pair, rest, store')) : rest.bound < pairs.bound := by
  unfold next? at h
  split at h
  · simp at h
  · simp only [Option.some.injEq, Prod.mk.injEq] at h
    obtain ⟨-, rfl, -⟩ := h
    simp [bound]
  · split at h
    · split at h
      · simp at h
      · simp only [Option.some.injEq, Prod.mk.injEq] at h
        obtain ⟨-, rfl, -⟩ := h
        simp only [bound]
        omega
    · simp at h

/-- The pairs of a collection, by the mode of the loop. -/
def of (mode : LoopMode) (collection : Expression) (position : Option Position) (v : Value) :
    Except RunFault Pairs :=
  match mode, v.exposed with
  | .index, v =>
    match v.sequence? with
    | some items => .ok (.fixed (indexed items))
    | none => .error (.render (.notSequence collection v.typeName position))
  | .each, .map entries => .ok (.fixed entries)
  | .each, .list items => .ok (.fixed (enumerate 0 items))
  | .each, .tuple items => .ok (.fixed (enumerate 0 items))
  | .each, .stream id items => .ok (.stream id items 0)
  | .each, v =>
    if v.claimsItems then .error (.raised (.misused (.notIterable v.typeName)))
    else .error (.render (.notIterable collection v.typeName position))

/-- The bindings that a loop makes for a pair: the item under the name of the loop, the index or
key under the same name with `_i` after it. -/
def bindings (target : Text) (pair : Value × Value) : List (Text × Value) :=
  [(target, pair.2), (target ++ ['_', 'i'], pair.1)]

end Pairs

/-- The value of an expression at a position of a template. -/
def Scope.evaluateAt [Host] (scope : Scope) (e : Expression) (position : Option Position) :
    Except RunFault Value :=
  (e.evaluate scope).mapError (RunFault.ofEvaluation position)

end Stencil
