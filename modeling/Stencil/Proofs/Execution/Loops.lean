import Stencil.Proofs.Execution.Blocks
import Stencil.Proofs.Execution.Refinement

/-! # Loops by index and loops over items

A loop by index asks a sequence for the item at each index up to its length; any other loop takes the
items as they come and counts them.  Over a list or a tuple both get the same pairs (`Pairs.of_row`),
so that from the first step on the machine is the same whatever the mode, and what is written is the
body once per item, in order, with the item and its index bound (`Semantics.rounds`).

Bytes are a sequence of integers to a loop by index only (`Pairs.of_index_bytes`).  Any other loop
refuses them before the first round, as it refuses a text (`Pairs.of_each_bytes`).
-/

namespace Stencil

/-- A list or a tuple of the given items. -/
inductive Value.IsRow (v : Value) (items : List Value) : Prop
  | list (h : v.exposed = .list items)
  | tuple (h : v.exposed = .tuple items)

/-- The items of a row are the items at its positions. -/
theorem Value.IsRow.sequence? {v : Value} {items : List Value} (h : v.IsRow items) :
    v.exposed.sequence? = some items := by
  cases h with
  | list h => rw [h]; rfl
  | tuple h => rw [h]; rfl

namespace Pairs

variable {collection : Expression} {position : Option Position} {v : Value}

/-- A loop by index goes through the items of whatever has positions. -/
theorem of_index {items : List Value} (h : v.exposed.sequence? = some items) :
    Pairs.of .index collection position v = .ok (.fixed (enumerate 0 items)) := by
  rw [Pairs.of]
  simp only [h, indexed_eq_enumerate]

/-- **In either mode a loop over a row goes through its items and their indexes.** -/
theorem of_row {items : List Value} (h : v.IsRow items) (mode : LoopMode) :
    Pairs.of mode collection position v = .ok (.fixed (enumerate 0 items)) := by
  cases mode with
  | index => exact of_index h.sequence?
  | each =>
    unfold Pairs.of
    cases h with
    | list h => rw [h]
    | tuple h => rw [h]

/-- The integers that bytes are. -/
theorem of_index_bytes (b : List UInt8) :
    Pairs.of .index collection position (.bytes b) =
      .ok (.fixed (enumerate 0 (b.map fun x => .int x.toNat))) :=
  of_index rfl

theorem of_each_bytes (b : List UInt8) :
    Pairs.of .each collection position (.bytes b) =
      .error (.render (.notIterable collection "bytes" position)) := rfl

end Pairs

namespace Semantics

/-- The rounds of a loop over items, the first of which has the given index: the body once per item,
with the item and its index bound. -/
def rounds (target : Text) (body : List (Text × Value) → Store → Outcome Text) (index : Nat) :
    List Value → Store → Outcome Text
  | [], store => .ok ([], store)
  | v :: rest, store =>
    followedBy (body (Pairs.bindings target (.int index, v)) store)
      (rounds target body (index + 1) rest)

/-- A loop that goes through items with their indexes makes its rounds. -/
theorem iterate_enumerate (target : Text) (body : List (Text × Value) → Store → Outcome Text)
    (index : Nat) (items : List Value) (store : Store) :
    iterate target body (Pairs.fixed (Pairs.enumerate index items)).bound
      (.fixed (Pairs.enumerate index items)) store = rounds target body index items store := by
  induction items generalizing index store with
  | nil => rfl
  | cons v rest ih =>
    have hnext : (Pairs.fixed (Pairs.enumerate index (v :: rest))).next? store =
        some ((.int index, v), .fixed (Pairs.enumerate (index + 1) rest), store) := rfl
    rw [iterate_bound_of_some hnext, rounds]
    cases body (Pairs.bindings target (.int index, v)) store with
    | error fault => rfl
    | ok r =>
      have hrest := ih (index + 1) r.2
      cases hrounds : rounds target body (index + 1) rest r.2 with
      | error fault => simp [followedBy, hrest, hrounds]
      | ok s => simp [followedBy, hrest, hrounds]

/-- What a loop means that goes through items with their indexes. -/
theorem runOne_loop [Host] {scope : Scope} {collection : Expression} {position : Option Position}
    {v : Value} (hv : scope.evaluateAt collection position = .ok v) {mode : LoopMode}
    {items : List Value}
    (hpairs : Pairs.of mode collection position v = .ok (.fixed (Pairs.enumerate 0 items)))
    (target : Text) (body : Fragment) (source : Text) (chain : Option Bool) (store : Store) :
    runOne scope chain store (.loop target collection body mode source position) =
      (rounds target (Machine.fill scope body) 0 items store).map fun r => ((r.1, none), r.2) := by
  simp only [runOne, hv, hpairs, Machine.fill_def, iterate_enumerate]
  cases rounds target (Machine.fill scope body) 0 items store <;> rfl

end Semantics

namespace Machine
open Semantics

section

variable [Host]

/-- A machine that is about to run a loop goes on as the pairs of the collection say. -/
theorem run_loop {scope : Scope} {collection : Expression} {position : Option Position} {v : Value}
    (hv : scope.evaluateAt collection position = .ok v) (target : Text) (body : Fragment)
    (mode : LoopMode) (source : Text) (rest : Fragment) (chain : Option Bool) (below : List Frame)
    (written : List Text) (store : Store) :
    run ⟨.block (.loop target collection body mode source position :: rest) scope chain :: below,
        written, store⟩ =
      match Pairs.of mode collection position v with
      | .error fault => .error (unwind fault below)
      | .ok pairs =>
        run ⟨.loop target body pairs scope :: .block rest scope none :: below, written, store⟩ := by
  rw [run_eq]
  simp only [step, execute, hv, Except.bind]
  cases Pairs.of mode collection position v <;> rfl

/-- **The two modes of a loop agree on lists and tuples.**  If the collection of a loop is a list or
a tuple, the machine comes to the same text in either mode, or to the same fault, whatever else it
has under way; and the loop writes its body once per item, in order, with the item and its index
bound.  Bytes are gone through by index only, as the integers that they are; in the other mode they
are refused. -/
theorem run_loop_modes {scope : Scope} {collection : Expression} {position : Option Position}
    {v : Value} (hv : scope.evaluateAt collection position = .ok v) (target : Text)
    (body : Fragment) (source : Text) :
    (∀ items, v.IsRow items →
      (∀ rest chain below written store,
        run ⟨.block (.loop target collection body .index source position :: rest) scope chain ::
            below, written, store⟩ =
          run ⟨.block (.loop target collection body .each source position :: rest) scope chain ::
            below, written, store⟩) ∧
      ∀ mode chain store,
        runOne scope chain store (.loop target collection body mode source position) =
          (rounds target (fill scope body) 0 items store).map fun r => ((r.1, none), r.2)) ∧
    ∀ b, v = .bytes b →
      (∀ chain store,
        runOne scope chain store (.loop target collection body .index source position) =
          (rounds target (fill scope body) 0 (b.map fun x => .int x.toNat) store).map
            fun r => ((r.1, none), r.2)) ∧
      ∀ rest chain below written store,
        run ⟨.block (.loop target collection body .each source position :: rest) scope chain ::
            below, written, store⟩ =
          .error (.render (.notIterable collection "bytes" position)) := by
  refine ⟨fun items hrow => ⟨fun rest chain below written store => ?_, fun mode chain store => ?_⟩,
    ?_⟩
  · rw [run_loop hv, run_loop hv, Pairs.of_row hrow, Pairs.of_row hrow]
  · exact runOne_loop hv (Pairs.of_row hrow mode) target body source chain store
  · rintro b rfl
    refine ⟨fun chain store => ?_, fun rest chain below written store => ?_⟩
    · exact runOne_loop hv (Pairs.of_index_bytes b) target body source chain store
    · rw [run_loop hv, Pairs.of_each_bytes]
      simp only [unwind_render]

end

attribute [local instance] Host.usual

/-- Data with a value under the name `r`. -/
def dataOf (v : Value) : Scope := .ofData (.map [(.text ['r'], v)])

/-- A loop over `r` that tells which items count as true, with commas between. -/
def truths (mode : LoopMode) : Fragment :=
  [.loop ['x'] (.path ['r'] [])
    [.branch (.path ['x', '_', 'i'] []) [.literal [',']] [] none,
      .branch (.path ['x'] []) [.literal ['+']] [] none, .otherwise [.literal ['-']] none]
    mode [] none]

/-- A tuple of a text and a zero, in either mode. -/
theorem run_loop_modes_tuple :
    (dataOf (.tuple [.text ['a'], .int 0])).evaluateAt (.path ['r'] []) none =
      .ok (.tuple [.text ['a'], .int 0]) ∧
    run (start (truths .index) (dataOf (.tuple [.text ['a'], .int 0]))) =
      run (start (truths .each) (dataOf (.tuple [.text ['a'], .int 0]))) ∧
    run (start (truths .each) (dataOf (.tuple [.text ['a'], .int 0]))) = .ok ['+', ',', '-'] := by
  have hv : (dataOf (.tuple [.text ['a'], .int 0])).evaluateAt (.path ['r'] []) none =
      .ok (.tuple [.text ['a'], .int 0]) := rfl
  refine ⟨hv, ((run_loop_modes hv ['x'] _ []).1 _ (.tuple rfl)).1 [] none [] [] [], ?_⟩
  rw [run_start]
  rfl

/-- Two bytes are gone through by index, and refused otherwise. -/
theorem run_loop_bytes_differ :
    run (start (truths .index) (dataOf (.bytes [104, 0]))) = .ok ['+', ',', '-'] ∧
    run (start (truths .each) (dataOf (.bytes [104, 0]))) =
      .error (.render (.notIterable (.path ['r'] []) "bytes" none)) := by
  rw [run_start, run_start]
  exact ⟨rfl, rfl⟩

end Machine
end Stencil
