import Stencil.Proofs.Execution.Blocks
import Stencil.Proofs.Execution.Refinement
import Stencil.Proofs.Program.Shape

/-! # Running what has been joined

To a run a literal is more than its text: it ends the chain before it.  So joining, which melts
literals and takes empty ones out, may change what the machine does, unless every member of a chain
that needs a predecessor has it directly before it (`Fragment.Linked`).  This is just what the check
after joining asks for (`Fragment.broken?_eq_none_iff`); fragments that are linked before they are
joined are linked afterwards, and whatever the machine is in the middle of, it does not tell the two
apart (`Machine.run_join`).
-/

namespace Stencil

namespace Fragment

/-- Every further member of a chain stands directly behind one that it can follow. -/
def Linked (f : Fragment) : Prop :=
  ∀ front i back, f = front ++ i :: back → isSuccessor i = true →
    ∃ before j, front = before ++ [j] ∧ continues (some j) = true

/-- A fragment breaks no chain if all members of chains in it have a predecessor, the first
instruction perhaps in `previous`. -/
theorem brokenAfter?_eq_none_iff {previous : Option Instruction} {f : Fragment} :
    brokenAfter? previous f = none ↔ ∀ front i back, f = front ++ i :: back →
      isSuccessor i = true → continues (front.getLast?.or previous) = true := by
  constructor
  · intro h front i back hsplit hi
    exact follows_of_brokenAfter? h hsplit hi
  · intro h
    induction f generalizing previous with
    | nil => rfl
    | cons first rest ih =>
      refine (brokenAfter?_cons previous first rest).mpr ⟨h [] first rest rfl, ih ?_⟩
      intro front i back hsplit hi
      have hlast := h (first :: front) i back (by rw [hsplit, List.cons_append]) hi
      rw [List.getLast?_cons] at hlast
      cases hfront : front.getLast? with
      | none => simpa [hfront] using hlast
      | some last => simpa [hfront] using hlast

/-- **No chain is broken exactly if the fragment is linked.** -/
theorem broken?_eq_none_iff {f : Fragment} : broken? f = none ↔ Linked f := by
  rw [broken?, brokenAfter?_eq_none_iff, Linked]
  refine forall_congr' fun front => forall_congr' fun i => forall_congr' fun back => ?_
  refine imp_congr_right fun _ => imp_congr_right fun _ => ?_
  rw [Option.or_none]
  constructor
  · intro hlast
    cases hfront : front.getLast? with
    | none => simp [hfront, continues] at hlast
    | some j =>
      obtain ⟨before, rfl⟩ := List.getLast?_eq_some_iff.mp hfront
      rw [hfront] at hlast
      exact ⟨before, j, rfl, hlast⟩
  · rintro ⟨before, j, rfl, hj⟩
    rw [List.getLast?_concat]
    exact hj

end Fragment

namespace Machine
open Fragment

section

variable [Host]

/-- A machine that has still to run a block does not tell it from its merged form, if the block is
linked: there is the same text in the end, or the same fault. -/
theorem run_merge {f : Fragment} (h : Linked f) (scope : Scope) (chain : Option Bool)
    (below : List Frame) (written : List Text) (store : Store) :
    run ⟨.block (merge f) scope chain :: below, written, store⟩ =
      run ⟨.block f scope chain :: below, written, store⟩ := by
  rw [run_eq_complete, run_eq_complete]
  simp only [complete, Semantics.run_merge scope chain store (broken?_eq_none_iff.mpr h)]

/-- **Joining preserves meaning.**  Fragments may have empty literals and literals in a row wherever
they like, as long as they are linked when they are put one after the other.  Then the joined
fragment is linked, too, so that the check after joining accepts it; running it in any scope gives
the same text, or the same fault, as running the fragments one after the other; and so it does as a
block of a machine that has other work under way, such as the body of a branch, a loop or a call. -/
theorem run_join {fragments : List Fragment} (h : Linked fragments.flatten) :
    joinChecked fragments = .ok (join fragments) ∧
    (∀ scope, run (start (join fragments) scope) = run (start fragments.flatten scope)) ∧
    ∀ scope chain below written store,
      run ⟨.block (join fragments) scope chain :: below, written, store⟩ =
        run ⟨.block fragments.flatten scope chain :: below, written, store⟩ := by
  refine ⟨?_, fun scope => run_merge h scope none [] [] [], run_merge h⟩
  have hbroken : broken? (join fragments) = none :=
    brokenAfter?_merge_eq_none (broken?_eq_none_iff.mpr h)
  rw [joinChecked, hbroken]

end

attribute [local instance] Host.usual

/-- A chain that comes in two halves, among literals of which some are empty. -/
def halves : List Fragment :=
  [[.literal ['a'], .literal []],
   [.branch (.literal (.bool false)) [.literal ['+']] ['0'] none],
   [.otherwise [.literal ['b'], .literal []] none, .literal ['c']],
   [.literal [], .literal ['d']]]

/-- The halves are put together, and what stands around the chain becomes one literal each. -/
theorem run_join_halves :
    Linked halves.flatten ∧
    joinChecked halves =
      .ok [.literal ['a'], .branch (.literal (.bool false)) [.literal ['+']] ['0'] none,
        .otherwise [.literal ['b'], .literal []] none, .literal ['c', 'd']] ∧
    ∀ names, run (start (join halves) ⟨names, Host.filling⟩) = .ok ['a', 'b', 'c', 'd'] := by
  have hlinked : Linked halves.flatten := broken?_eq_none_iff.mp rfl
  obtain ⟨hjoin, hrun, -⟩ := run_join hlinked
  refine ⟨hlinked, hjoin, fun names => ?_⟩
  rw [hrun, run_start]
  rfl

/-- An empty literal inside a chain ends it, unless it is joined away. -/
example (names : Names) : Semantics.run ⟨names, Host.filling⟩ none []
    [.branch (.literal (.bool true)) [.literal ['+']] ['1'] none, .literal [],
      .otherwise [.literal ['-']] none] = .ok (['+', '-'], []) := rfl

end Machine
end Stencil
