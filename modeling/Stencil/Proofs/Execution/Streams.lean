import Stencil.Proofs.Execution.Blocks
import Stencil.Proofs.Value.Streams

/-! # Runs that touch no stream

The store of a run says what is left of the streams.  Only a loop over a stream changes it, and
there is none in a scope without streams.  So a block leaves the store as it was (`KeepsStore`) if
its instructions do, and an instruction does if its body does; a call is left out here, as its
routine may bring streams of its own into the scope.
-/

namespace Stencil
namespace Semantics
open Fragment

variable [Host]

/-- A block that leaves all streams as they are, in a scope without streams. -/
def KeepsStore (f : Fragment) : Prop :=
  ∀ scope : Scope, scope.StreamFree → ∀ (c : Option Bool) (store store' : Store) (t : Text),
    run scope c store f = .ok (t, store') → store' = store

/-- An instruction that leaves all streams as they are, in a scope without streams. -/
def KeepsStoreOne (i : Instruction) : Prop :=
  ∀ scope : Scope, scope.StreamFree → ∀ (c c' : Option Bool) (store store' : Store) (t : Text),
    runOne scope c store i = .ok ((t, c'), store') → store' = store

theorem keepsStore_nil : KeepsStore [] := by
  intro scope h c store store' t hrun
  rw [run] at hrun
  exact (Prod.mk.inj (Except.ok.inj hrun)).2.symm

theorem keepsStore_cons {i : Instruction} {f : Fragment} (hi : KeepsStoreOne i)
    (hf : KeepsStore f) : KeepsStore (i :: f) := by
  intro scope h c store store' t hrun
  rw [run] at hrun
  cases hone : runOne scope c store i with
  | error fault => simp [hone] at hrun
  | ok r =>
    obtain ⟨⟨u, c'⟩, middle⟩ := r
    obtain rfl := hi scope h c c' store middle u hone
    simp only [hone] at hrun
    cases hrest : run scope c' middle f with
    | error fault => simp [hrest] at hrun
    | ok r =>
      simp only [hrest, Except.ok.injEq, Prod.mk.injEq] at hrun
      exact hrun.2 ▸ hf scope h c' middle r.2 r.1 hrest

/-- Merging a block whose chains are whole does not matter. -/
theorem KeepsStore.merge {f : Fragment} (h : KeepsStore f) (hwhole : broken? f = none) :
    KeepsStore (merge f) := by
  intro scope hscope c store store' t hrun
  rw [run_merge scope c store (p := none) hwhole] at hrun
  exact h scope hscope c store store' t hrun

/-- A body that is run as a part of an instruction. -/
theorem KeepsStore.body {α : Type} {f : Fragment} (h : KeepsStore f) {scope : Scope}
    (hscope : scope.StreamFree) {store store' : Store} {a : Text → α} {result : α}
    (hrun : (match run scope none store f with
      | .error fault => .error fault
      | .ok (t, store) => .ok (a t, store)) = (.ok (result, store') : Outcome α)) :
    store' = store := by
  cases hbody : run scope none store f with
  | error fault => simp [hbody] at hrun
  | ok r =>
    simp only [hbody, Except.ok.injEq, Prod.mk.injEq] at hrun
    exact hrun.2 ▸ h scope hscope none store r.2 r.1 hbody

theorem keepsStore_literal (t : Text) : KeepsStoreOne (.literal t) := by
  intro scope h c c' store store' u hrun
  exact (Prod.mk.inj (Except.ok.inj hrun)).2.symm

theorem keepsStore_expression (e : Expression) (source : Text) (position : Option Position) :
    KeepsStoreOne (.expression e source position) := by
  intro scope h c c' store store' t hrun
  rw [runOne] at hrun
  split at hrun
  · cases hrun
  · rename_i v hv
    cases ht : RunFault.written scope.room v with
    | error fault => simp [ht, Except.map] at hrun
    | ok u =>
      simp only [ht, Except.map, Except.ok.injEq, Prod.mk.injEq] at hrun
      exact hrun.2.symm

theorem keepsStore_branch {body : Fragment} (hbody : KeepsStore body) (condition : Expression)
    (source : Text) (position : Option Position) :
    KeepsStoreOne (.branch condition body source position) := by
  intro scope h c c' store store' t hrun
  rw [runOne] at hrun
  split at hrun
  · cases hrun
  · split at hrun
    · exact hbody.body h hrun
    · exact (Prod.mk.inj (Except.ok.inj hrun)).2.symm

theorem keepsStore_elseBranch {body : Fragment} (hbody : KeepsStore body) (condition : Expression)
    (source : Text) (position : Option Position) :
    KeepsStoreOne (.elseBranch condition body source position) := by
  intro scope h c c' store store' t hrun
  rw [runOne] at hrun
  split at hrun
  · exact (Prod.mk.inj (Except.ok.inj hrun)).2.symm
  · split at hrun
    · cases hrun
    · split at hrun
      · exact hbody.body h hrun
      · exact (Prod.mk.inj (Except.ok.inj hrun)).2.symm

theorem keepsStore_otherwise {body : Fragment} (hbody : KeepsStore body)
    (position : Option Position) : KeepsStoreOne (.otherwise body position) := by
  intro scope h c c' store store' t hrun
  rw [runOne] at hrun
  split at hrun
  · exact (Prod.mk.inj (Except.ok.inj hrun)).2.symm
  · exact hbody.body h hrun

omit [Host] in
/-- A loop over fixed pairs leaves all streams as they are if its body does. -/
theorem keepsStore_iterate {target : Text} {body : List (Text × Value) → Store → Outcome Text}
    {pairs : List (Value × Value)}
    (hbody : ∀ pair ∈ pairs, ∀ store store' t,
      body (Pairs.bindings target pair) store = .ok (t, store') → store' = store)
    {n : Nat} {store store' : Store} {t : Text}
    (h : iterate target body n (.fixed pairs) store = .ok (t, store')) : store' = store := by
  induction n generalizing pairs store t with
  | zero =>
    rw [iterate] at h
    exact (Prod.mk.inj (Except.ok.inj h)).2.symm
  | succ n ih =>
    rw [iterate] at h
    cases pairs with
    | nil => exact (Prod.mk.inj (Except.ok.inj h)).2.symm
    | cons pair rest =>
      simp only [Pairs.next?] at h
      cases hone : body (Pairs.bindings target pair) store with
      | error fault => simp [hone] at h
      | ok r =>
        obtain ⟨u, middle⟩ := r
        obtain rfl := hbody pair List.mem_cons_self store middle u hone
        simp only [hone] at h
        cases hrest : iterate target body n (.fixed rest) middle with
        | error fault => simp [hrest] at h
        | ok r =>
          obtain ⟨w, last⟩ := r
          simp only [hrest, Except.ok.injEq, Prod.mk.injEq] at h
          obtain ⟨-, rfl⟩ := h
          exact ih (fun p hp => hbody p (List.mem_cons_of_mem pair hp)) hrest

/-- **A loop leaves all streams as they are if its body does**: it goes through fixed pairs, and
binds nothing but values without streams. -/
theorem keepsStore_loop (hhost : Host.StreamFree) {body : Fragment} (hbody : KeepsStore body)
    (target : Text) (collection : Expression) (mode : LoopMode) (source : Text)
    (position : Option Position) :
    KeepsStoreOne (.loop target collection body mode source position) := by
  intro scope h c c' store store' t hrun
  rw [runOne] at hrun
  split at hrun
  · cases hrun
  · rename_i v hv
    split at hrun
    · cases hrun
    · rename_i pairs hpairs
      have hfree := Pairs.of_streamFree (h.evaluateAt hhost hv) hpairs
      cases pairs with
      | stream id items taken => exact hfree.elim
      -- the variable and its index are bound to a pair, of which no part holds a stream
      | fixed pairs =>
        generalize hiterate : iterate target _ _ (.fixed pairs) store = outcome at hrun
        cases outcome with
        | error fault => simp at hrun
        | ok r =>
          simp only [Except.ok.injEq, Prod.mk.injEq] at hrun
          refine hrun.2 ▸ keepsStore_iterate (fun pair hpair s s' u hone => ?_) hiterate
          refine hbody _ (h.extend fun b hb => ?_) none s s' u hone
          obtain ⟨hindex, hitem⟩ := hfree pair hpair
          rcases List.mem_cons.mp hb with rfl | hb
          · exact hitem
          · rw [List.mem_singleton.mp hb]
            exact hindex

end Semantics
end Stencil
