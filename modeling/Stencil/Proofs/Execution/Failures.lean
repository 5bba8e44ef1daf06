import Stencil.Proofs.Execution.Refinement
import Stencil.Proofs.Execution.Steps
import Stencil.Proofs.Expression.Evaluation
import Stencil.Proofs.Program.Shape
import Stencil.Proofs.Value.Spelling

/-! # How runs fail

A run fails exactly where a machine that it reaches fails to step (`Machine.run_eq_error_iff`).  Let
a fragment have basic instructions only (`Instruction.IsBasic`): no calls, and all expressions have
been read.  Let it be filled with a mapping, in which a property holds throughout that lasts, and
that the host does not break.  Then every machine of the run is `Machine.Steady`: the blocks on its
stack are basic, the data of its scopes are a mapping, and the property holds throughout all values
in scopes, in pairs to come and in what streams have left.  A step keeps this
(`Machine.steady_of_step`).

If the data are spellable, a machine that fails to step has met a fault of the template, or a
nesting that is too deep, or one of two things that leak (`Machine.explains_of_step`):

* an expression has misread a position (`Expression.Misreads`);
* a loop has met an object that passes for a value with items, but has none
  (`Machine.MeetsImpostor`).  There is none in honest data (`Machine.not_meetsImpostor`).
-/

namespace Stencil

section

variable [Host]

/-- An instruction that writes a text, or evaluates an expression that has been read, or runs its
body without a condition. -/
inductive Instruction.IsBasic : Instruction → Prop
  | literal (t : Text) : IsBasic (.literal t)
  | expression {e : Expression} (he : e.IsRead) (source : Text) (position : Option Position) :
      IsBasic (.expression e source position)
  | branch {condition : Expression} (he : condition.IsRead) (body : Fragment) (source : Text)
      (position : Option Position) : IsBasic (.branch condition body source position)
  | elseBranch {condition : Expression} (he : condition.IsRead) (body : Fragment) (source : Text)
      (position : Option Position) : IsBasic (.elseBranch condition body source position)
  | otherwise (body : Fragment) (position : Option Position) : IsBasic (.otherwise body position)
  | loop (target : Text) {collection : Expression} (he : collection.IsRead) (body : Fragment)
      (mode : LoopMode) (source : Text) (position : Option Position) :
      IsBasic (.loop target collection body mode source position)

/-- The expression that an instruction evaluates. -/
def Instruction.expression? : Instruction → Option Expression
  | .expression e _ _ => some e
  | .branch condition _ _ _ => some condition
  | .elseBranch condition _ _ _ => some condition
  | .loop _ collection _ _ _ _ => some collection
  | _ => none

/-- Data without an object that passes for a value with items. -/
def Value.Honest (v : Value) : Prop := v.Throughout fun u => u.claimsItems = false

omit [Host] in
theorem Value.kept_claimsItems : Value.Kept fun v => v.claimsItems = false := by
  refine Value.kept_of_collections (fun v h => ?_) (fun _ => rfl) fun v h => ?_
  · cases v <;> first | rfl | cases h
  · cases v <;> first | rfl | cases h

/-- **Honesty lasts**: no constant is an object. -/
theorem Value.lasting_claimsItems : Value.Lasting fun v => v.claimsItems = false :=
  ⟨Value.kept_claimsItems, fun _ constant _ => by cases constant <;> rfl⟩

namespace Machine
open Fragment

/-! ## Failing steps -/

/-- A run that fails has reached a machine that fails to step, with the same fault. -/
theorem exists_failing_of_run {machine : Machine} {fault : RunFault}
    (h : run machine = .error fault) :
    ∃ last, Reaches machine last ∧ last.step = .failed fault := by
  induction acc_precedes machine with
  | intro machine _ ih =>
    rw [run_eq] at h
    cases hstep : machine.step with
    | running next =>
      simp only [hstep] at h
      obtain ⟨last, hreach, hlast⟩ := ih next hstep h
      exact ⟨last, .head hstep hreach, hlast⟩
    | finished t => simp [hstep] at h
    | failed own =>
      simp only [hstep, Except.error.injEq] at h
      exact ⟨machine, .refl, h ▸ hstep⟩

/-- A run comes to what the machines that it reaches come to. -/
theorem run_eq_of_reaches {machine last : Machine} (h : Reaches machine last) :
    run machine = run last := by
  induction h with
  | refl => rfl
  | tail _ hstep ih => rw [ih, run_eq, hstep]

/-- **A run fails where a machine that it reaches fails to step.** -/
theorem run_eq_error_iff {machine : Machine} {fault : RunFault} :
    run machine = .error fault ↔ ∃ last, Reaches machine last ∧ last.step = .failed fault := by
  refine ⟨exists_failing_of_run, fun ⟨last, hreach, hlast⟩ => ?_⟩
  rw [run_eq_of_reaches hreach, run_eq, hlast]

/-! ## Steady machines -/

/-- A scope whose data are a mapping, with a property throughout all values. -/
structure SteadyScope (P : Value → Prop) (scope : Scope) : Prop where
  values : scope.Throughout P
  mapping : ∃ entries, scope.data.entries? = some entries

/-- A frame of a run without calls, with basic instructions and a property throughout all values. -/
def SteadyFrame (P : Value → Prop) : Frame → Prop
  | .block rest scope _ => Every Instruction.IsBasic rest ∧ SteadyScope P scope
  | .loop _ body pairs scope =>
    Every Instruction.IsBasic body ∧ SteadyScope P scope ∧ pairs.Throughout P
  | .call _ _ _ _ _ => False

/-- **A steady machine**: all its frames are, and the property holds throughout what streams have
left. -/
structure Steady (P : Value → Prop) (machine : Machine) : Prop where
  frames : ∀ frame ∈ machine.stack, SteadyFrame P frame
  store : Store.Throughout P machine.store

variable {P : Value → Prop}

omit [Host] in
theorem SteadyScope.extend {scope : Scope} (h : SteadyScope P scope) {pair : Value × Value}
    (hpair : pair.1.Throughout P ∧ pair.2.Throughout P) (target : Text) :
    SteadyScope P (scope.extend (Pairs.bindings target pair)) where
  values := by
    refine h.values.extend (List.forall_mem_cons.mpr ⟨hpair.2, ?_⟩)
    exact List.forall_mem_singleton.mpr hpair.1
  mapping := h.mapping

/-- Without calls a fault passes the stack as it is. -/
theorem unwind_of_steady {fault : RunFault} {stack : List Frame}
    (h : ∀ frame ∈ stack, SteadyFrame P frame) : unwind fault stack = fault := by
  induction stack with
  | nil => rfl
  | cons frame below ih =>
    obtain ⟨hframe, hbelow⟩ := List.forall_mem_cons.mp h
    cases frame with
    | block | loop => exact ih hbelow
    | call => exact hframe.elim

variable {ε α β : Type}

omit [Host] in
theorem error_of_bind {x : Except ε α} {f : α → Except ε β} {e : ε} (h : x.bind f = .error e) :
    x = .error e ∨ ∃ a, x = .ok a ∧ f a = .error e := by
  cases x with
  | error own => exact Or.inl (congrArg Except.error (Except.error.inj h))
  | ok a => exact Or.inr ⟨a, rfl, h⟩

omit [Host] in
theorem error_of_map {x : Except ε α} {f : α → β} {e : ε} (h : x.map f = .error e) :
    x = .error e := by
  cases x with
  | error own => exact congrArg Except.error (Except.error.inj h)
  | ok a => cases h

theorem error_of_proceed {below : List Frame} (hbelow : ∀ frame ∈ below, SteadyFrame P frame)
    {r : Except RunFault Machine} {fault : RunFault} (h : proceed below r = .failed fault) :
    r = .error fault := by
  cases r with
  | ok machine => cases h
  | error own => rw [← Progress.failed.inj h, unwind_of_steady hbelow]

/-- An instruction that goes on in a steady machine leads to a steady one. -/
theorem steady_of_execute (hP : Value.Lasting P) (hhost : Host.Keeps P) {i : Instruction}
    {rest : Fragment} {scope : Scope} {chain : Option Bool} {below : List Frame}
    {written : List Text} {store : Store} {next : Machine}
    (hrest : Every Instruction.IsBasic (i :: rest)) (hscope : SteadyScope P scope)
    (hbelow : ∀ frame ∈ below, SteadyFrame P frame) (hstore : Store.Throughout P store)
    (h : execute i rest scope chain below written store = .running next) : Steady P next := by
  have back (c : Option Bool) : ∀ frame ∈ .block rest scope c :: below, SteadyFrame P frame :=
    List.forall_mem_cons.mpr ⟨⟨hrest.tail, hscope⟩, hbelow⟩
  have enter (c : Option Bool) :
      ∀ frame ∈ .block (body? i) scope none :: .block rest scope c :: below, SteadyFrame P frame :=
    List.forall_mem_cons.mpr ⟨⟨hrest.body List.mem_cons_self, hscope⟩, back c⟩
  cases hrest.mem List.mem_cons_self with
  | literal t =>
    obtain rfl := Progress.running.inj h
    exact ⟨back none, hstore⟩
  | expression he source position =>
    obtain ⟨v, -, hwritten⟩ := exists_of_bind (ok_of_proceed h)
    obtain ⟨t, -, rfl⟩ := exists_of_map hwritten
    exact ⟨back none, hstore⟩
  | branch he body source position =>
    obtain ⟨v, -, hnext⟩ := exists_of_map (ok_of_proceed h)
    split at hnext
    · obtain rfl := hnext
      exact ⟨enter (some true), hstore⟩
    · obtain rfl := hnext
      exact ⟨back (some false), hstore⟩
  | elseBranch he body source position =>
    simp only [execute] at h
    split at h
    · obtain rfl := Progress.running.inj h
      exact ⟨back chain, hstore⟩
    · obtain ⟨v, -, hnext⟩ := exists_of_map (ok_of_proceed h)
      split at hnext
      · obtain rfl := hnext
        exact ⟨enter (some true), hstore⟩
      · obtain rfl := hnext
        exact ⟨back chain, hstore⟩
  | otherwise body position =>
    simp only [execute] at h
    split at h
    · obtain rfl := Progress.running.inj h
      exact ⟨back none, hstore⟩
    · obtain rfl := Progress.running.inj h
      exact ⟨enter none, hstore⟩
  | loop target he body mode source position =>
    obtain ⟨v, hv, hloop⟩ := exists_of_bind (ok_of_proceed h)
    obtain ⟨pairs, hpairs, rfl⟩ := exists_of_map hloop
    have hthroughout := Pairs.throughout_of hP.kept
      (hP.throughout_evaluateAt hhost hscope.values he hv) hpairs
    refine ⟨List.forall_mem_cons.mpr ⟨?_, back none⟩, hstore⟩
    exact ⟨hrest.body List.mem_cons_self, hscope, hthroughout⟩

/-- **A step keeps a machine steady.** -/
theorem steady_of_step (hP : Value.Lasting P) (hhost : Host.Keeps P) {machine next : Machine}
    (hsteady : Steady P machine) (h : machine.step = .running next) : Steady P next := by
  obtain ⟨stack, written, store⟩ := machine
  obtain ⟨hframes, hstore⟩ := hsteady
  cases stack with
  | nil => cases h
  | cons frame below =>
    obtain ⟨hframe, hbelow⟩ := List.forall_mem_cons.mp hframes
    cases frame with
    | block rest scope chain =>
      cases rest with
      | nil =>
        obtain rfl := Progress.running.inj h
        exact ⟨hbelow, hstore⟩
      | cons i rest => exact steady_of_execute hP hhost hframe.1 hframe.2 hbelow hstore h
    | loop target body pairs scope =>
      obtain ⟨hbody, hscope, hpairs⟩ := hframe
      simp only [step] at h
      split at h
      · obtain rfl := Progress.running.inj h
        exact ⟨hbelow, hstore⟩
      · rename_i pair more store' hnext
        obtain rfl := Progress.running.inj h
        obtain ⟨hpair, hmore, hstore'⟩ := Pairs.throughout_next hpairs hstore hnext
        refine ⟨List.forall_mem_cons.mpr ⟨⟨hbody, hscope.extend hpair target⟩, ?_⟩, hstore'⟩
        exact List.forall_mem_cons.mpr ⟨⟨hbody, hscope, hmore⟩, hbelow⟩
    | call => exact hframe.elim

/-- Every machine of a run is steady, if the run starts with basic instructions in such a scope. -/
theorem steady_of_reaches (hP : Value.Lasting P) (hhost : Host.Keeps P) {fragment : Fragment}
    {scope : Scope} {machine : Machine}
    (hfragment : Every Instruction.IsBasic fragment) (hscope : SteadyScope P scope)
    (h : Reaches (start fragment scope) machine) : Steady P machine := by
  induction h with
  | refl =>
    exact ⟨List.forall_mem_singleton.mpr ⟨hfragment, hscope⟩, fun _ hnone =>
      absurd hnone List.not_mem_nil⟩
  | tail _ hstep ih => exact steady_of_step hP hhost ih hstep

/-! ## Where a steady machine fails -/

/-- The machine is about to run an instruction in a scope. -/
def IsAt (machine : Machine) (i : Instruction) (scope : Scope) : Prop :=
  ∃ rest chain below, machine.stack = .block (i :: rest) scope chain :: below

/-- The machine is about to evaluate an expression that misreads a position. -/
def MisreadsPosition (machine : Machine) (fault : Numeral.Fault) : Prop :=
  ∃ i scope e, machine.IsAt i scope ∧ i.expression? = some e ∧ Expression.Misreads scope e fault

/-- The machine is about to go through an object that has the attribute of values with items, but
has none. -/
def MeetsImpostor (machine : Machine) (typeName : String) : Prop :=
  ∃ target collection body source position scope v,
    machine.IsAt (.loop target collection body .each source position) scope ∧
    collection.evaluate scope = .ok v ∧ v.exposed.claimsItems = true ∧ v.exposed.typeName = typeName

/-- What a fault below the level of templates comes from. -/
inductive Leaks (machine : Machine) : Raised → Prop
  | misread {fault : Numeral.Fault} (h : machine.MisreadsPosition fault) :
      Leaks machine (.badIndex fault)
  | impostor {typeName : String} (h : machine.MeetsImpostor typeName) :
      Leaks machine (.misused (.notIterable typeName))

/-- The fault of a machine: a fault of the template, too deep a nesting, or a leak. -/
inductive Explains (machine : Machine) : RunFault → Prop
  | render (fault : RenderFault) : Explains machine (.render fault)
  | tooDeep {excess : Host.Excess} : Explains machine (.raised (.tooDeep excess))
  | leak {cause : Raised} (h : machine.Leaks cause) : Explains machine (.raised cause)

/-- An expression that has no value explains the fault. -/
theorem explains_of_evaluateAt {machine : Machine} {i : Instruction} {scope : Scope}
    (hat : machine.IsAt i scope) (hscope : SteadyScope P scope) {e : Expression}
    (he : i.expression? = some e) {position : Option Position} {fault : RunFault}
    (h : scope.evaluateAt e position = .error fault) : machine.Explains fault := by
  obtain ⟨entries, hentries⟩ := hscope.mapping
  rw [Scope.evaluateAt, Expression.evaluate] at h
  cases hv : e.value scope scope.room with
  | ok v => simp [hv, Except.mapError] at h
  | error own =>
    simp only [hv, Except.mapError, Except.error.injEq] at h
    subst h
    cases Expression.lacks_of_value hentries hv with
    | told htold =>
      rw [Expression.ofEvaluation_of_isTold htold]
      exact .render _
    | tooDeep => exact .tooDeep
    | misread hmisread => exact .leak (.misread ⟨i, scope, e, hat, he, hmisread⟩)

/-- A collection that a loop cannot go through explains the fault. -/
theorem explains_of_pairs {machine : Machine} {target : Text} {collection : Expression}
    {body : Fragment} {mode : LoopMode} {source : Text} {position : Option Position} {scope : Scope}
    (hat : machine.IsAt (.loop target collection body mode source position) scope) {v : Value}
    (hv : scope.evaluateAt collection position = .ok v) {fault : RunFault}
    (h : Pairs.of mode collection position v = .error fault) : machine.Explains fault := by
  unfold Pairs.of at h
  split at h
  · split at h
    · cases h
    · obtain rfl := Except.error.inj h
      exact .render _
  · cases h
  · cases h
  · cases h
  · cases h
  · split at h
    · rename_i hclaims
      obtain rfl := Except.error.inj h
      exact .leak (.impostor ⟨target, collection, body, source, position, scope, v, hat,
        Scope.value_of_evaluateAt hv, hclaims, rfl⟩)
    · obtain rfl := Except.error.inj h
      exact .render _

/-- An instruction that fails in a machine of spellable values explains its fault. -/
theorem explains_of_execute (hhost : Host.Keeps Value.Bounded) {i : Instruction}
    {rest : Fragment} {scope : Scope} {chain : Option Bool} {below : List Frame}
    {written : List Text} {store : Store}
    (hbasic : i.IsBasic) (hscope : SteadyScope Value.Bounded scope)
    (hbelow : ∀ frame ∈ below, SteadyFrame Value.Bounded frame) {fault : RunFault}
    (h : execute i rest scope chain below written store = .failed fault) :
    Explains ⟨.block (i :: rest) scope chain :: below, written, store⟩ fault := by
  have hat : IsAt ⟨.block (i :: rest) scope chain :: below, written, store⟩ i scope :=
    ⟨rest, chain, below, rfl⟩
  cases hbasic with
  | literal t => cases h
  | expression he source position =>
    rcases error_of_bind (error_of_proceed hbelow h) with hv | ⟨v, hv, hwritten⟩
    · exact explains_of_evaluateAt hat hscope rfl hv
    · -- what is spellable is written, if it is not nested too deeply
      have hspell := Value.lasting_bounded.throughout_evaluateAt hhost hscope.values he hv
      rcases Value.Spellable.written_eq hspell scope.room with ⟨t, ht⟩ | hdeep
      · rw [ht] at hwritten
        cases hwritten
      · rw [hdeep] at hwritten
        obtain rfl := Except.error.inj hwritten
        exact .tooDeep
  | branch he body source position =>
    exact explains_of_evaluateAt hat hscope rfl (error_of_map (error_of_proceed hbelow h))
  | elseBranch he body source position =>
    simp only [execute] at h
    split at h
    · cases h
    · exact explains_of_evaluateAt hat hscope rfl (error_of_map (error_of_proceed hbelow h))
  | otherwise body position =>
    simp only [execute] at h
    split at h <;> cases h
  | loop target he body mode source position =>
    rcases error_of_bind (error_of_proceed hbelow h) with hv | ⟨v, hv, hpairs⟩
    · exact explains_of_evaluateAt hat hscope rfl hv
    · exact explains_of_pairs hat hv (error_of_map hpairs)

/-- **A machine of spellable values that fails to step** has met a fault of the template, too deep a
nesting, or one of the two leaks. -/
theorem explains_of_step (hhost : Host.Keeps Value.Bounded) {machine : Machine}
    (hsteady : Steady Value.Bounded machine) {fault : RunFault}
    (h : machine.step = .failed fault) : machine.Explains fault := by
  obtain ⟨stack, written, store⟩ := machine
  cases stack with
  | nil => cases h
  | cons frame below =>
    obtain ⟨hframe, hbelow⟩ := List.forall_mem_cons.mp hsteady.frames
    cases frame with
    | call => exact hframe.elim
    | loop target body pairs scope =>
      simp only [step] at h
      split at h <;> cases h
    | block rest scope chain =>
      cases rest with
      | nil => cases h
      | cons i rest =>
        exact explains_of_execute hhost (hframe.1.mem List.mem_cons_self) hframe.2 hbelow h

/-- **In honest data there is no impostor** for a loop to meet. -/
theorem not_meetsImpostor (hhost : Host.Keeps fun v => v.claimsItems = false) {machine : Machine}
    (hsteady : Steady (fun v => v.claimsItems = false) machine) (typeName : String) :
    ¬ machine.MeetsImpostor typeName := by
  rintro ⟨target, collection, body, source, position, scope, v, ⟨rest, chain, below, hstack⟩, hv,
    hclaims, -⟩
  have hframe := hsteady.frames _ (hstack ▸ List.mem_cons_self)
  obtain ⟨hbasic, hscope⟩ := hframe
  cases hbasic.mem List.mem_cons_self with
  | loop _ he =>
    have hhonest := Expression.throughout_value Value.lasting_claimsItems.kept hhost hscope.values
      (Value.lasting_claimsItems.constants he) hv
    rw [(hhonest.exposed Value.lasting_claimsItems.kept).here] at hclaims
    cases hclaims

end Machine

end
end Stencil
