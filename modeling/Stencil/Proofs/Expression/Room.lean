import Stencil.Execution.Iteration
import Stencil.Proofs.Value.Levels

/-! # Expressions evaluated with more room

How many calls may be under way in an expression that is evaluated is told by the room of its scope.
With more room an expression has the same value, or lacks one for the same reason, unless there was
too little room to tell (`Expression.value_mono`, `Scope.evaluateAt_mono`).  So it is for what is
written (`RunFault.written_mono`).  What calls of a template take of the room makes no difference
to a single expression (`Scope.evaluateAt_withFreeCalls`).
-/

namespace Stencil

namespace Expression

/-- There is too little room for an expression. -/
def EvaluationFault.IsShort (fault : EvaluationFault) : Prop := ∃ excess, fault = .tooDeep excess

/-- A name has the same value in scopes with the same names. -/
theorem lookup_congr {scope scope' : Scope} (h : scope.toNames = scope'.toNames) (name : Text) :
    lookup scope name = lookup scope' name := by
  rw [lookup, lookup, h]

end Expression

/-- The fault of a run is want of room. -/
def RunFault.IsShort (fault : RunFault) : Prop := ∃ excess, fault = .raised (.tooDeep excess)

/-- The host, if calls of a template took no room. -/
@[reducible] def Host.withFreeCalls (host : Host) : Host := { host with calling := 0 }

variable [host : Host]

namespace Expression

/-! ## More room -/

/-- **With more room an expression has the same value**, if there was enough for one. -/
theorem value_mono {scope scope' : Scope} (hnames : scope.toNames = scope'.toNames)
    {room room' : Nat} (h : room ≤ room') (e : Expression) :
    AgreesUpTo EvaluationFault.IsShort (value scope room e) (value scope' room' e) := by
  have deep {excess : Host.Excess} : EvaluationFault.IsShort (.tooDeep excess) := ⟨excess, rfl⟩
  -- a comparison leaves two calls less to its sides, so that one call less is not enough
  induction room using Nat.strongRecOn generalizing room' e with
  | ind room ih =>
    cases room with
    | zero => cases e <;> exact .fault deep
    | succ room =>
      obtain ⟨more, rfl⟩ : ∃ more, room' = more + 1 := ⟨room' - 1, by omega⟩
      have hle := Nat.le_of_succ_le_succ h
      have inside (e : Expression) :
          AgreesUpTo EvaluationFault.IsShort (value scope room e) (value scope' more e) :=
        ih room (Nat.lt_succ_self room) hle e
      cases e with
      | literal constant => exact .refl _
      | path head steps =>
        rw [value, value, lookup_congr hnames]
        exact .refl _
      | group inner => exact inside inner
      | negation operand => exact (inside operand).map _
      | both l r =>
        rw [value, value]
        refine (inside l).elim (fun a => ?_) (fun _ => .refl _) fun _ _ hshort => .fault hshort
        dsimp only
        split
        · exact inside r
        · exact .refl _
      | either l r =>
        rw [value, value]
        refine (inside l).elim (fun a => ?_) (fun _ => .refl _) fun _ _ hshort => .fault hshort
        dsimp only
        split
        · exact .refl _
        · exact inside r
      | compare c l r =>
        have hless : room - 1 ≤ more - 1 := Nat.sub_le_sub_right hle 1
        have side (e : Expression) :
            AgreesUpTo EvaluationFault.IsShort (value scope (room - 1) e)
              (value scope' (more - 1) e) :=
          ih (room - 1) (by omega) hless e
        rw [value, value]
        refine (side l).elim (fun a => ?_) (fun _ => .refl _) fun _ _ hshort => .fault hshort
        refine (side r).elim (fun b => ?_) (fun _ => .refl _) fun _ _ hshort => .fault hshort
        dsimp only
        refine (Value.holds_mono (Host.levels_mono hless) c a b).elim (fun _ => .refl _)
          (fun _ => .refl _) fun _ _ hshort => ?_
        subst hshort
        exact .fault deep

/-! ## Free calls -/

theorem follow_withFreeCalls (v : Value) (walked : Text) (steps : List Text) :
    @follow host.withFreeCalls v walked steps = follow v walked steps := by
  induction steps generalizing v walked with
  | nil => rfl
  | cons part rest ih =>
    have hstep : @step host.withFreeCalls v part walked = step v part walked := rfl
    simp only [follow, hstep, ih]

theorem value_withFreeCalls (scope : Scope) (room : Nat) (e : Expression) :
    @value host.withFreeCalls scope room e = value scope room e := by
  induction e generalizing room with
  | literal | path => cases room <;> simp only [value, follow_withFreeCalls]
  | group | negation => cases room <;> simp only [value, *]
  | both | either => cases room <;> simp only [value, *]
  | compare c l r ihl ihr =>
    cases room with
    | zero => simp only [value]
    | succ room =>
      simp only [value, ihl, ihr]
      rfl

end Expression

/-- What calls take makes no difference to an expression on its own. -/
theorem Scope.evaluateAt_withFreeCalls (scope : Scope) (e : Expression)
    (position : Option Position) :
    @Scope.evaluateAt host.withFreeCalls scope e position = scope.evaluateAt e position := by
  simp only [evaluateAt, Expression.evaluate, Expression.value_withFreeCalls]

/-- In a scope of the same names with more room, an expression comes to the same. -/
theorem Scope.evaluateAt_mono {scope scope' : Scope} (hnames : scope.toNames = scope'.toNames)
    (h : scope.room ≤ scope'.room) (e : Expression) (position : Option Position) :
    AgreesUpTo RunFault.IsShort (scope.evaluateAt e position) (scope'.evaluateAt e position) := by
  rw [evaluateAt, evaluateAt, Expression.evaluate, Expression.evaluate]
  refine (Expression.value_mono hnames h e).elim (fun _ => .refl _) (fun _ => .refl _) ?_
  rintro fault - ⟨excess, rfl⟩
  exact .fault ⟨excess, rfl⟩

/-- With more room a value is written as before. -/
theorem RunFault.written_mono {room room' : Nat} (h : room ≤ room') (v : Value) :
    AgreesUpTo RunFault.IsShort (written room v) (written room' v) := by
  rw [written, written]
  refine (v.output?_mono (Host.levels_mono h)).elim (fun _ => .refl _) (fun _ => .refl _) ?_
  rintro fault - rfl
  exact .fault ⟨.written, rfl⟩

end Stencil
