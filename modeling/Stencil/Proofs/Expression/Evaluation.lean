import Stencil.Execution.RunFault

/-! # Where expressions have no value

In a scope whose data are a mapping, an expression that has no value has none for one of three
reasons (`Expression.lacks_of_value`).  A name, an item or an order is missing; this is told at the
place of the expression (`EvaluationFault.isTold`).  Or it goes too deep.  Or a path misreads a
position (`Expression.Misreads`): it has come to a value with positions, and its next step consists
of characters that pass for digits but are no numeral.  Only the last of them knows nothing of the
template.
-/

namespace Stencil

theorem Value.exposed_of_entries? {v : Value} {entries : List (Value × Value)}
    (h : v.entries? = some entries) : v.exposed = .map entries := by
  rw [entries?] at h
  split at h
  · rename_i heq
    rw [heq, Option.some.inj h]
  · cases h

namespace Expression

/-- The paths in an expression. -/
def paths : Expression → List (Text × List Text)
  | .literal _ => []
  | .path head steps => [(head, steps)]
  | .compare _ l r => l.paths ++ r.paths
  | .both l r => l.paths ++ r.paths
  | .either l r => l.paths ++ r.paths
  | .negation e => e.paths
  | .group e => e.paths

/-- Whether a fault is told at the place of the expression. -/
def EvaluationFault.isTold : EvaluationFault → Bool
  | .badIndex _ | .misused _ | .tooDeep _ => false
  | _ => true

theorem ofEvaluation_of_isTold {fault : EvaluationFault} (h : fault.isTold = true)
    (position : Option Position) :
    RunFault.ofEvaluation position fault = .render (.expression fault position) := by
  cases fault with
  | badIndex | misused | tooDeep => cases h
  | _ => rfl

/-- A value has positions, but a part of a path that passes for digits is no numeral. -/
structure IsMisread (v : Value) (part : Text) (fault : Numeral.Fault) : Prop where
  hasPositions : v.exposed.sequence?.isSome = true
  digits : part ≠ [] ∧ part.all Text.isDigitLike = true
  noNumeral : Numeral.read part = .error fault

variable [Host]

/-- A path of an expression comes to a value of which it misreads a position. -/
def Misreads (scope : Scope) (e : Expression) (fault : Numeral.Fault) : Prop :=
  ∃ head front part back found v, (head, front ++ part :: back) ∈ e.paths ∧
    lookup scope head = .ok found ∧ follow found head front = .ok v ∧ IsMisread v part fault

theorem Misreads.mono {scope : Scope} {e e' : Expression} {fault : Numeral.Fault}
    (h : Misreads scope e fault) (hpaths : ∀ path ∈ e.paths, path ∈ e'.paths) :
    Misreads scope e' fault := by
  obtain ⟨head, front, part, back, found, v, hpath, hrest⟩ := h
  exact ⟨head, front, part, back, found, v, hpaths _ hpath, hrest⟩

omit [Host] in
/-- Data that are a mapping have a value for a name, or the name is undefined. -/
theorem fault_of_lookup {scope : Scope} {entries : List (Value × Value)}
    (hdata : scope.data.entries? = some entries) {name : Text} {fault : EvaluationFault}
    (h : lookup scope name = .error fault) : fault.isTold = true := by
  rw [lookup] at h
  split at h
  · cases h
  · simp only [nameIn, Value.exposed_of_entries? hdata] at h
    split at h
    · cases h
    · obtain rfl := Except.error.inj h
      rfl

/-- A step that leads nowhere is told, or is a misread position. -/
theorem fault_of_step {v : Value} {part walked : Text} {fault : EvaluationFault}
    (h : step v part walked = .error fault) :
    fault.isTold = true ∨ ∃ f, fault = .badIndex f ∧ IsMisread v part f := by
  have hmissing {walked part : Text} (h : EvaluationFault.noItem walked part = fault) :
      fault.isTold = true := by
    obtain rfl := h
    rfl
  rw [step] at h
  split at h
  · split at h
    · cases h
    · exact Or.inl (hmissing (Except.error.inj h))
  · split at h
    · cases h
    · exact Or.inl (hmissing (Except.error.inj h))
  · split at h
    · cases h
    · exact Or.inl (hmissing (Except.error.inj h))
  · split at h
    · cases h
    · exact Or.inl (hmissing (Except.error.inj h))
  · -- a value with positions, or one that has what the host gives it
    split at h
    · split at h
      · cases h
      · exact Or.inl (hmissing (Except.error.inj h))
    · rename_i items hitems
      split at h
      · exact Or.inl (hmissing (Except.error.inj h))
      · rename_i hdigits
        rw [Bool.or_eq_true, not_or, Bool.not_eq_true, Bool.not_eq_true, List.isEmpty_eq_false_iff,
          Bool.not_eq_false'] at hdigits
        split at h
        · rename_i f hread
          refine Or.inr ⟨f, (Except.error.inj h).symm, ⟨?_, hdigits, hread⟩⟩
          rw [hitems]
          rfl
        · split at h
          · cases h
          · obtain rfl := Except.error.inj h
            exact Or.inl rfl

/-- Steps that lead nowhere lead to a value up to one of them. -/
theorem exists_step_of_follow {steps : List Text} {v : Value} {walked : Text}
    {fault : EvaluationFault} (h : follow v walked steps = .error fault) :
    ∃ front part back u reached, steps = front ++ part :: back ∧ follow v walked front = .ok u ∧
      step u part reached = .error fault := by
  induction steps generalizing v walked with
  | nil => cases h
  | cons part rest ih =>
    rw [follow] at h
    cases hstep : step v part walked with
    | error own =>
      rw [hstep] at h
      obtain rfl := Except.error.inj h
      exact ⟨[], part, rest, v, walked, rfl, rfl, hstep⟩
    | ok next =>
      simp only [hstep] at h
      obtain ⟨front, last, back, u, reached, rfl, hfront, hlast⟩ := ih h
      refine ⟨part :: front, last, back, u, reached, rfl, ?_, hlast⟩
      rw [follow, hstep]
      exact hfront

/-- Why an expression has no value: this is told, or it goes too deep, or it misreads a position. -/
inductive Lacks (scope : Scope) (e : Expression) : EvaluationFault → Prop
  | told {fault : EvaluationFault} (h : fault.isTold = true) : Lacks scope e fault
  | tooDeep {excess : Host.Excess} : Lacks scope e (.tooDeep excess)
  | misread {fault : Numeral.Fault} (h : Misreads scope e fault) : Lacks scope e (.badIndex fault)

/-- The reason in an operand is the reason in the whole. -/
theorem Lacks.mono {scope : Scope} {e e' : Expression} {fault : EvaluationFault}
    (h : Lacks scope e fault) (hpaths : ∀ path ∈ e.paths, path ∈ e'.paths) :
    Lacks scope e' fault := by
  cases h with
  | told h => exact .told h
  | tooDeep => exact .tooDeep
  | misread h => exact .misread (h.mono hpaths)

/-- A path without a value lacks its first name, or one of its steps leads nowhere. -/
theorem lacks_of_path {scope : Scope} {entries : List (Value × Value)}
    (hdata : scope.data.entries? = some entries) {room : Nat} {head : Text} {steps : List Text}
    {fault : EvaluationFault} (h : value scope (room + 1) (.path head steps) = .error fault) :
    Lacks scope (.path head steps) fault := by
  rw [value] at h
  cases hlookup : lookup scope head with
  | error own =>
    rw [hlookup] at h
    obtain rfl := Except.error.inj h
    exact .told (fault_of_lookup hdata hlookup)
  | ok found =>
    simp only [hlookup] at h
    obtain ⟨front, part, back, u, reached, rfl, hfront, hstep⟩ := exists_step_of_follow h
    rcases fault_of_step hstep with htold | ⟨f, rfl, hmisread⟩
    · exact .told htold
    · exact .misread
        ⟨head, front, part, back, found, u, List.mem_cons_self, hlookup, hfront, hmisread⟩

/-- **An expression without a value**, in a scope whose data are a mapping, lacks it for one of the
three reasons. -/
theorem lacks_of_value {scope : Scope} {entries : List (Value × Value)}
    (hdata : scope.data.entries? = some entries) {room : Nat} {e : Expression}
    {fault : EvaluationFault} (h : value scope room e = .error fault) : Lacks scope e fault := by
  have left {l r : Expression} : ∀ path ∈ l.paths, path ∈ l.paths ++ r.paths :=
    fun _ => List.mem_append_left _
  have right {l r : Expression} : ∀ path ∈ r.paths, path ∈ l.paths ++ r.paths :=
    fun _ => List.mem_append_right _
  fun_induction value scope room e generalizing fault with
  | case1 =>
    obtain rfl := Except.error.inj h
    exact .tooDeep
  | case2 => cases h
  | case3 room head steps found hlookup =>
    have hvalue : value scope (room + 1) (.path head steps) = .error fault := by
      rw [value, hlookup]
      exact h
    exact lacks_of_path hdata hvalue
  | case4 room head steps own hlookup =>
    have hvalue : value scope (room + 1) (.path head steps) = .error fault := by
      rw [value, hlookup]
      exact h
    exact lacks_of_path hdata hvalue
  | case5 room inner ih => exact (ih h).mono fun _ => id
  | case6 room operand ih =>
    cases ho : value scope room operand with
    | error own =>
      rw [ho] at h
      obtain rfl := Except.error.inj h
      exact (ih ho).mono fun _ => id
    | ok found =>
      rw [ho] at h
      cases h
  | case7 room l r found hl htruthy ihl ihr => exact (ihr h).mono right
  | case8 => cases h
  | case9 room l r own hl ihl =>
    obtain rfl := Except.error.inj h
    exact (ihl hl).mono left
  | case10 => cases h
  | case11 room l r found hl htruthy ihl ihr => exact (ihr h).mono right
  | case12 room l r own hl ihl =>
    obtain rfl := Except.error.inj h
    exact (ihl hl).mono left
  | case13 room comparison l r own hl ihl =>
    obtain rfl := Except.error.inj h
    exact (ihl hl).mono left
  | case14 room comparison l r a hl own hr ihl ihr =>
    obtain rfl := Except.error.inj h
    exact (ihr hr).mono right
  | case15 => cases h
  | case16 =>
    obtain rfl := Except.error.inj h
    exact .told rfl
  | case17 =>
    obtain rfl := Except.error.inj h
    exact .tooDeep

end Expression
end Stencil
