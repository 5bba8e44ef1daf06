import Stencil.Value.Comparison
import Stencil.Value.Written

/-! # Values compared and written with more levels

How deep values may be compared and written is all that the number of levels says.  With more of
them the answer is the same, unless there were too few for an answer (`Value.holds_mono`,
`Value.output?_mono`).
-/

namespace Stencil

/-- A result is another one, or a fault of a kind. -/
def AgreesUpTo {ε α : Type} (short : ε → Prop) (result other : Except ε α) : Prop :=
  result = other ∨ ∃ fault, result = .error fault ∧ short fault

namespace AgreesUpTo

variable {ε α β : Type} {short : ε → Prop} {result other : Except ε α}

theorem refl (result : Except ε α) : AgreesUpTo short result result := Or.inl rfl

theorem fault {own : ε} (h : short own) : AgreesUpTo short (.error own) other :=
  Or.inr ⟨own, rfl, h⟩

theorem imp {wide : ε → Prop} (h : AgreesUpTo short result other)
    (himp : ∀ fault, short fault → wide fault) : AgreesUpTo wide result other :=
  h.imp_right fun ⟨own, hown, hshort⟩ => ⟨own, hown, himp own hshort⟩

/-- What depends on a result and on another one that it agrees with is shown for one value, for one
fault, and for a fault of the kind with whatever the other one is. -/
@[elab_as_elim]
theorem elim {motive : Except ε α → Except ε α → Prop} (h : AgreesUpTo short result other)
    (value : ∀ a, motive (.ok a) (.ok a)) (same : ∀ own, motive (.error own) (.error own))
    (lack : ∀ own other, short own → motive (.error own) other) : motive result other := by
  rcases h with rfl | ⟨own, rfl, hown⟩
  · cases result with
    | error own => exact same own
    | ok a => exact value a
  · exact lack own other hown

theorem map (h : AgreesUpTo short result other) (f : α → β) :
    AgreesUpTo short (result.map f) (other.map f) :=
  h.elim (fun _ => refl _) (fun _ => refl _) fun _ _ hshort => fault hshort

end AgreesUpTo

namespace Value

/-! ## Comparing -/

/-- One way to compare values gives the answers of another one, where it has any. -/
def Refines (coarse fine : Value → Value → Except Incomparable Bool) : Prop :=
  ∀ a b, AgreesUpTo (· = .endless) (coarse a b) (fine a b)

theorem Refines.sameItems {coarse fine : Value → Value → Except Incomparable Bool}
    (h : Refines coarse fine) (as bs : List Value) :
    AgreesUpTo (· = .endless) (sameItems coarse as bs) (sameItems fine as bs) := by
  induction as generalizing bs with
  | nil => cases bs <;> exact .refl _
  | cons a as ih =>
    cases bs with
    | nil => exact .refl _
    | cons b bs =>
      rw [Value.sameItems, Value.sameItems]
      refine (h a b).elim (fun equal => ?_) (fun _ => .refl _) fun _ _ hshort => .fault hshort
      cases equal
      · exact .refl _
      · exact ih bs

theorem Refines.sameEntries {coarse fine : Value → Value → Except Incomparable Bool}
    (h : Refines coarse fine) (es fs : List (Value × Value)) :
    AgreesUpTo (· = .endless) (sameEntries coarse es fs) (sameEntries fine es fs) := by
  induction es with
  | nil => exact .refl _
  | cons e rest ih =>
    rw [Value.sameEntries, Value.sameEntries]
    split
    · exact .refl _
    · rename_i w hw
      refine (h e.2 w).elim (fun equal => ?_) (fun _ => .refl _) fun _ _ hshort => .fault hshort
      cases equal
      · exact .refl _
      · exact ih

theorem same_mono {levels levels' : Nat} (h : levels ≤ levels') :
    Refines (same levels) (same levels') := by
  induction levels generalizing levels' with
  | zero => exact fun a b => .fault rfl
  | succ levels ih =>
    obtain ⟨more, rfl⟩ : ∃ more, levels' = more + 1 := ⟨levels' - 1, by omega⟩
    have hinside := ih (Nat.le_of_succ_le_succ h)
    intro a b
    rw [same, same]
    split
    · exact .refl _
    · split
      -- only lists, tuples and maps are compared further down
      case h_7 | h_8 =>
        split
        · exact hinside.sameItems _ _
        · exact .refl _
      case h_9 =>
        split
        · exact hinside.sameEntries _ _
        · exact .refl _
      all_goals exact .refl _

theorem equal_mono {levels levels' : Nat} (h : levels ≤ levels') :
    Refines (equal levels) (equal levels') := by
  intro a b
  rw [equal, equal]
  split
  · exact .refl _
  · exact same_mono h a b

theorem Refines.orderedItems {c : Comparison}
    {coarse fine coarse' fine' : Value → Value → Except Incomparable Bool}
    (hsame : Refines coarse fine) (hordered : Refines coarse' fine') (as bs : List Value) :
    AgreesUpTo (· = .endless) (orderedItems c coarse coarse' as bs)
      (orderedItems c fine fine' as bs) := by
  induction as generalizing bs with
  | nil => cases bs <;> exact .refl _
  | cons a as ih =>
    cases bs with
    | nil => exact .refl _
    | cons b bs =>
      rw [Value.orderedItems, Value.orderedItems]
      refine (hsame a b).elim (fun equal => ?_) (fun _ => .refl _) fun _ _ hshort => .fault hshort
      cases equal
      · exact hordered a b
      · exact ih bs

theorem ordered_mono (c : Comparison) {levels levels' : Nat} (h : levels ≤ levels') :
    Refines (ordered c levels) (ordered c levels') := by
  induction levels generalizing levels' with
  | zero => exact fun a b => .fault rfl
  | succ levels ih =>
    obtain ⟨more, rfl⟩ : ∃ more, levels' = more + 1 := ⟨levels' - 1, by omega⟩
    have hle : levels ≤ more := Nat.le_of_succ_le_succ h
    intro a b
    rw [ordered, ordered]
    split
    case h_8 | h_9 => exact (same_mono hle).orderedItems (ih hle) _ _
    all_goals exact .refl _

/-- **With more levels a comparison holds as before**, if there were enough for an answer. -/
theorem holds_mono {levels levels' : Nat} (h : levels ≤ levels') (c : Comparison) :
    Refines (holds levels c) (holds levels' c) := by
  intro a b
  cases c with
  | equal => exact equal_mono h a b
  | unequal => exact (equal_mono h a b).map _
  | less | lessOrEqual | greater | greaterOrEqual => exact ordered_mono _ h a b

/-! ## Writing -/

mutual

theorem obstacle?_mono {levels levels' : Nat} (h : levels ≤ levels') : ∀ v : Value,
    v.obstacle? levels = some .tooDeep ∨ v.obstacle? levels = v.obstacle? levels'
  | .list items => by
    rw [obstacle?, obstacle?]
    split
    · exact Or.inl rfl
    · rw [if_neg (by omega)]
      exact firstObstacle?_mono (Nat.sub_le_sub_right h 1) items
  | .tuple items => by
    rw [obstacle?, obstacle?]
    split
    · exact Or.inl rfl
    · rw [if_neg (by omega)]
      exact firstObstacle?_mono (Nat.sub_le_sub_right h 1) items
  | .map entries => by
    rw [obstacle?, obstacle?]
    split
    · exact Or.inl rfl
    · rw [if_neg (by omega)]
      exact entryObstacle?_mono (Nat.sub_le_sub_right h 1) entries
  | .shared _ inside => by
    rw [obstacle?, obstacle?]
    exact obstacle?_mono h inside
  | .null | .bool _ | .int _ | .float _ | .text _ | .points _ | .bytes _ | .date _ | .moment _
  | .stream _ _ | .object _ _ | .again _ => Or.inr rfl

theorem firstObstacle?_mono {levels levels' : Nat} (h : levels ≤ levels') :
    ∀ items : List Value, firstObstacle? levels items = some .tooDeep ∨
      firstObstacle? levels items = firstObstacle? levels' items
  | [] => Or.inr rfl
  | v :: rest => by
    rw [firstObstacle?, firstObstacle?]
    rcases obstacle?_mono h v with hdeep | heq
    · exact Or.inl (by rw [hdeep, Option.some_or])
    · rw [heq]
      cases v.obstacle? levels' with
      | some obstacle => exact Or.inr rfl
      | none => simpa using firstObstacle?_mono h rest

theorem entryObstacle?_mono {levels levels' : Nat} (h : levels ≤ levels') :
    ∀ entries : List (Value × Value), entryObstacle? levels entries = some .tooDeep ∨
      entryObstacle? levels entries = entryObstacle? levels' entries
  | [] => Or.inr rfl
  | (k, v) :: rest => by
    rw [entryObstacle?, entryObstacle?]
    rcases obstacle?_mono h k with hdeep | hk
    · exact Or.inl (by rw [hdeep, Option.some_or, Option.some_or])
    · rw [hk]
      cases k.obstacle? levels' with
      | some obstacle => exact Or.inr rfl
      | none =>
        rw [Option.none_or, Option.none_or]
        rcases obstacle?_mono h v with hdeep | hv
        · exact Or.inl (by rw [hdeep, Option.some_or])
        · rw [hv]
          cases v.obstacle? levels' with
          | some obstacle => exact Or.inr rfl
          | none => simpa using entryObstacle?_mono h rest

end

/-- **With more levels a value is written as before**, if it was written or has too long an
integer. -/
theorem output?_mono {levels levels' : Nat} (h : levels ≤ levels') (v : Value) :
    AgreesUpTo (· = .tooDeep) (v.output? levels) (v.output? levels') := by
  rw [output?, output?]
  rcases obstacle?_mono h v with hdeep | heq
  · rw [hdeep]
    exact .fault rfl
  · rw [heq]
    exact .refl _

end Value
end Stencil
