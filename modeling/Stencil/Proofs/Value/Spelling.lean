import Stencil.Proofs.Number.Numerals
import Stencil.Proofs.Expression.Writing
import Stencil.Proofs.Value.Parts

/-! # Values that can be written

A value is not written if an integer in it has too many digits.  The integers that a template writes
are in the data, or are constants of its expressions, or are made by the run.  Constants have been
read, and what has been read can be written; and the index of an item can be written unless the
collection has more items than an integer of so many digits can count.  So data are called spellable
(`Value.Spellable`) if they hold neither an integer nor a collection beyond the bound on digits.
This lasts (`Value.lasting_bounded`), and nothing but too deep a nesting keeps what is spellable from
being written (`Value.Spellable.obstacle?_ne_tooLong`).
-/

namespace Stencil

namespace Numeral

theorem isWritable_of_natAbs_lt {n : Int} (h : n.natAbs < Nat.pow 10 longest) :
    isWritable n = true :=
  decide_eq_true h

theorem million_le_pow : 1000000 ≤ Nat.pow 10 longest := by
  have hbound (digits : Nat) (hdigits : 6 ≤ digits) : 1000000 ≤ Nat.pow 10 digits :=
    Nat.pow_le_pow_right (n := 10) (by decide) hdigits
  exact hbound longest (by decide)

/-- Integers below a million have far fewer digits than may be written. -/
theorem isWritable_of_lt {n : Int} (hn : 0 ≤ n) (h : n < 1000000) : isWritable n = true :=
  isWritable_of_natAbs_lt (Nat.lt_of_lt_of_le (by omega) million_le_pow)

end Numeral

namespace Value

/-- A value that is no integer of too many digits, and has no more items than an integer that can be
written counts. -/
structure Bounded (v : Value) : Prop where
  digits : ∀ n, v = .int n → Numeral.isWritable n = true
  items : v.extent ≤ Nat.pow 10 Numeral.longest

/-- Data in which no integer has too many digits, and no collection too many items. -/
def Spellable (v : Value) : Prop := v.Throughout Bounded

theorem extent_filled {v : Value} (h : ∀ n, v ≠ .again n) (id : Nat) (whole : Value) :
    (filled id whole v).extent = v.extent := by
  cases v with
  | again n => exact absurd rfl (h n)
  | list items => rw [filled, filledAll_eq_map, extent, List.length_map, extent]
  | tuple items => rw [filled, filledAll_eq_map, extent, List.length_map, extent]
  | shared n inside =>
    rw [filled]
    split <;> rfl
  | _ => rfl

theorem eq_int_of_filled {v : Value} (h : ∀ n, v ≠ .again n) {id : Nat} {whole : Value} {n : Int}
    (hn : filled id whole v = .int n) : v = .int n := by
  cases v with
  | again n => exact absurd rfl (h n)
  | shared n inside =>
    rw [filled] at hn
    split at hn <;> cases hn
  | list | tuple | map =>
    rw [filled] at hn
    cases hn
  | _ => exact hn

/-- Values keep their bounds. -/
theorem kept_bounded : Kept Bounded where
  filled h hv id whole :=
    ⟨fun n hn => h.digits n (eq_int_of_filled hv hn), by rw [extent_filled hv]; exact h.items⟩
  modest {v} h := by
    refine ⟨?_, ?_⟩
    · rintro n rfl
      rw [isModest, Bool.and_eq_true, decide_eq_true_eq, decide_eq_true_eq] at h
      exact Numeral.isWritable_of_lt h.1 h.2
    · have hextent : v.extent = 0 := by
        unfold isModest at h
        split at h
        all_goals first | rfl | cases h
      rw [hextent]
      exact Nat.zero_le _
  index h hn := by
    refine ⟨fun m hm => ?_, Nat.zero_le _⟩
    obtain rfl := Value.int.inj hm
    exact Numeral.isWritable_of_natAbs_lt (Nat.lt_of_lt_of_le hn h.items)

theorem exists_of_firstObstacle? {levels : Nat} {items : List Value} {obstacle : Obstacle}
    (h : firstObstacle? levels items = some obstacle) :
    ∃ v ∈ items, v.obstacle? levels = some obstacle := by
  induction items with
  | nil => cases h
  | cons v rest ih =>
    rw [firstObstacle?] at h
    rcases Option.or_eq_some_iff.mp h with hv | ⟨-, hrest⟩
    · exact ⟨v, List.mem_cons_self, hv⟩
    · obtain ⟨u, hu, hobstacle⟩ := ih hrest
      exact ⟨u, List.mem_cons_of_mem v hu, hobstacle⟩

theorem exists_of_entryObstacle? {levels : Nat} {entries : List (Value × Value)}
    {obstacle : Obstacle} (h : entryObstacle? levels entries = some obstacle) :
    ∃ e ∈ entries, e.1.obstacle? levels = some obstacle ∨ e.2.obstacle? levels = some obstacle := by
  induction entries with
  | nil => cases h
  | cons e rest ih =>
    rw [entryObstacle?] at h
    rcases Option.or_eq_some_iff.mp h with he | ⟨-, hrest⟩
    · refine ⟨e, List.mem_cons_self, ?_⟩
      rcases Option.or_eq_some_iff.mp he with hkey | ⟨-, hvalue⟩
      · exact Or.inl hkey
      · exact Or.inr hvalue
    · obtain ⟨d, hd, hobstacle⟩ := ih hrest
      exact ⟨d, List.mem_cons_of_mem e hd, hobstacle⟩

/-- **No integer keeps a spellable value from being written.** -/
theorem Spellable.obstacle?_ne_tooLong {v : Value} (h : v.Spellable) (levels : Nat) :
    v.obstacle? levels ≠ some .tooLong := by
  induction h generalizing levels with
  | @intro v here inside ih =>
    intro hlong
    cases v with
    | int n => simp [obstacle?, here.digits n rfl] at hlong
    | list items | tuple items =>
      rw [obstacle?] at hlong
      split at hlong
      · cases hlong
      · obtain ⟨u, hu, hobstacle⟩ := exists_of_firstObstacle? hlong
        exact ih u hu _ hobstacle
    | map entries =>
      obtain ⟨hkeys, hvalues⟩ := List.forall_mem_append.mp ih
      rw [obstacle?] at hlong
      split at hlong
      · cases hlong
      · obtain ⟨e, he, hkey | hvalue⟩ := exists_of_entryObstacle? hlong
        · exact hkeys e.1 (List.mem_map_of_mem he) _ hkey
        · exact hvalues e.2 (List.mem_map_of_mem he) _ hvalue
    | shared id inner =>
      rw [obstacle?] at hlong
      exact ih inner List.mem_cons_self _ hlong
    | _ => cases hlong

end Value

section

variable [Host]

namespace Expression

/-- An expression that has been read from some text. -/
def IsRead (e : Expression) : Prop := ∃ room t, read room t = .ok e

/-- A leaf is a path or a constant, of which an integer can be written. -/
theorem bounded_of_leaf {token : Token} {e : Expression} (h : leaf? token = some e) :
    ∀ constant ∈ e.literals, constant.value.Bounded := by
  -- all constants but integers are within the bounds
  have hother {constant : Literal} (hn : ∀ n, constant ≠ .int n) : constant.value.Bounded := by
    cases constant with
    | int n => exact absurd rfl (hn n)
    | _ => exact ⟨nofun, Nat.zero_le _⟩
  rw [leaf?] at h
  split at h
  · rw [readText] at h
    cases hunquote : Text.unquote Host.character? token.text with
    | error fault => simp [hunquote, Except.toOption] at h
    | ok codes =>
      obtain rfl : .literal (Literal.ofPoints codes) = e := by
        simpa [hunquote, Except.toOption] using h
      refine List.forall_mem_singleton.mpr (hother fun n hn => ?_)
      rw [Literal.ofPoints] at hn
      split at hn <;> cases hn
  · rw [readNumber] at h
    split at h
    · obtain rfl := Option.some.inj h
      exact List.forall_mem_singleton.mpr (hother nofun)
    · cases hread : Numeral.read token.text with
      | error fault => simp [hread, Except.toOption] at h
      | ok n =>
        obtain rfl : .literal (.int n) = e := by simpa [hread, Except.toOption] using h
        have hwritable := Numeral.isWritable_of_read hread
        exact List.forall_mem_singleton.mpr
          ⟨fun m hm => Value.int.inj hm ▸ hwritable, Nat.zero_le _⟩
  · obtain rfl := Option.some.inj h
    rw [readPath]
    split <;> exact fun _ hnone => absurd hnone List.not_mem_nil
  · obtain ⟨constant, hconstant, rfl⟩ := Option.map_eq_some_iff.mp h
    refine List.forall_mem_singleton.mpr (hother fun n hn => ?_)
    subst hn
    rw [constant?] at hconstant
    split at hconstant
    · cases hconstant
    · split at hconstant
      · cases hconstant
      · split at hconstant <;> cases hconstant
  · cases h

/-- The constants of a phrase are those of its leaves. -/
theorem Phrase.bounded {rank : Rank} (p : Phrase rank) :
    ∀ constant ∈ p.expression.literals, constant.value.Bounded := by
  induction p with
  | leaf token e h => exact bounded_of_leaf h
  | group _ inner _ ih => exact ih
  | alone p ih | plain p ih | not _ p ih | single p ih | one p ih => exact ih
  | compare l c _ r ihl ihr | and l _ r ihl ihr | or l _ r ihl ihr =>
    exact List.forall_mem_append.mpr ⟨ihl, ihr⟩

/-- **The constants of an expression that has been read can be written.** -/
theorem IsRead.bounded {e : Expression} (h : e.IsRead) :
    ∀ constant ∈ e.literals, constant.value.Bounded := by
  obtain ⟨room, t, hread⟩ := h
  obtain ⟨p, last, -, rfl, -⟩ := exists_phrase_of_read hread
  exact p.bounded

end Expression

/-- A property that values keep in a run, and that the constants of expressions have if these have
been read. -/
structure Value.Lasting (P : Value → Prop) : Prop where
  kept : Value.Kept P
  constants : ∀ {e : Expression}, e.IsRead → ∀ constant ∈ e.literals, P constant.value

/-- What lasts throughout a scope lasts throughout the value of an expression. -/
theorem Value.Lasting.throughout_evaluateAt {P : Value → Prop} (hP : Value.Lasting P)
    (hhost : Host.Keeps P) {scope : Scope} (h : scope.Throughout P) {e : Expression} (he : e.IsRead)
    {position : Option Position} {v : Value} (hv : scope.evaluateAt e position = .ok v) :
    v.Throughout P :=
  Expression.throughout_value hP.kept hhost h (hP.constants he) (Scope.value_of_evaluateAt hv)

/-- **The bounds last**: in a scope of spellable values all values can be written. -/
theorem Value.lasting_bounded : Value.Lasting Value.Bounded :=
  ⟨Value.kept_bounded, Expression.IsRead.bounded⟩

/-- A spellable value is written, if it is not nested too deeply. -/
theorem Value.Spellable.written_eq {v : Value} (h : v.Spellable) (room : Nat) :
    (∃ t, RunFault.written room v = .ok t) ∨
      RunFault.written room v = .error (.raised (.tooDeep .written)) := by
  rw [RunFault.written, Value.output?]
  cases hobstacle : v.obstacle? (Host.levels room) with
  | none => exact Or.inl ⟨_, rfl⟩
  | some obstacle =>
    cases obstacle with
    | tooLong => exact absurd hobstacle (h.obstacle?_ne_tooLong _)
    | tooDeep => exact Or.inr rfl

end
end Stencil
