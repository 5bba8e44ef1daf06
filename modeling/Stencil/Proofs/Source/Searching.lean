import Stencil.Source.Segment

/-! # Searching a text from the left

What the searches for openers and closers find, said in terms of where a pattern occurs.  Both scan
from the left and stop at the first hit: `Text.indexOf?` gives the least place at which a text
occurs, and `Family.next?` the least place at which any family opens, with the first family in the
order of preference among those that open there (`IsFirstAt`).

`Family.nearest?` looks for the families one after the other instead, and lets a later one replace an
earlier one only if it opens before it.  What it has found is right for the families that it has gone
through, and stays so with each further one (`Finds.nearer`); so it finds the same
(`nearest?_eq_iff`).
-/

namespace Stencil

/-- A pattern occurs in a text at an offset. -/
def Text.OccursAt (pattern t : Text) (offset : Nat) : Prop := pattern <+: t.drop offset

instance (pattern t : Text) (offset : Nat) : Decidable (Text.OccursAt pattern t offset) :=
  inferInstanceAs (Decidable (pattern <+: t.drop offset))

namespace Text

/-- What occurs beyond some characters occurs in the text after them. -/
theorem occursAt_append {pattern a b : Text} {k : Nat} :
    OccursAt pattern (a ++ b) (a.length + k) ↔ OccursAt pattern b k := by
  rw [OccursAt, OccursAt, List.drop_length_add_append]

theorem occursAt_drop {pattern t : Text} {n k : Nat} :
    OccursAt pattern (t.drop n) k ↔ OccursAt pattern t (n + k) := by
  rw [OccursAt, OccursAt, List.drop_drop]

/-- A pattern with characters occurs only before the end. -/
theorem OccursAt.lt_length {pattern t : Text} {k : Nat} (hp : pattern ≠ [])
    (h : OccursAt pattern t k) : k < t.length := by
  apply Classical.byContradiction
  intro hk
  rw [OccursAt, List.drop_eq_nil_of_le (by omega), List.prefix_nil] at h
  exact hp h

theorem OccursAt.add_length_le {pattern t : Text} {k : Nat} (hp : pattern ≠ [])
    (h : OccursAt pattern t k) : k + pattern.length ≤ t.length := by
  have hlt := h.lt_length hp
  have hle := List.IsPrefix.length_le h
  rw [List.length_drop] at hle
  omega

theorem indexFrom?_eq_some_iff {needle : Text} {n m : Nat} {t : Text} :
    indexFrom? needle n t = some m ↔
      ∃ k, m = n + k ∧ OccursAt needle t k ∧ ∀ j < k, ¬ OccursAt needle t j := by
  induction t generalizing n with
  | nil =>
    rw [indexFrom?]
    constructor
    · intro h
      split at h
      · rename_i he
        refine ⟨0, (Option.some.inj h).symm, ?_, fun j hj => absurd hj (Nat.not_lt_zero j)⟩
        rw [List.isEmpty_iff.mp he]
        exact List.nil_prefix
      · cases h
    · rintro ⟨k, rfl, hk, hmin⟩
      obtain rfl : needle = [] := by simpa [OccursAt] using hk
      obtain rfl : k = 0 := Nat.eq_zero_of_not_pos fun hpos => hmin 0 hpos List.nil_prefix
      rfl
  | cons c rest ih =>
    rw [indexFrom?]
    by_cases h0 : needle.isPrefixOf (c :: rest) = true
    · have hat : OccursAt needle (c :: rest) 0 := List.isPrefixOf_iff_prefix.mp h0
      rw [if_pos h0]
      constructor
      · intro h
        exact ⟨0, (Option.some.inj h).symm, hat, fun j hj => absurd hj (Nat.not_lt_zero j)⟩
      · rintro ⟨k, rfl, -, hmin⟩
        obtain rfl : k = 0 := Nat.eq_zero_of_not_pos fun hpos => hmin 0 hpos hat
        rfl
    · have hat : ¬ OccursAt needle (c :: rest) 0 := fun h => h0 (List.isPrefixOf_iff_prefix.mpr h)
      rw [if_neg h0, ih]
      constructor
      · rintro ⟨k, rfl, hk, hmin⟩
        refine ⟨k + 1, by omega, hk, fun j hj => ?_⟩
        cases j with
        | zero => exact hat
        | succ j => exact hmin j (by omega)
      · rintro ⟨k, rfl, hk, hmin⟩
        cases k with
        | zero => exact absurd hk hat
        | succ k => exact ⟨k, by omega, hk, fun j hj => hmin (j + 1) (by omega)⟩

/-- The search for a text finds its first occurrence. -/
theorem indexOf?_eq_some_iff {needle t : Text} {k : Nat} :
    indexOf? needle t = some k ↔ OccursAt needle t k ∧ ∀ j < k, ¬ OccursAt needle t j := by
  rw [indexOf?, indexFrom?_eq_some_iff]
  constructor
  · rintro ⟨j, rfl, h⟩
    rw [Nat.zero_add]
    exact h
  · intro h
    exact ⟨k, (Nat.zero_add k).symm, h⟩

/-- The search for a text fails only if it occurs nowhere. -/
theorem indexOf?_eq_none_iff {needle t : Text} :
    indexOf? needle t = none ↔ ∀ k, ¬ OccursAt needle t k := by
  constructor
  · intro h k hk
    -- some occurrence is the first one
    have hex : ∃ k, OccursAt needle t k ∧ ∀ j < k, ¬ OccursAt needle t j := by
      induction k using Nat.strongRecOn with
      | ind k ih =>
        by_cases hj : ∃ j, j < k ∧ OccursAt needle t j
        · obtain ⟨j, hlt, hj⟩ := hj
          exact ih j hlt hj
        · exact ⟨k, hk, fun j hlt h => hj ⟨j, hlt, h⟩⟩
    obtain ⟨k, hk⟩ := hex
    rw [indexOf?_eq_some_iff.mpr hk] at h
    cases h
  · intro h
    cases hr : indexOf? needle t with
    | none => rfl
    | some k => exact absurd (indexOf?_eq_some_iff.mp hr).1 (h k)

end Text

namespace Family
open Text

/-- The opener of a family occurs at an offset, and that of no family preferred to it does. -/
def IsFirstAt (families : List Family) (source : Text) (offset : Nat) (family : Family) : Prop :=
  ∃ earlier later, families = earlier ++ family :: later ∧ OccursAt family.opener source offset ∧
    ∀ f ∈ earlier, ¬ OccursAt f.opener source offset

/-- No family opens at an offset. -/
def NoneAt (families : List Family) (source : Text) (offset : Nat) : Prop :=
  ∀ f ∈ families, ¬ OccursAt f.opener source offset

variable {families : List Family}

theorem IsFirstAt.mem {source : Text} {offset : Nat} {family : Family}
    (h : IsFirstAt families source offset family) : family ∈ families := by
  obtain ⟨earlier, later, rfl, -, -⟩ := h
  exact List.mem_append_right earlier List.mem_cons_self

theorem IsFirstAt.occursAt {source : Text} {offset : Nat} {family : Family}
    (h : IsFirstAt families source offset family) : OccursAt family.opener source offset := by
  obtain ⟨-, -, -, h, -⟩ := h
  exact h

theorem IsFirstAt.not_noneAt {source : Text} {offset : Nat} {family : Family}
    (h : IsFirstAt families source offset family) : ¬ NoneAt families source offset :=
  fun hnone => hnone family h.mem h.occursAt

/-- A family that opens at the beginning of a text is found by `opening?`. -/
theorem opening?_eq_some_iff {t : Text} {family : Family} :
    opening? families t = some family ↔ IsFirstAt families t 0 family := by
  rw [opening?, List.find?_eq_some_iff_append]
  constructor
  · rintro ⟨hat, earlier, later, rfl, hearlier⟩
    exact ⟨earlier, later, rfl, List.isPrefixOf_iff_prefix.mp hat, fun f hf h => by
      simpa [List.isPrefixOf_iff_prefix.mpr (show f.opener <+: t from h)] using hearlier f hf⟩
  · rintro ⟨earlier, later, rfl, hat, hearlier⟩
    refine ⟨List.isPrefixOf_iff_prefix.mpr hat, earlier, later, rfl, fun f hf => ?_⟩
    rw [Bool.not_eq_true', ← Bool.not_eq_true]
    exact fun h => hearlier f hf (List.isPrefixOf_iff_prefix.mp h)

theorem opening?_eq_none_iff {t : Text} : opening? families t = none ↔ NoneAt families t 0 := by
  rw [opening?, List.find?_eq_none]
  exact ⟨fun h f hf hat => h f hf (List.isPrefixOf_iff_prefix.mpr hat),
    fun h f hf hat => h f hf (List.isPrefixOf_iff_prefix.mp hat)⟩

/-- At most one family is the first that opens at an offset. -/
theorem IsFirstAt.unique {source : Text} {offset : Nat} {f g : Family}
    (hf : IsFirstAt families source offset f) (hg : IsFirstAt families source offset g) :
    f = g := by
  have h0 : ∀ {e : Family}, IsFirstAt families source offset e →
      IsFirstAt families (source.drop offset) 0 e := by
    rintro e ⟨earlier, later, hsplit, hat, hearlier⟩
    exact ⟨earlier, later, hsplit, hat, hearlier⟩
  have h := (opening?_eq_some_iff.mpr (h0 hf)).symm.trans (opening?_eq_some_iff.mpr (h0 hg))
  exact Option.some.inj h

theorem isFirstAt_append {a b : Text} {k : Nat} {family : Family} :
    IsFirstAt families (a ++ b) (a.length + k) family ↔ IsFirstAt families b k family := by
  simp only [IsFirstAt, occursAt_append]

theorem noneAt_append {a b : Text} {k : Nat} :
    NoneAt families (a ++ b) (a.length + k) ↔ NoneAt families b k := by
  simp only [NoneAt, occursAt_append]

/-- A text has no family that opens at its end. -/
theorem noneAt_nil (families : List Family) (k : Nat) : NoneAt families [] k :=
  fun f _ h => absurd (h.lt_length f.opener_ne_nil) (Nat.not_lt_zero k)

theorem nextFrom?_eq_some {n m : Nat} {t : Text} {family : Family}
    (h : nextFrom? families n t = some (m, family)) :
    ∃ k, m = n + k ∧ IsFirstAt families t k family ∧ ∀ j < k, NoneAt families t j := by
  induction t generalizing n with
  | nil => simp [nextFrom?] at h
  | cons c rest ih =>
    rw [nextFrom?] at h
    cases ho : opening? families (c :: rest) with
    | some f =>
      simp only [ho, Option.some.injEq, Prod.mk.injEq] at h
      obtain ⟨rfl, rfl⟩ := h
      exact ⟨0, rfl, opening?_eq_some_iff.mp ho, fun j hj => absurd hj (Nat.not_lt_zero j)⟩
    | none =>
      simp only [ho] at h
      obtain ⟨k, rfl, hfirst, hmin⟩ := ih h
      refine ⟨k + 1, by omega, hfirst, fun j hj => ?_⟩
      cases j with
      | zero => exact opening?_eq_none_iff.mp ho
      | succ j => exact hmin j (by omega)

theorem nextFrom?_eq_none {n : Nat} {t : Text} (h : nextFrom? families n t = none) (k : Nat) :
    NoneAt families t k := by
  induction t generalizing n k with
  | nil => exact noneAt_nil families k
  | cons c rest ih =>
    rw [nextFrom?] at h
    cases ho : opening? families (c :: rest) with
    | some f => simp [ho] at h
    | none =>
      simp only [ho] at h
      cases k with
      | zero => exact opening?_eq_none_iff.mp ho
      | succ k => exact ih h k

/-- **The search for a tag** finds the least offset at which a family opens, and the family that is
preferred there. -/
theorem next?_eq_some_iff {t : Text} {k : Nat} {family : Family} :
    next? families t = some (k, family) ↔
      IsFirstAt families t k family ∧ ∀ j < k, NoneAt families t j := by
  have forward : ∀ {k : Nat} {family : Family}, next? families t = some (k, family) →
      IsFirstAt families t k family ∧ ∀ j < k, NoneAt families t j := by
    intro k family h
    obtain ⟨j, rfl, hfirst, hmin⟩ := nextFrom?_eq_some h
    rw [Nat.zero_add]
    exact ⟨hfirst, hmin⟩
  refine ⟨forward, fun ⟨hfirst, hmin⟩ => ?_⟩
  cases h : next? families t with
  | none => exact absurd (nextFrom?_eq_none h k) hfirst.not_noneAt
  | some r =>
    obtain ⟨j, f⟩ := r
    obtain ⟨hj, hjmin⟩ := forward h
    have hjk : j = k := by
      rcases Nat.lt_trichotomy j k with hlt | heq | hlt
      · exact absurd (hmin j hlt) hj.not_noneAt
      · exact heq
      · exact absurd (hjmin k hlt) hfirst.not_noneAt
    subst hjk
    rw [hj.unique hfirst]

theorem next?_eq_none_iff {t : Text} :
    next? families t = none ↔ ∀ k, NoneAt families t k := by
  refine ⟨nextFrom?_eq_none, fun h => ?_⟩
  cases hr : next? families t with
  | none => rfl
  | some r => exact absurd (h r.1) (next?_eq_some_iff.mp hr).1.not_noneAt

/-! ## One family after the other -/

/-- What a search from a start finds: nothing if no family opens there or later, or else the first
place at which one does, and the family that is preferred there. -/
def Finds (families : List Family) (t : Text) (start : Nat) : Option (Nat × Family) → Prop
  | none => ∀ k, start ≤ k → NoneAt families t k
  | some (k, family) =>
    start ≤ k ∧ IsFirstAt families t k family ∧ ∀ j, start ≤ j → j < k → NoneAt families t j

theorem noneAt_concat {t : Text} {k : Nat} {family : Family} :
    NoneAt (families ++ [family]) t k ↔
      NoneAt families t k ∧ ¬ OccursAt family.opener t k := by
  simp only [NoneAt, List.forall_mem_append, List.forall_mem_singleton]

/-- A family that comes last is the first at a place where no other one opens. -/
theorem isFirstAt_concat_self {t : Text} {k : Nat} {family : Family} (hnone : NoneAt families t k)
    (hat : OccursAt family.opener t k) : IsFirstAt (families ++ [family]) t k family :=
  ⟨families, [], rfl, hat, hnone⟩

/-- A family that comes last does not take the place of another one. -/
theorem IsFirstAt.concat {t : Text} {k : Nat} {f : Family} (h : IsFirstAt families t k f)
    (family : Family) : IsFirstAt (families ++ [family]) t k f := by
  obtain ⟨earlier, later, rfl, hat, hearlier⟩ := h
  exact ⟨earlier, later ++ [family], by rw [List.append_assoc, List.cons_append], hat, hearlier⟩

variable {t : Text} {start : Nat}

/-- A search finds one thing only. -/
theorem Finds.unique {a b : Option (Nat × Family)} (ha : Finds families t start a)
    (hb : Finds families t start b) : a = b := by
  have hnone : ∀ {k f}, Finds families t start none → ¬ Finds families t start (some (k, f)) :=
    fun hno hsome => hsome.2.1.not_noneAt (hno _ hsome.1)
  cases a with
  | none =>
    cases b with
    | none => rfl
    | some b => exact absurd hb (hnone ha)
  | some a =>
    cases b with
    | none => exact absurd ha (hnone hb)
    | some b =>
      obtain ⟨k, f⟩ := a
      obtain ⟨m, g⟩ := b
      obtain ⟨hk, hf, hkmin⟩ := ha
      obtain ⟨hm, hg, hmmin⟩ := hb
      obtain rfl : k = m := by
        rcases Nat.lt_trichotomy k m with hlt | heq | hlt
        · exact absurd (hmmin k hk hlt) hf.not_noneAt
        · exact heq
        · exact absurd (hkmin m hm hlt) hg.not_noneAt
      rw [hf.unique hg]

/-- **One more family**: what has been found stays, unless the family opens before it. -/
theorem Finds.nearer {best : Option (Nat × Family)} (h : Finds families t start best)
    (family : Family) :
    Finds (families ++ [family]) t start (Family.nearer t start best family) := by
  unfold Family.nearer
  cases hn : indexOf? family.opener (t.drop start) with
  | none =>
    -- the family opens nowhere
    have hnever : ∀ k, start ≤ k → ¬ OccursAt family.opener t k := by
      intro k hk hat
      refine indexOf?_eq_none_iff.mp hn (k - start) (occursAt_drop.mpr ?_)
      rwa [Nat.add_sub_of_le hk]
    cases best with
    | none => exact fun k hk => noneAt_concat.mpr ⟨h k hk, hnever k hk⟩
    | some best =>
      obtain ⟨hk, hfirst, hmin⟩ := h
      exact ⟨hk, hfirst.concat family, fun j hj hlt => noneAt_concat.mpr ⟨hmin j hj hlt, hnever j hj⟩⟩
  | some n =>
    obtain ⟨hat, hmin⟩ := indexOf?_eq_some_iff.mp hn
    have hat : OccursAt family.opener t (start + n) := occursAt_drop.mp hat
    have hearlier : ∀ j, start ≤ j → j < start + n → ¬ OccursAt family.opener t j := by
      intro j hj hlt hoccurs
      refine hmin (j - start) (by omega) (occursAt_drop.mpr ?_)
      rwa [Nat.add_sub_of_le hj]
    have hstart : start ≤ start + n := Nat.le_add_right start n
    cases best with
    | none =>
      exact ⟨hstart, isFirstAt_concat_self (h _ hstart) hat,
        fun j hj hlt => noneAt_concat.mpr ⟨h j hj, hearlier j hj hlt⟩⟩
    | some best =>
      obtain ⟨m, f⟩ := best
      obtain ⟨hm, hfirst, hbest⟩ := h
      by_cases hlt : start + n < m
      · simp only [hlt, if_true]
        exact ⟨hstart, isFirstAt_concat_self (hbest _ hstart hlt) hat, fun j hj hjn =>
          noneAt_concat.mpr ⟨hbest j hj (Nat.lt_trans hjn hlt), hearlier j hj hjn⟩⟩
      · simp only [hlt, if_false]
        exact ⟨hm, hfirst.concat family, fun j hj hjm =>
          noneAt_concat.mpr ⟨hbest j hj hjm, hearlier j hj (by omega)⟩⟩

theorem Finds.foldl_nearer {best : Option (Nat × Family)} (h : Finds families t start best)
    (more : List Family) :
    Finds (families ++ more) t start (more.foldl (Family.nearer t start) best) := by
  induction more generalizing families best with
  | nil => rwa [List.append_nil]
  | cons family rest ih =>
    rw [List.foldl_cons, List.append_cons]
    exact ih (h.nearer family)

/-- **Looking for the families one after the other** finds the first place at which one opens, and
the family that is preferred there. -/
theorem nearest?_eq_iff {result : Option (Nat × Family)} :
    nearest? families t start = result ↔ Finds families t start result := by
  have hnone : Finds [] t start none := fun k _ f hf => absurd hf List.not_mem_nil
  have hnearest : Finds families t start (nearest? families t start) := hnone.foldl_nearer families
  exact ⟨fun h => h ▸ hnearest, hnearest.unique⟩

end Family
end Stencil
