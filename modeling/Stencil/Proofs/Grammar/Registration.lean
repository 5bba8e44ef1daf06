import Mathlib.Data.List.Pairwise
import Stencil.Grammar.Registry

/-! # Registries that have been made

A registry comes about by registering families and handlers, one after the other, and perhaps by
being frozen at the end (`Registry.Reached`).  However that was done, its families stand under
different keys (`Registry.Reached.keyed`): a family that is registered again takes the place of the
earlier one.

The fields of a family may be any values as far as the library is concerned, but they are declared
to be texts (`Family.Typed`); if the registered ones are (`Registry.Made`), then all families of the
registry are.  Both hold of the families in any order (`Family.WellFormed`), so of those in the
order in which they are preferred (`Registry.Made.wellFormed`).
-/

namespace Stencil

namespace Value

/-- A key is the same key as itself. -/
theorem sameKey_self {v : Value} (h : v.isKey = true) : sameKey v v = true := by
  rw [sameKey, h, Bool.true_and, beq_self_eq_true]

/-- Whether two keys are the same does not depend on their order. -/
theorem sameKey_symm {v w : Value} (h : sameKey v w = true) : sameKey w v = true := by
  rw [sameKey, Bool.and_eq_true, beq_iff_eq] at h ⊢
  obtain ⟨hkey, heq⟩ := h
  have hkey' : w.isKey = true := by
    rw [isKey, ← heq]
    exact hkey
  exact ⟨hkey', heq.symm⟩

theorem sameKey_trans {u v w : Value} (huv : sameKey u v = true) (hvw : sameKey v w = true) :
    sameKey u w = true := by
  rw [sameKey, Bool.and_eq_true, beq_iff_eq] at huv hvw ⊢
  exact ⟨huv.1, huv.2.trans hvw.2⟩

/-- A value that is a text, with or without a surrogate in it. -/
inductive IsText : Value → Prop
  | text (t : Text) : IsText (.text t)
  | points (codes : List Nat) : IsText (.points codes)

/-- A text is a key. -/
theorem IsText.isKey {v : Value} (h : v.IsText) : v.isKey = true := by
  cases h <;> rfl

/-- Two texts are the same key only if they are the same. -/
theorem IsText.eq_of_sameKey {v w : Value} (hv : v.IsText) (hw : w.IsText)
    (h : sameKey v w = true) : v = w := by
  rw [sameKey, Bool.and_eq_true, beq_iff_eq] at h
  obtain ⟨-, hkey⟩ := h
  cases hv <;> cases hw <;> simp_all [key?]

end Value

namespace Family

/-- A family of which every field is what it is declared to be: its key and its names are texts, and
so are the argument patterns that there are. -/
structure Typed (family : Family) : Prop where
  key : family.key.IsText
  pattern : family.arguments = .null ∨ family.arguments.IsText
  names : ∀ spec ∈ family.tags, spec.name.IsText
  patterns : ∀ spec ∈ family.tags, spec.arguments = .null ∨ spec.arguments.IsText

/-- Typed families under different keys. -/
structure WellFormed (families : List Family) : Prop where
  typed : ∀ family ∈ families, family.Typed
  distinct : families.Pairwise fun f g => f.key ≠ g.key

/-- Two families under different keys. -/
def Apart (f g : Family) : Prop := Value.sameKey f.key g.key = false

instance : Std.Symm Apart where
  symm f g hapart := by
    rw [Apart, ← Bool.not_eq_true] at hapart ⊢
    exact fun hsame => hapart (Value.sameKey_symm hsame)

/-- A family under the same key is apart from the same families. -/
theorem Apart.of_sameKey {f g h : Family} (hapart : Apart g h)
    (hsame : Value.sameKey f.key g.key = true) : Apart f h := by
  rw [Apart, ← Bool.not_eq_true]
  intro hother
  have hboth := Value.sameKey_trans (Value.sameKey_symm hsame) hother
  rw [hapart] at hboth
  cases hboth

/-- Families under keys of which no two are the same. -/
structure Keyed (families : List Family) : Prop where
  keys : ∀ family ∈ families, family.key.isKey = true
  distinct : families.Pairwise Apart

/-- The order of the families does not matter. -/
theorem Keyed.perm {families families' : List Family} (h : Keyed families)
    (hperm : families.Perm families') : Keyed families' where
  keys := fun family hfamily => h.keys family (hperm.mem_iff.mpr hfamily)
  distinct := hperm.pairwise h.distinct fun hapart => Std.Symm.symm _ _ hapart

/-- There is one family only under a key. -/
theorem Keyed.eq_of_sameKey {families : List Family} (h : Keyed families) {f g : Family}
    (hf : f ∈ families) (hg : g ∈ families) (hsame : Value.sameKey f.key g.key = true) : f = g := by
  by_contra hne
  have hapart := h.distinct.forall hf hg hne
  rw [Apart, hsame] at hapart
  cases hapart

/-- Typed families are well formed if no two of their keys are the same. -/
theorem Keyed.wellFormed {families : List Family} (h : Keyed families)
    (typed : ∀ family ∈ families, family.Typed) : WellFormed families where
  typed := typed
  distinct := h.distinct.imp_of_mem fun {f g} hf _ hapart heq => by
    have hself := Value.sameKey_self (h.keys f hf)
    rw [Apart, ← heq, hself] at hapart
    cases hapart

/-- Typed families under different keys have no two keys that are the same. -/
theorem WellFormed.keyed {families : List Family} (h : WellFormed families) : Keyed families where
  keys := fun family hfamily => (h.typed family hfamily).key.isKey
  distinct := h.distinct.imp_of_mem fun {f g} hf hg hne => by
    rw [Apart, ← Bool.not_eq_true]
    exact fun hsame => hne ((h.typed f hf).key.eq_of_sameKey (h.typed g hg).key hsame)

/-- The family with the key of a family is that family. -/
theorem Keyed.withKey? {families : List Family} (h : Keyed families) {family : Family}
    (hmem : family ∈ families) : Family.withKey? families family.key = some family := by
  have hself := Value.sameKey_self (h.keys family hmem)
  cases hfound : Family.withKey? families family.key with
  | none => exact absurd hself (List.find?_eq_none.mp hfound family hmem)
  | some found =>
    have hsame := List.find?_some hfound
    rw [h.eq_of_sameKey hmem (List.mem_of_find?_eq_some hfound) hsame]

end Family

namespace Registry
open Family

/-- What storing a family leaves under a key is the family or was there. -/
theorem mem_putFamily {family f : Family} {families : List Family}
    (h : f ∈ putFamily family families) : f = family ∨ f ∈ families := by
  induction families with
  | nil => exact Or.inl (List.mem_singleton.mp h)
  | cons first rest ih =>
    rw [putFamily] at h
    split at h
    · rcases List.mem_cons.mp h with rfl | h
      · exact Or.inl rfl
      · exact Or.inr (List.mem_cons_of_mem first h)
    · rcases List.mem_cons.mp h with rfl | h
      · exact Or.inr List.mem_cons_self
      · rcases ih h with rfl | h
        · exact Or.inl rfl
        · exact Or.inr (List.mem_cons_of_mem first h)

/-- Storing a family keeps the keys different. -/
theorem keyed_putFamily {family : Family} (hkey : family.key.isKey = true)
    {families : List Family} (h : Keyed families) : Keyed (putFamily family families) := by
  obtain ⟨keys, distinct⟩ := h
  refine ⟨fun f hf => ?_, ?_⟩
  · rcases mem_putFamily hf with rfl | hf
    · exact hkey
    · exact keys f hf
  · induction families with
    | nil => exact List.pairwise_singleton _ _
    | cons first rest ih =>
      have hkeys : ∀ f ∈ rest, f.key.isKey = true := fun f hf =>
        keys f (List.mem_cons_of_mem first hf)
      obtain ⟨hfirst, hrest⟩ := List.pairwise_cons.mp distinct
      rw [putFamily]
      split
      · rename_i hsame
        -- the family takes the place of the one with its key
        exact List.pairwise_cons.mpr ⟨fun f hf => (hfirst f hf).of_sameKey hsame, hrest⟩
      · rename_i hsame
        refine List.pairwise_cons.mpr ⟨fun f hf => ?_, ih hkeys hrest⟩
        rcases mem_putFamily hf with rfl | hf
        · rw [Apart, ← Bool.not_eq_true]
          exact fun hother => hsame (Value.sameKey_symm hother)
        · exact hfirst f hf

/-- Looking up a handler leaves the families as they are. -/
theorem families_bind {registry bound : Registry} {slot : Slot} {name : Value}
    (h : registry.bind slot name = .ok bound) : bound.families = registry.families := by
  unfold bind at h
  split at h
  · rw [← Except.ok.inj h]
  · split at h
    · cases h
    · split at h
      · split at h <;> rw [← Except.ok.inj h]
      · rw [← Except.ok.inj h]

theorem families_bindAll (registry : Registry) (family : Value) (specs : List TagSpec) :
    (registry.bindAll family specs).1.families = registry.families := by
  induction specs generalizing registry with
  | nil => rfl
  | cons spec rest ih =>
    rw [bindAll]
    cases hbind : registry.bind ⟨family, spec.name⟩ spec.handler with
    | error fault => rfl
    | ok bound => exact (ih bound).trans (families_bind hbind)

/-- Registering a family stores it, if it has a key, or does nothing. -/
theorem families_registerFamily (registry : Registry) (family : Family) :
    (registry.registerFamily family).registry.families = registry.families ∨
      family.key.isKey = true ∧ (registry.registerFamily family).registry.families =
        putFamily family registry.families := by
  rw [registerFamily]
  by_cases hfrozen : registry.frozen = true
  · exact Or.inl (by rw [if_pos hfrozen])
  · rw [if_neg hfrozen]
    split
    · exact Or.inl rfl
    · rename_i hkey
      split
      · exact Or.inl rfl
      · refine Or.inr ⟨by simpa using hkey, ?_⟩
        generalize hstored : ({ registry with families := putFamily family registry.families } :
          Registry) = stored
        have hfamilies : stored.families = putFamily family registry.families := by rw [← hstored]
        rw [← hfamilies]
        cases hbind : stored.bind ⟨family.key, .null⟩ family.handler with
        | error fault => simp only [hbind]
        | ok bound =>
          simp only [hbind]
          exact (families_bindAll bound _ _).trans (families_bind hbind)

theorem families_registerHandler (registry : Registry) (family : Value) (name : Option Text)
    (handler : Handler) :
    (registry.registerHandler family name handler).registry.families = registry.families := by
  rw [registerHandler]
  by_cases hfrozen : registry.frozen = true
  · rw [if_pos hfrozen]
  · rw [if_neg hfrozen]
    split
    · rfl
    · split <;> rfl

theorem families_freeze {registry frozen : Registry} (h : registry.freeze = .ok frozen) :
    frozen.families = registry.families := by
  rw [freeze] at h
  split at h
  · rw [← Except.ok.inj h]
  · cases h

theorem frozen_freeze {registry frozen : Registry} (h : registry.freeze = .ok frozen) :
    frozen.frozen = true := by
  rw [freeze] at h
  split at h
  · rw [← Except.ok.inj h]
  · cases h

/-- A registry that has come about by registrations, whether they were accepted or not, and perhaps
by freezing it. -/
inductive Reached : Registry → Prop
  | ofLibrary (library : Library) : Reached (.ofLibrary library)
  | family {registry : Registry} (h : Reached registry) (family : Family) :
      Reached (registry.registerFamily family).registry
  | handler {registry : Registry} (h : Reached registry) (family : Value) (name : Option Text)
      (handler : Handler) : Reached (registry.registerHandler family name handler).registry
  | frozen {registry result : Registry} (h : Reached registry)
      (hfreeze : registry.freeze = .ok result) : Reached result

/-- **The families of a registry stand under different keys**, in the order in which they are
preferred. -/
theorem Reached.keyed {registry : Registry} (h : registry.Reached) : Keyed registry.ordered := by
  have hfamilies : Keyed registry.families := by
    induction h with
    | ofLibrary library => exact ⟨fun f hf => absurd hf List.not_mem_nil, List.Pairwise.nil⟩
    | family h family ih =>
      rcases families_registerFamily _ family with hsame | ⟨hkey, hput⟩
      · rw [hsame]
        exact ih
      · rw [hput]
        exact keyed_putFamily hkey ih
    | handler h family name handler ih =>
      rw [families_registerHandler]
      exact ih
    | frozen h hfreeze ih =>
      rw [families_freeze hfreeze]
      exact ih
  exact hfamilies.perm (List.mergeSort_perm _ _).symm

/-- A registry that has been made by registering typed families and any handlers, and perhaps by
freezing it. -/
inductive Made : Registry → Prop
  | ofLibrary (library : Library) : Made (.ofLibrary library)
  | family {registry : Registry} (hmade : Made registry) {family : Family}
      (hfamily : family.Typed) : Made (registry.registerFamily family).registry
  | handler {registry : Registry} (hmade : Made registry) (family : Value) (name : Option Text)
      (handler : Handler) : Made (registry.registerHandler family name handler).registry
  | frozen {registry result : Registry} (hmade : Made registry)
      (hfreeze : registry.freeze = .ok result) : Made result

theorem Made.reached {registry : Registry} (h : registry.Made) : registry.Reached := by
  induction h with
  | ofLibrary library => exact .ofLibrary library
  | family hmade hfamily ih => exact ih.family _
  | handler hmade family name handler ih => exact ih.handler family name handler
  | frozen hmade hfreeze ih => exact ih.frozen hfreeze

/-- **The families of a registry that has been made are typed and have different keys**, in the
order in which they are preferred. -/
theorem Made.wellFormed {registry : Registry} (h : registry.Made) :
    WellFormed registry.ordered := by
  have htyped : ∀ family ∈ registry.families, family.Typed := by
    induction h with
    | ofLibrary library => exact fun f hf => absurd hf List.not_mem_nil
    | family hmade hfamily ih =>
      rcases families_registerFamily _ _ with hsame | ⟨-, hput⟩
      · rw [hsame]
        exact ih
      · intro f hf
        rw [hput] at hf
        rcases mem_putFamily hf with rfl | hf
        · exact hfamily
        · exact ih f hf
    | handler hmade family name handler ih =>
      rw [families_registerHandler]
      exact ih
    | frozen hmade hfreeze ih =>
      rw [families_freeze hfreeze]
      exact ih
  refine h.reached.keyed.wellFormed fun family hfamily => htyped family ?_
  exact (List.mergeSort_perm _ _).mem_iff.mp hfamily

theorem made_registerAll {registry result : Registry} (h : registry.Made)
    {families : List Family} (htyped : ∀ family ∈ families, family.Typed)
    (hall : registry.registerAll families = .ok result) : result.Made := by
  induction families generalizing registry with
  | nil => exact Except.ok.inj hall ▸ h
  | cons family rest ih =>
    rw [registerAll] at hall
    cases hfault : (registry.registerFamily family).fault with
    | some fault => simp [hfault] at hall
    | none =>
      simp only [hfault] at hall
      exact ih (h.family (htyped family List.mem_cons_self))
        (fun f hf => htyped f (List.mem_cons_of_mem family hf)) hall

/-- A registry that is built from typed families is made. -/
theorem made_build {library : Library} {families : List Family} {freezing : Bool}
    {registry : Registry} (htyped : ∀ family ∈ families, family.Typed)
    (h : build library families freezing = .ok registry) : registry.Made := by
  rw [build] at h
  cases hall : (ofLibrary library).registerAll families with
  | error fault => simp [hall] at h
  | ok result =>
    have hmade := made_registerAll (.ofLibrary library) htyped hall
    simp only [hall] at h
    split at h
    · exact hmade.frozen h
    · exact Except.ok.inj h ▸ hmade

end Registry
end Stencil
