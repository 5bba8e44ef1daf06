import Stencil.Grammar.Configuration
import Stencil.Grammar.Directory
import Stencil.Proofs.Grammar.Handlers

/-! # Registrations that fail

A registration of a family is turned down because of the state of the registry or of the key of the
family (`Registry.Accepts`), and then nothing has been done yet.  Otherwise the family is stored
first, and its handlers are looked up afterwards, tag by tag.  That fails if a name that is asked for
can be no key, so that no library can have it (`Family.AsksKeys`): then the family stays behind, with
the handlers that had been found up to there.

So a registration that fails changes nothing, unless it fails because of the name of a handler; and a
family of which all handlers are asked for by keys is registered as a whole or not at all
(`Registry.registerFamily_refused_or_stored`).  The configuration of a family may hold any value
where the name of a handler is expected (`Registry.registerFamily_unaskable`).
-/

namespace Stencil

/-- Whether a name of a handler asks for one under what can be no key. -/
def Value.isUnaskable (name : Value) : Bool := name.truthy && !name.isKey

/-- All handlers that a family asks for are asked for by keys. -/
def Family.AsksKeys (family : Family) : Prop := ∀ ask ∈ family.asks, ask.2.isUnaskable = false

instance (family : Family) : Decidable family.AsksKeys :=
  inferInstanceAs (Decidable (∀ ask ∈ family.asks, ask.2.isUnaskable = false))

namespace Registry

/-- A registry can store a family. -/
structure Accepts (registry : Registry) (family : Family) : Prop where
  unfrozen : registry.frozen = false
  key : family.key.isKey = true
  /-- The warning that the key was registered before shows the key. -/
  shown : (registry.family? family.key).isSome = true → family.key.isWritable = true

/-- A family that cannot be stored is turned down, and nothing changes. -/
theorem registerFamily_of_not_accepts {registry : Registry} {family : Family}
    (h : ¬ registry.Accepts family) :
    ∃ fault : RegistryFault, fault.isRefusal = true ∧
      registry.registerFamily family = ⟨registry, [], some fault⟩ := by
  rw [registerFamily]
  by_cases hfrozen : registry.frozen = true
  · exact ⟨.frozen, rfl, if_pos hfrozen⟩
  · rw [if_neg hfrozen]
    by_cases hkey : (!family.key.isKey) = true
    · exact ⟨.badKey, rfl, if_pos hkey⟩
    · rw [if_neg hkey]
      by_cases hshown : ((registry.family? family.key).isSome && !family.key.isWritable) = true
      · exact ⟨.unwritable, rfl, if_pos hshown⟩
      · refine absurd ⟨Bool.eq_false_iff.mpr hfrozen, by simpa using hkey, fun hsome => ?_⟩ h
        simpa [hsome] using hshown

/-- A row of tags is gone through to its end if all handlers are asked for by keys. -/
theorem bindAll_fault_eq_none_iff {registry : Registry} {family : Value} {specs : List TagSpec} :
    (registry.bindAll family specs).2 = none ↔
      ∀ spec ∈ specs, spec.handler.isUnaskable = false := by
  induction specs generalizing registry with
  | nil => exact ⟨fun _ spec hspec => absurd hspec List.not_mem_nil, fun _ => rfl⟩
  | cons spec rest ih =>
    rw [bindAll, List.forall_mem_cons]
    rcases registry.bind_cases ⟨family, spec.name⟩ spec.handler with
      ⟨hbad, hbind⟩ | ⟨hgood, bound, hbind, -, -⟩
    · rw [hbind]
      simp only [Value.isUnaskable, hbad, reduceCtorEq, false_and]
    · rw [hbind]
      simp only [Value.isUnaskable, hgood, true_and]
      exact ih

/-- The registration of a family that can be stored fails because of the name of a handler, if it
fails. -/
theorem fault_registerFamily_of_accepts {registry : Registry} {family : Family}
    (h : registry.Accepts family) :
    (registry.registerFamily family).fault =
      if family.AsksKeys then none else some .badHandlerName := by
  have hunfrozen : ¬ registry.frozen = true := Bool.eq_false_iff.mp h.unfrozen
  have hkey : ¬ (!family.key.isKey) = true := by rw [h.key]; exact Bool.false_ne_true
  have hshown : ¬ ((registry.family? family.key).isSome && !family.key.isWritable) = true := by
    rw [Bool.and_eq_true]
    rintro ⟨hsome, hunwritable⟩
    rw [h.shown hsome] at hunwritable
    exact Bool.false_ne_true hunwritable
  have hasks : family.AsksKeys ↔ family.handler.isUnaskable = false ∧
      ∀ spec ∈ family.tags, spec.handler.isUnaskable = false := by
    rw [Family.AsksKeys, Family.asks, List.forall_mem_cons, List.forall_mem_map]
  rw [registerFamily, if_neg hunfrozen, if_neg hkey, if_neg hshown]
  generalize ({ registry with families := putFamily family registry.families } : Registry) = stored
  rcases stored.bind_cases ⟨family.key, .null⟩ family.handler with
    ⟨hbad, hbind⟩ | ⟨hgood, bound, hbind, -, -⟩
  · have hnot : ¬ family.AsksKeys := fun hall =>
      Bool.false_ne_true ((hasks.mp hall).1.symm.trans hbad)
    simp only [hbind, if_neg hnot]
  · have hnone : (bound.bindAll family.key family.tags).2 = none ↔ family.AsksKeys := by
      rw [bindAll_fault_eq_none_iff, hasks]
      exact (and_iff_right hgood).symm
    have hfault := (bound.handler?_bindAll family.key family.tags).2.1
    simp only [hbind]
    cases hdone : (bound.bindAll family.key family.tags).2 with
    | none => rw [if_pos (hnone.mp hdone)]
    | some fault =>
      have hnot : ¬ family.AsksKeys := fun hall => by
        rw [hnone.mpr hall] at hdone
        cases hdone
      rw [if_neg hnot, hfault fault hdone]

/-- A family that can be stored is stored, whether its registration fails then or not. -/
theorem stored_of_accepts {registry : Registry} {family : Family} (h : registry.Accepts family) :
    Stored family registry (registry.registerFamily family).registry := by
  rcases registry.registerFamily_cases family with ⟨⟨fault, hfault, hother⟩, -⟩ | ⟨-, -, hstored⟩
  · rw [fault_registerFamily_of_accepts h] at hfault
    split at hfault
    · cases hfault
    · exact absurd (Option.some.inj hfault).symm hother
  · exact hstored

/-- A family that has been stored is the one under its key. -/
theorem Stored.family? {registry after : Registry} {family : Family}
    (h : Stored family registry after) (hkey : family.key.isKey = true) :
    after.family? family.key = some family := by
  have hself := Value.sameKey_self hkey
  rw [Registry.family?, h.families, Family.withKey?]
  induction registry.families with
  | nil => exact List.find?_cons_of_pos hself
  | cons first rest ih =>
    rw [putFamily]
    split
    · exact List.find?_cons_of_pos hself
    · rename_i hother
      rw [List.find?_cons, Bool.eq_false_iff.mpr hother]
      exact ih

/-- **What a registration leaves behind.**  A family that the registry does not accept is turned down,
and the registry is the same as before: its families, their order, its handlers, and whether it is
frozen.  A family that asks for all its handlers by keys is registered as a whole.  Any other one
fails because of the name of a handler, and stands under its key all the same, with the handlers
that were found before the name that is no key. -/
theorem registerFamily_refused_or_stored (registry : Registry) (family : Family) :
    (¬ registry.Accepts family ∧ ∃ fault : RegistryFault, fault.isRefusal = true ∧
        registry.registerFamily family = ⟨registry, [], some fault⟩) ∨
    (registry.Accepts family ∧ family.AsksKeys ∧
      (registry.registerFamily family).fault = none ∧
      Stored family registry (registry.registerFamily family).registry) ∨
    (registry.Accepts family ∧ ¬ family.AsksKeys ∧
      (registry.registerFamily family).fault = some .badHandlerName ∧
      Stored family registry (registry.registerFamily family).registry ∧
      (registry.registerFamily family).registry.family? family.key = some family) := by
  by_cases haccepts : registry.Accepts family
  · have hfault := fault_registerFamily_of_accepts haccepts
    have hstored := stored_of_accepts haccepts
    by_cases hasks : family.AsksKeys
    · rw [if_pos hasks] at hfault
      exact Or.inr (Or.inl ⟨haccepts, hasks, hfault, hstored⟩)
    · rw [if_neg hasks] at hfault
      exact Or.inr (Or.inr ⟨haccepts, hasks, hfault, hstored, hstored.family? haccepts.key⟩)
  · exact Or.inl ⟨haccepts, registerFamily_of_not_accepts haccepts⟩

attribute [local instance] Host.usual

/-- A configuration that names a handler by a list, the family that is read from it, and the
registry that turns this family down and lists it from then on. -/
theorem registerFamily_unaskable :
    ∃ family : Family,
      Configuration.family (Standard.word "k") (.map
        [(Standard.word "opener", Standard.word "<"), (Standard.word "closer", Standard.word ">"),
          (Standard.word "handler", .list [Standard.word "x"])]) = .ok family ∧
      ((ofLibrary Standard.library).registerFamily family).fault = some .badHandlerName ∧
      (ofLibrary Standard.library).ordered = [] ∧
      ((ofLibrary Standard.library).registerFamily family).registry.ordered = [family] :=
  ⟨_, rfl, rfl, List.mergeSort_nil, List.mergeSort_singleton _⟩

end Registry
end Stencil
