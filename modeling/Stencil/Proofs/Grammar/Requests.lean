import Stencil.Proofs.Grammar.Registration

/-! # What becomes of a registry that is asked for one thing after the other

A registry is asked to register a family or a handler, to check itself, and to be frozen
(`Registry.Request`).  Whatever is asked, it answers at once, and is there afterwards
(`Registry.answer`, `Registry.after`); what happened is told by the requests, each with the registry
that it met (`Registry.history`).

A family or a handler is stored or refused, and a refusal changes nothing (`registerFamily_cases`,
`registerHandler_cases`).  Storing a family does two things at once: it puts the family in its place,
and it offers to each slot of the family the handler that the library has under the name asked for
there (`Library.offer?`).  An offer is taken by a slot without a handler only (`Stored.handler?`), a
registered handler by its slot in any case (`handler?_putHandler`).
-/

namespace Stencil

namespace Slot

theorem same_symm {a b : Slot} (h : a.same b = true) : b.same a = true := by
  rw [same, Bool.and_eq_true] at h ⊢
  exact ⟨Value.sameKey_symm h.1, Value.sameKey_symm h.2⟩

theorem same_trans {a b c : Slot} (hab : a.same b = true) (hbc : b.same c = true) :
    a.same c = true := by
  rw [same, Bool.and_eq_true] at hab hbc ⊢
  exact ⟨Value.sameKey_trans hab.1 hbc.1, Value.sameKey_trans hab.2 hbc.2⟩

/-- Two slots that are the same are the same as the same slots. -/
theorem same_congr {a b : Slot} (h : a.same b = true) (c : Slot) : a.same c = b.same c := by
  rw [Bool.eq_iff_iff]
  exact ⟨same_trans (same_symm h), same_trans h⟩

end Slot

/-- The slots of a family, each with the name of the handler that the family asks for there: first
the one of its anonymous tags, then those of its tags. -/
def Family.asks (family : Family) : List (Slot × Value) :=
  (⟨family.key, .null⟩, family.handler) ::
    family.tags.map fun spec => (⟨family.key, spec.name⟩, spec.handler)

namespace Library

/-- The handler of the library under a name, if the name asks for one. -/
def named? (library : Library) (name : Value) : Option Handler :=
  if name.truthy then
    match name with
    | .text t => library.find? t
    | _ => none
  else none

/-- The first handler that is asked for in a slot and that the library has, up to a name that cannot
be looked up. -/
def offer? (library : Library) (slot : Slot) : List (Slot × Value) → Option Handler
  | [] => none
  | (place, name) :: rest =>
    if name.truthy && !name.isKey then none
    else (if slot.same place then library.named? name else none).or (offer? library slot rest)

end Library

namespace Registry

/-- What a registry can be asked. -/
inductive Request where
  | family (family : Family)
  | handler (family : Value) (name : Option Text) (handler : Handler)
  | validate
  | freeze

/-- The answer to a request, with the registry that it leaves behind. -/
def answer (registry : Registry) : Request → Registration
  | .family family => registry.registerFamily family
  | .handler family name handler => registry.registerHandler family name handler
  | .validate =>
    match registry.validate with
    | .ok _ => ⟨registry, [], none⟩
    | .error fault => ⟨registry, [], some fault⟩
  | .freeze =>
    match registry.freeze with
    | .ok frozen => ⟨frozen, [], none⟩
    | .error fault => ⟨registry, [], some fault⟩

/-- The registry after requests, whatever of them it refused. -/
def after (registry : Registry) : List Request → Registry
  | [] => registry
  | request :: rest => after (registry.answer request).registry rest

/-- One request in a history, with the registry that it meets. -/
structure Event where
  before : Registry
  request : Request

/-- What happens when a registry is asked for one thing after the other. -/
def history (registry : Registry) : List Request → List Event
  | [] => []
  | request :: rest => ⟨registry, request⟩ :: history (registry.answer request).registry rest

namespace Event

def registration (event : Event) : Registration := event.before.answer event.request

/-- The registry that the request leaves behind. -/
def after (event : Event) : Registry := event.registration.registry

/-- The family that a request stores.  Its handlers may have been looked up in part only. -/
def family? (event : Event) : Option Family :=
  match event.request, event.registration.fault with
  | .family family, none | .family family, some .badHandlerName => some family
  | _, _ => none

/-- The handler that the library offers to a slot, for a family that a request stores. -/
def offered? (event : Event) (slot : Slot) : Option Handler :=
  event.family?.bind fun family => event.before.library.offer? slot family.asks

/-- The handler that a request registers for a slot. -/
def registered? (event : Event) (slot : Slot) : Option Handler :=
  match event.request, event.registration.fault with
  | .handler family name handler, none =>
    if slot.same (Slot.of family name) then some handler else none
  | _, _ => none

end Event

/-! ## Slots and their handlers -/

theorem handler?_congr {slot slot' : Slot} (h : slot.same slot' = true) (registry : Registry) :
    registry.handler? slot = registry.handler? slot' := by
  rw [handler?, handler?]
  simp only [Slot.same_congr h]

/-- A stored handler is the one of its slot, and other slots keep theirs. -/
theorem find?_putHandler (place slot : Slot) (handler : Handler)
    (handlers : List (Slot × Handler)) :
    ((putHandler place handler handlers).find? fun h => slot.same h.1).map (·.2) =
      if slot.same place then some handler
      else (handlers.find? fun h => slot.same h.1).map (·.2) := by
  induction handlers with
  | nil =>
    rw [putHandler]
    cases hsame : slot.same place <;> simp [hsame]
  | cons first rest ih =>
    rw [putHandler]
    by_cases hfirst : place.same first.1 = true
    · have hslot : slot.same first.1 = slot.same place := by
        rw [Bool.eq_iff_iff]
        exact ⟨fun h => Slot.same_trans h (Slot.same_symm hfirst),
          fun h => Slot.same_trans h hfirst⟩
      rw [if_pos hfirst]
      cases hsame : slot.same place <;> simp [hslot, hsame]
    · rw [if_neg hfirst, List.find?_cons, List.find?_cons]
      cases hslot : slot.same first.1 with
      | true =>
        -- the slot of the first handler is another one than that of the stored handler
        have hother : ¬ slot.same place = true :=
          fun h => hfirst (Slot.same_trans (Slot.same_symm h) hslot)
        rw [if_neg hother]
      | false => exact ih

theorem handler?_putHandler (registry : Registry) (place slot : Slot) (handler : Handler) :
    ({ registry with handlers := putHandler place handler registry.handlers } : Registry).handler?
        slot =
      if slot.same place then some handler else registry.handler? slot :=
  find?_putHandler place slot handler registry.handlers

/-! ## Looking up the handlers that a family asks for -/

/-- A registry that has perhaps been given more handlers, and is the same otherwise. -/
structure Extends (registry bound : Registry) : Prop where
  library : bound.library = registry.library
  families : bound.families = registry.families
  frozen : bound.frozen = registry.frozen

theorem Extends.refl (registry : Registry) : registry.Extends registry := ⟨rfl, rfl, rfl⟩

theorem Extends.trans {registry bound done : Registry} (h : registry.Extends bound)
    (h' : bound.Extends done) : registry.Extends done :=
  ⟨h'.library.trans h.library, h'.families.trans h.families, h'.frozen.trans h.frozen⟩

/-- A handler that is put last is found where there was none. -/
theorem handler?_append (registry : Registry) (place : Slot) (handler : Handler) (slot : Slot) :
    ({ registry with handlers := registry.handlers ++ [(place, handler)] } : Registry).handler?
        slot =
      (registry.handler? slot).or (if slot.same place then some handler else none) := by
  show ((registry.handlers ++ [(place, handler)]).find? fun h => slot.same h.1).map (·.2) = _
  rw [List.find?_append, Option.map_or]
  cases hsame : slot.same place <;> simp [handler?, hsame]

/-- **A handler that is looked up goes to its slot, unless the slot has one already.** -/
theorem bind_cases (registry : Registry) (place : Slot) (name : Value) :
    ((name.truthy && !name.isKey) = true ∧ registry.bind place name = .error .badHandlerName) ∨
      (name.truthy && !name.isKey) = false ∧ ∃ bound, registry.bind place name = .ok bound ∧
        registry.Extends bound ∧ ∀ slot, bound.handler? slot = (registry.handler? slot).or
          (if slot.same place then registry.library.named? name else none) := by
  have hunchanged : registry.library.named? name = none → registry.Extends registry ∧ ∀ slot,
      registry.handler? slot = (registry.handler? slot).or
        (if slot.same place then registry.library.named? name else none) := by
    intro hnone
    refine ⟨.refl registry, fun slot => ?_⟩
    rw [hnone, ite_self, Option.or_none]
  unfold bind
  cases htruthy : name.truthy with
  | false => exact Or.inr ⟨rfl, registry, rfl, hunchanged (by simp [Library.named?, htruthy])⟩
  | true =>
    cases hkey : name.isKey with
    | false => exact Or.inl ⟨rfl, rfl⟩
    | true =>
      refine Or.inr ⟨rfl, ?_⟩
      cases name with
      | text t =>
        have hnamed : registry.library.named? (.text t) = registry.library.find? t := by
          rw [Library.named?, if_pos htruthy]
        cases hfind : registry.library.find? t with
        | none => exact ⟨registry, by simp [hfind], hunchanged (hnamed.trans hfind)⟩
        | some found =>
          rw [hnamed, hfind]
          cases hhandler : registry.handler? place with
          | some present =>
            refine ⟨registry, by simp [hfind], .refl registry, fun slot => ?_⟩
            by_cases hsame : slot.same place = true
            · rw [handler?_congr hsame, hhandler, Option.some_or]
            · rw [if_neg hsame, Option.or_none]
          | none =>
            refine ⟨{ registry with handlers := registry.handlers ++ [(place, found)] },
              by simp [hfind], ⟨rfl, rfl, rfl⟩, registry.handler?_append place found⟩
      | _ => exact ⟨registry, rfl, hunchanged (by simp [Library.named?])⟩

/-- The slots of a row of tags take what the library offers them. -/
theorem handler?_bindAll (registry : Registry) (family : Value) (specs : List TagSpec) :
    registry.Extends (registry.bindAll family specs).1 ∧
      (∀ fault ∈ (registry.bindAll family specs).2, fault = .badHandlerName) ∧
      ∀ slot, (registry.bindAll family specs).1.handler? slot = (registry.handler? slot).or
        (registry.library.offer? slot (specs.map fun spec => (⟨family, spec.name⟩, spec.handler))) := by
  induction specs generalizing registry with
  | nil =>
    refine ⟨.refl registry, fun fault hfault => ?_, fun slot => Option.or_none.symm⟩
    cases hfault
  | cons spec rest ih =>
    rw [bindAll]
    rcases registry.bind_cases ⟨family, spec.name⟩ spec.handler with
      ⟨hbad, hbind⟩ | ⟨hgood, bound, hbind, hextends, hbound⟩
    · rw [hbind]
      refine ⟨.refl registry, fun fault h => (Option.some.inj h).symm, fun slot => ?_⟩
      rw [List.map_cons, Library.offer?, if_pos hbad, Option.or_none]
    · obtain ⟨hrest, hfault, hoffer⟩ := ih bound
      rw [hbind]
      refine ⟨hextends.trans hrest, hfault, fun slot => ?_⟩
      rw [hoffer slot, hbound slot, hextends.library, List.map_cons, Library.offer?, hgood,
        if_neg Bool.false_ne_true, Option.or_assoc]

/-! ## What a request does -/

/-- A registry after storing a family: its slots have taken what the library offers them, unless
they had a handler. -/
structure Stored (family : Family) (before after : Registry) : Prop where
  library : after.library = before.library
  families : after.families = putFamily family before.families
  frozen : after.frozen = before.frozen
  handler? : ∀ slot, after.handler? slot =
    (before.handler? slot).or (before.library.offer? slot family.asks)

/-- What storing a handler leaves behind. -/
def withHandler (registry : Registry) (slot : Slot) (handler : Handler) : Registry :=
  { registry with handlers := putHandler slot handler registry.handlers }

/-- **A family is refused, and nothing changes, or it is stored.** -/
theorem registerFamily_cases (registry : Registry) (family : Family) :
    ((∃ fault, (registry.registerFamily family).fault = some fault ∧ fault ≠ .badHandlerName) ∧
        (registry.registerFamily family).registry = registry) ∨
      registry.frozen = false ∧
      ((registry.registerFamily family).fault = none ∨
        (registry.registerFamily family).fault = some .badHandlerName) ∧
      Stored family registry (registry.registerFamily family).registry := by
  rw [registerFamily]
  by_cases hfrozen : registry.frozen = true
  · rw [if_pos hfrozen]
    exact Or.inl ⟨⟨_, rfl, RegistryFault.noConfusion⟩, rfl⟩
  · rw [if_neg hfrozen]
    split
    · exact Or.inl ⟨⟨_, rfl, RegistryFault.noConfusion⟩, rfl⟩
    · split
      · exact Or.inl ⟨⟨_, rfl, RegistryFault.noConfusion⟩, rfl⟩
      · refine Or.inr ⟨Bool.eq_false_iff.mpr hfrozen, ?_⟩
        generalize hstored : ({ registry with families := putFamily family registry.families } :
          Registry) = stored
        have hlibrary : stored.library = registry.library := by rw [← hstored]
        have hfamilies : stored.families = putFamily family registry.families := by rw [← hstored]
        have hunfrozen : stored.frozen = registry.frozen := by rw [← hstored]
        have hhandler : ∀ slot, stored.handler? slot = registry.handler? slot := by
          intro slot
          rw [← hstored]
          rfl
        rcases stored.bind_cases ⟨family.key, .null⟩ family.handler with
          ⟨hbad, hbind⟩ | ⟨hgood, bound, hbind, hextends, hbound⟩
        · simp only [hbind]
          refine ⟨Or.inr trivial, hlibrary, hfamilies, hunfrozen, fun slot => ?_⟩
          rw [hhandler, Family.asks, Library.offer?, if_pos hbad, Option.or_none]
        · obtain ⟨hrest, hfault, hoffer⟩ := bound.handler?_bindAll family.key family.tags
          have hall := hextends.trans hrest
          simp only [hbind]
          refine ⟨?_, hall.library.trans hlibrary, hall.families.trans hfamilies,
            hall.frozen.trans hunfrozen, fun slot => ?_⟩
          · cases hdone : (bound.bindAll family.key family.tags).2 with
            | none => exact Or.inl rfl
            | some fault => exact Or.inr (congrArg some (hfault fault hdone))
          · rw [hoffer slot, hbound slot, hextends.library, hlibrary, hhandler, Family.asks,
              Library.offer?, hgood, if_neg Bool.false_ne_true, Option.or_assoc]

/-- **A handler is refused, and nothing changes, or it is stored.** -/
theorem registerHandler_cases (registry : Registry) (family : Value) (name : Option Text)
    (handler : Handler) :
    ((∃ fault, (registry.registerHandler family name handler).fault = some fault) ∧
        (registry.registerHandler family name handler).registry = registry) ∨
      registry.frozen = false ∧ (registry.registerHandler family name handler).fault = none ∧
      (registry.registerHandler family name handler).registry =
        registry.withHandler (Slot.of family name) handler := by
  rw [registerHandler]
  by_cases hfrozen : registry.frozen = true
  · rw [if_pos hfrozen]
    exact Or.inl ⟨⟨_, rfl⟩, rfl⟩
  · rw [if_neg hfrozen]
    split
    · exact Or.inl ⟨⟨_, rfl⟩, rfl⟩
    · split
      · exact Or.inl ⟨⟨_, rfl⟩, rfl⟩
      · exact Or.inr ⟨Bool.eq_false_iff.mpr hfrozen, rfl, rfl⟩

/-- A registry that was frozen successfully is the same otherwise. -/
theorem freeze_eq_ok_iff {registry frozen : Registry} :
    registry.freeze = .ok frozen ↔
      registry.validate = .ok () ∧ frozen = { registry with frozen := true } := by
  rw [freeze]
  cases registry.validate with
  | ok _ => simp [eq_comm]
  | error fault => simp

end Registry
end Stencil
