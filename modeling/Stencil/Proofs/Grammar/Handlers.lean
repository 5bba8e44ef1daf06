import Stencil.Library.Standard
import Stencil.Proofs.Grammar.Requests

/-! # Which handler a tag has

The handlers of a registry come from two sources that share one table.  A handler that is registered
for a slot goes there in any case.  A handler that the library offers, because a family asks for it,
goes there only if there is none yet.  So over any history a slot has the handler that was
registered for it last, or else the one that was **first** offered to it
(`Registry.handlerFor?_after`): what a registration adds stands outermost, what an offer adds stands
innermost, and the table of the middle is the one before.

A family that is registered again under its key is another offer to slots that may have taken one.
As long as all definitions of a family ask for the same in a slot, the slot has the handler that the
history asks for, by what was registered last and by the definition that counts now
(`Registry.currentHandler?`).  Otherwise it may keep a handler that no definition that still counts
asks for (`Registry.handlerFor?_stale`).
-/

namespace Stencil

/-- A search that comes upon one value only, and upon that value, finds it. -/
theorem findSome?_eq_of_forall {α β : Type} {found? : α → Option β} {o : Option β} {l : List α}
    (hall : ∀ a ∈ l, found? a = none ∨ found? a = o) (hone : ∃ a ∈ l, found? a = o) :
    l.findSome? found? = o := by
  cases o with
  | none =>
    rw [List.findSome?_eq_none_iff]
    intro a ha
    rcases hall a ha with h | h <;> exact h
  | some b =>
    induction l with
    | nil =>
      obtain ⟨a, ha, -⟩ := hone
      cases ha
    | cons first rest ih =>
      rw [List.findSome?_cons]
      rcases hall first List.mem_cons_self with hfirst | hfirst
      · rw [hfirst]
        obtain ⟨a, ha, hfound⟩ := hone
        rcases List.mem_cons.mp ha with rfl | ha
        · rw [hfirst] at hfound
          cases hfound
        · exact ih (fun a ha => hall a (List.mem_cons_of_mem first ha)) ⟨a, ha, hfound⟩
      · rw [hfirst]

/-- A family offers nothing to the slots of another one. -/
theorem Library.offer?_asks_eq_none {library : Library} {slot : Slot} {family : Family}
    (hother : Value.sameKey slot.family family.key = false) :
    library.offer? slot family.asks = none := by
  have hsame : ∀ tag, slot.same ⟨family.key, tag⟩ = false := fun tag => by
    rw [Slot.same, hother, Bool.false_and]
  have hrest : ∀ specs : List TagSpec,
      library.offer? slot (specs.map fun spec => (⟨family.key, spec.name⟩, spec.handler)) = none := by
    intro specs
    induction specs with
    | nil => rfl
    | cons spec rest ih =>
      rw [List.map_cons, offer?, hsame, if_neg Bool.false_ne_true, ih, Option.or_none, ite_self]
  rw [Family.asks, offer?, hsame, if_neg Bool.false_ne_true, hrest, Option.or_none, ite_self]

namespace Registry

/-! ## One request -/

theorem library_answer (registry : Registry) (request : Request) :
    (registry.answer request).registry.library = registry.library := by
  cases request with
  | family family =>
    rcases registry.registerFamily_cases family with ⟨-, hsame⟩ | ⟨-, -, hstored⟩
    · exact congrArg library hsame
    · exact hstored.library
  | handler family name handler =>
    rcases registry.registerHandler_cases family name handler with ⟨-, hsame⟩ | ⟨-, -, hstored⟩
    · exact congrArg library hsame
    · exact (congrArg library hstored).trans rfl
  | validate => rw [answer]; split <;> rfl
  | freeze =>
    rw [answer]
    split
    · rename_i frozen hfreeze
      rw [(freeze_eq_ok_iff.mp hfreeze).2]
    · rfl

/-- **What one request does to a slot**: a registered handler replaces the one of the slot, an
offered one is taken by a slot without any. -/
theorem Event.handler?_after (event : Event) (slot : Slot) :
    event.after.handler? slot =
      (event.registered? slot).or ((event.before.handler? slot).or (event.offered? slot)) := by
  obtain ⟨registry, request⟩ := event
  cases request with
  | family family =>
    rcases registry.registerFamily_cases family with
      ⟨⟨fault, hfault, hnotName⟩, hsame⟩ | ⟨-, hfault, hstored⟩
    · have hfamily : Event.family? ⟨registry, .family family⟩ = none := by
        simp only [Event.family?, Event.registration, answer, hfault]
        split <;> simp_all
      rw [Event.after, Event.registration, answer, hsame, Event.offered?, hfamily, Option.bind_none,
        Option.or_none]
      rfl
    · have hfamily : Event.family? ⟨registry, .family family⟩ = some family := by
        simp only [Event.family?, Event.registration, answer]
        rcases hfault with hfault | hfault <;> rw [hfault]
      rw [Event.after, Event.registration, answer, hstored.handler? slot, Event.offered?, hfamily,
        Option.bind_some]
      rfl
  | handler family name handler =>
    have hoffered : Event.offered? ⟨registry, .handler family name handler⟩ slot = none := rfl
    rw [hoffered, Option.or_none]
    rcases registry.registerHandler_cases family name handler with
      ⟨⟨fault, hfault⟩, hsame⟩ | ⟨-, hfault, hstored⟩
    · simp only [Event.after, Event.registered?, Event.registration, answer, hfault, hsame,
        Option.none_or]
    · simp only [Event.after, Event.registered?, Event.registration, answer, hfault, hstored]
      rw [withHandler, handler?_putHandler]
      cases slot.same (Slot.of family name) <;> simp
  | validate =>
    have hsame : Event.after ⟨registry, .validate⟩ = registry := by
      rw [Event.after, Event.registration, answer]
      split <;> rfl
    rw [hsame]
    exact Option.or_none.symm
  | freeze =>
    have hsame : (Event.after ⟨registry, .freeze⟩).handler? slot = registry.handler? slot := by
      rw [Event.after, Event.registration, answer]
      split
      · rename_i frozen hfreeze
        rw [(freeze_eq_ok_iff.mp hfreeze).2]
        rfl
      · rfl
    rw [hsame]
    exact Option.or_none.symm

/-- A request leaves no family behind that was not there and that it does not store. -/
theorem Event.mem_families_after {event : Event} {family : Family}
    (h : family ∈ event.after.families) :
    event.family? = some family ∨ family ∈ event.before.families := by
  obtain ⟨registry, request⟩ := event
  cases request with
  | family other =>
    rcases registry.registerFamily_cases other with ⟨-, hsame⟩ | ⟨-, hfault, hstored⟩
    · rw [Event.after, Event.registration, answer, hsame] at h
      exact Or.inr h
    · rw [Event.after, Event.registration, answer, hstored.families] at h
      rcases mem_putFamily h with rfl | h
      · refine Or.inl ?_
        simp only [Event.family?, Event.registration, answer]
        rcases hfault with hfault | hfault <;> rw [hfault]
      · exact Or.inr h
  | handler key name handler =>
    rw [Event.after, Event.registration, answer, families_registerHandler] at h
    exact Or.inr h
  | validate =>
    rw [Event.after, Event.registration, answer] at h
    split at h <;> exact Or.inr h
  | freeze =>
    rw [Event.after, Event.registration, answer] at h
    split at h
    · rename_i frozen hfreeze
      rw [families_freeze hfreeze] at h
      exact Or.inr h
    · exact Or.inr h

/-! ## Histories -/

/-- All registries of a history are over one library. -/
theorem library_of_mem_history {registry : Registry} {requests : List Request} {event : Event}
    (h : event ∈ registry.history requests) : event.before.library = registry.library := by
  induction requests generalizing registry with
  | nil => cases h
  | cons request rest ih =>
    rcases List.mem_cons.mp h with rfl | h
    · rfl
    · exact (ih h).trans (library_answer registry request)

/-- **What a history does to a slot**: it has the handler that was registered last, or else the one
that it had, or else the one that was offered first. -/
theorem handler?_after (registry : Registry) (requests : List Request) (slot : Slot) :
    (registry.after requests).handler? slot =
      ((registry.history requests).reverse.findSome? (·.registered? slot)).or
        ((registry.handler? slot).or ((registry.history requests).findSome? (·.offered? slot))) := by
  induction requests generalizing registry with
  | nil => simp [after, history]
  | cons request rest ih =>
    have hfirst := Event.handler?_after ⟨registry, request⟩ slot
    rw [Event.after, Event.registration] at hfirst
    rw [after, ih, hfirst, history, ← List.singleton_append, List.reverse_append,
      List.reverse_singleton, List.findSome?_append, List.findSome?_append,
      List.findSome?_singleton, List.findSome?_singleton]
    simp only [Option.or_assoc]

/-- A family that is there at the end was there or has been stored. -/
theorem exists_event_of_mem_families {registry : Registry} {requests : List Request}
    {family : Family} (h : family ∈ (registry.after requests).families) :
    family ∈ registry.families ∨
      ∃ event ∈ registry.history requests, event.family? = some family := by
  induction requests generalizing registry with
  | nil => exact Or.inl h
  | cons request rest ih =>
    rcases ih h with h | ⟨event, hevent, hfamily⟩
    · have hmem : family ∈ (Event.after ⟨registry, request⟩).families := h
      rcases Event.mem_families_after hmem with hfamily | h
      · exact Or.inr ⟨_, List.mem_cons_self, hfamily⟩
      · exact Or.inl h
    · exact Or.inr ⟨event, List.mem_cons_of_mem _ hevent, hfamily⟩

/-- The handler that was registered last for a tag of a family, or for its anonymous tags. -/
def lastRegistered? (events : List Event) (key : Value) (name : Option Text) : Option Handler :=
  events.reverse.findSome? (·.registered? (Slot.of key name))

/-- The handler that the library offered first. -/
def firstOffered? (events : List Event) (key : Value) (name : Option Text) : Option Handler :=
  events.findSome? (·.offered? (Slot.of key name))

/-- The handler that a registry over a library ought to have, after requests, by the definition of
the family that counts now: the one registered last, or else the one that the definition asks
for. -/
def currentHandler? (library : Library) (requests : List Request) (key : Value)
    (name : Option Text) : Option Handler :=
  (lastRegistered? ((ofLibrary library).history requests) key name).or
    ((((ofLibrary library).after requests).family? key).bind fun family =>
      library.offer? (Slot.of key name) family.asks)

/-- **Which handler a tag has.**  After any requests to a registry over a library, accepted or not, a
tag has the handler that was registered for it last, or else the one that the library offered first,
for the first definition of the family that asked for one.  That is the handler that the current
definition asks for, as long as no other definition that was stored under the key asked for another
one. -/
theorem handlerFor?_after (library : Library) (requests : List Request) :
    (∀ key name, ((ofLibrary library).after requests).handlerFor? key name =
      (lastRegistered? ((ofLibrary library).history requests) key name).or
        (firstOffered? ((ofLibrary library).history requests) key name)) ∧
    ∀ key name family, ((ofLibrary library).after requests).family? key = some family →
      (∀ event ∈ (ofLibrary library).history requests, ∀ other ∈ event.family?,
        Value.sameKey key other.key = true →
          library.offer? (Slot.of key name) other.asks =
            library.offer? (Slot.of key name) family.asks) →
      ((ofLibrary library).after requests).handlerFor? key name =
        currentHandler? library requests key name := by
  have hlaw : ∀ key name, ((ofLibrary library).after requests).handlerFor? key name =
      (lastRegistered? ((ofLibrary library).history requests) key name).or
        (firstOffered? ((ofLibrary library).history requests) key name) :=
    fun key name => handler?_after (ofLibrary library) requests (Slot.of key name)
  refine ⟨hlaw, fun key name family hfamily hagree => ?_⟩
  have hkey : (Slot.of key name).family = key := by cases name <;> rfl
  -- every offer to the slot is the one of the current definition
  have hoffered : firstOffered? ((ofLibrary library).history requests) key name =
      library.offer? (Slot.of key name) family.asks := by
    refine findSome?_eq_of_forall (fun event hevent => ?_) ?_
    · rw [Event.offered?, library_of_mem_history hevent]
      cases hother : event.family? with
      | none => exact Or.inl rfl
      | some other =>
        rw [Option.bind_some]
        cases hsame : Value.sameKey key other.key with
        | false => exact Or.inl (Library.offer?_asks_eq_none (hkey.symm ▸ hsame))
        | true => exact Or.inr (hagree event hevent other hother hsame)
    · have hmem : family ∈ ((ofLibrary library).after requests).families :=
        List.mem_of_find?_eq_some hfamily
      rcases exists_event_of_mem_families hmem with hnone | ⟨event, hevent, hstored⟩
      · cases hnone
      · refine ⟨event, hevent, ?_⟩
        rw [Event.offered?, library_of_mem_history hevent, hstored, Option.bind_some]
        rfl
  rw [hlaw, hoffered, currentHandler?, hfamily, Option.bind_some]

/-- A family of anonymous tags between angle brackets, with a handler of the standard library. -/
def angles (handler : String) : Family where
  key := Standard.word "k"
  opener := ['<']
  closer := ['>']
  tags := []
  arguments := .null
  handler := Standard.word handler
  priority := 0
  opener_ne_nil := List.cons_ne_nil _ _
  closer_ne_nil := List.cons_ne_nil _ _

attribute [local instance] Host.usual

/-- Two definitions under one key that ask for the same handler, and that handler. -/
theorem handlerFor?_after_same :
    (((ofLibrary Standard.library).after
        [.family (angles "comment"), .family (angles "comment")]).handlerFor?
      (Standard.word "k") none).map Handler.name = some (Text.ofString "comment") := by
  have hfamily : ((ofLibrary Standard.library).after
      [.family (angles "comment"), .family (angles "comment")]).family? (Standard.word "k") =
        some (angles "comment") := by rfl
  rw [(handlerFor?_after Standard.library _).2 _ none _ hfamily ?_]
  · rfl
  · intro event hevent other hother _
    have hcases : event.family? = some (angles "comment") := by
      rcases List.mem_cons.mp hevent with rfl | hevent
      · rfl
      · rcases List.mem_cons.mp hevent with rfl | hevent
        · rfl
        · cases hevent
    rw [Option.mem_def, hcases] at hother
    rw [← Option.some.inj hother]

/-- A family that is registered again to be commented out, and still is printed. -/
theorem handlerFor?_stale :
    (((ofLibrary Standard.library).after
        [.family (angles "echo"), .family (angles "comment")]).handlerFor?
      (Standard.word "k") none).map Handler.name = some (Text.ofString "echo") ∧
    (currentHandler? Standard.library [.family (angles "echo"), .family (angles "comment")]
      (Standard.word "k") none).map Handler.name = some (Text.ofString "comment") :=
  ⟨rfl, rfl⟩

end Registry
end Stencil
