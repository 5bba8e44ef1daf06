import Stencil.Proofs.Document.Items
import Stencil.Proofs.Grammar.Handlers
import Stencil.Proofs.Program.Generation

/-! # Freezing a registry

A registry can be frozen if and only if it is complete: there is a family, every tag has a handler,
and every family without names has one for its anonymous tags (`Registry.freeze_iff_complete`).  A
frozen registry refuses whatever is to be registered, so that it stays the same for good
(`Registry.after_eq_of_frozen`).

The tags of a document that was built over a frozen registry are declared by its families
(`Document.Holds.declared`), so a tag with a name has the handler without which the registry would
not have been frozen.  What may have none is an anonymous tag, and only if its family has names: such
a family is complete without a handler of its anonymous tags (`Program.missing_of_generate`).
-/

namespace Stencil
namespace Registry

/-- A registry with a family and all handlers that its families need. -/
structure Complete (registry : Registry) : Prop where
  nonempty : registry.families ≠ []
  named : ∀ family ∈ registry.families, ∀ spec ∈ family.tags,
    ∃ handler, registry.handler? ⟨family.key, spec.name⟩ = some handler
  anonymous : ∀ family ∈ registry.families, family.hasNames = false →
    ∃ handler, registry.handlerFor? family.key none = some handler

/-- Nothing is missing in a family with all its handlers. -/
theorem missingIn_eq_nil_iff {registry : Registry} {family : Family} :
    registry.missingIn family = [] ↔
      (family.hasNames = false → ∃ handler, registry.handlerFor? family.key none = some handler) ∧
        ∀ spec ∈ family.tags, ∃ handler, registry.handler? ⟨family.key, spec.name⟩ = some handler := by
  rw [missingIn, List.append_eq_nil_iff, List.map_eq_nil_iff, List.filter_eq_nil_iff]
  refine and_congr ?_ (forall₂_congr fun spec _ => ?_)
  · rw [handlerFor?, Slot.of]
    cases family.hasNames <;> cases registry.handler? ⟨family.key, .null⟩ <;> simp
  · cases registry.handler? ⟨family.key, spec.name⟩ <;> simp

/-- Checking a registry finds nothing if and only if it is complete. -/
theorem validate_eq_ok_iff {registry : Registry} :
    registry.validate = .ok () ↔ registry.Complete := by
  have hmissing : registry.families.flatMap registry.missingIn = [] ↔
      ∀ family ∈ registry.families, registry.missingIn family = [] := List.flatMap_eq_nil_iff
  rw [validate]
  constructor
  · intro h
    split at h
    · cases h
    · rename_i hfamilies
      have hnone : registry.families.flatMap registry.missingIn = [] := by
        cases hlist : registry.families.flatMap registry.missingIn with
        | nil => rfl
        | cons first rest =>
          rw [hlist, List.mapM_cons] at h
          cases first with
          | none => cases h
          | some label =>
            cases hrest : rest.mapM id with
            | none => simp [hrest] at h
            | some labels => simp [hrest] at h
      have hall := hmissing.mp hnone
      refine ⟨fun hnil => hfamilies (by rw [hnil]; rfl), fun family hfamily => ?_,
        fun family hfamily => ?_⟩
      · exact (missingIn_eq_nil_iff.mp (hall family hfamily)).2
      · exact (missingIn_eq_nil_iff.mp (hall family hfamily)).1
  · intro h
    have hnone : registry.families.flatMap registry.missingIn = [] :=
      hmissing.mpr fun family hfamily =>
        missingIn_eq_nil_iff.mpr ⟨h.anonymous family hfamily, h.named family hfamily⟩
    have hfamilies : ¬ registry.families.isEmpty = true :=
      fun hempty => h.nonempty (List.isEmpty_iff.mp hempty)
    rw [if_neg hfamilies, hnone]
    rfl

/-- **A registry can be frozen if and only if it is complete.** -/
theorem freeze_iff_complete {registry : Registry} :
    (∃ frozen, registry.freeze = .ok frozen) ↔ registry.Complete := by
  rw [← validate_eq_ok_iff]
  constructor
  · rintro ⟨frozen, hfreeze⟩
    exact (freeze_eq_ok_iff.mp hfreeze).1
  · exact fun hvalid => ⟨_, freeze_eq_ok_iff.mpr ⟨hvalid, rfl⟩⟩

/-- What freezing gives is complete. -/
theorem Complete.of_freeze {registry frozen : Registry} (h : registry.freeze = .ok frozen) :
    frozen.Complete := by
  obtain ⟨hvalid, rfl⟩ := freeze_eq_ok_iff.mp h
  obtain ⟨nonempty, named, anonymous⟩ := validate_eq_ok_iff.mp hvalid
  exact ⟨nonempty, named, anonymous⟩

/-! ## After freezing -/

/-- Whether a request is to register something. -/
def Request.registers : Request → Bool
  | .family _ => true
  | .handler _ _ _ => true
  | .validate => false
  | .freeze => false

/-- A frozen registry registers nothing more. -/
theorem answer_registers {registry : Registry} (hfrozen : registry.frozen = true)
    {request : Request} (h : request.registers = true) :
    registry.answer request = ⟨registry, [], some .frozen⟩ := by
  cases request with
  | family family => simp only [answer, registerFamily, hfrozen, if_true]
  | handler family name handler => simp only [answer, registerHandler, hfrozen, if_true]
  | validate => cases h
  | freeze => cases h

/-- Checking changes nothing, and neither does freezing unless it succeeds. -/
theorem registry_answer_of_fault {registry : Registry} {request : Request}
    (h : request.registers = false) (hfault : (registry.answer request).fault ≠ none) :
    (registry.answer request).registry = registry := by
  cases request with
  | family family => cases h
  | handler family name handler => cases h
  | validate => rw [answer]; split <;> rfl
  | freeze =>
    rw [answer] at hfault ⊢
    split
    · rename_i frozen hfreeze
      rw [hfreeze] at hfault
      exact absurd rfl hfault
    · rfl

/-- One request leaves a frozen registry as it is. -/
theorem registry_answer_of_frozen {registry : Registry} (hfrozen : registry.frozen = true)
    (request : Request) : (registry.answer request).registry = registry := by
  cases hregisters : request.registers with
  | true => rw [answer_registers hfrozen hregisters]
  | false =>
    cases request with
    | family family => cases hregisters
    | handler family name handler => cases hregisters
    | validate => rw [answer]; split <;> rfl
    | freeze =>
      rw [answer]
      split
      · rename_i frozen hfreeze
        obtain ⟨-, rfl⟩ := freeze_eq_ok_iff.mp hfreeze
        rw [← hfrozen]
      · rfl

/-- **A frozen registry stays as it is**, whatever it is asked. -/
theorem after_eq_of_frozen {registry : Registry} (hfrozen : registry.frozen = true)
    (requests : List Request) : registry.after requests = registry := by
  induction requests with
  | nil => rfl
  | cons request rest ih => rw [after, registry_answer_of_frozen hfrozen, ih]

/-- It meets every request. -/
theorem before_of_mem_history {registry : Registry} (hfrozen : registry.frozen = true)
    {requests : List Request} {event : Event} (h : event ∈ registry.history requests) :
    event.before = registry := by
  induction requests with
  | nil => cases h
  | cons request rest ih =>
    rw [history, registry_answer_of_frozen hfrozen] at h
    rcases List.mem_cons.mp h with rfl | h
    · rfl
    · exact ih h

end Registry

/-! ## Documents over a frozen registry -/

namespace Program

/-- A tag of a document that is to blame for a missing handler. -/
structure Blamed (registry : Registry) (document : Document) (tag : Occurrence)
    (label family : Text) (position : Position) : Prop where
  held : ∃ id closing children, document.Holds (.tag id tag.head closing children) ∧
    tag.enclosed = Document.enclosed document.segments tag.head closing
  /-- Its handler says so itself, or there is none: then the tag is anonymous, and its family has
  names and no handler of anonymous tags. -/
  reason : (∃ handler inner, registry.handlerFor? tag.head.family tag.head.name = some handler ∧
      handler.apply tag inner = .error (.noHandler label family position)) ∨
    (label = Program.label tag.head ∧ family = tag.head.family.asText ∧
      position = tag.head.position ∧ tag.head.name = none ∧
      registry.handlerFor? tag.head.family none = none ∧
      ∃ own ∈ registry.families, tag.head.family = own.key ∧ own.hasNames = true)

/-- **Where a handler is missing**: at an anonymous tag of a family with names but without a handler
of anonymous tags, if the registry is complete and no handler says so itself. -/
theorem missing_of_generate {registry : Registry} (hcomplete : registry.Complete)
    {segments : List Segment} {document : Document}
    (hbuilt : Document.ofSegments registry.ordered segments = .ok document)
    {label family : Text} {position : Position}
    (h : generate registry document = .error (.noHandler label family position)) :
    ∃ tag, Blamed registry document tag label family position := by
  obtain ⟨id, head, closing, children, inner, hholds, htag⟩ :=
    exists_tag_of_generate h fun broken => CompileFault.noConfusion
  refine ⟨⟨head, Document.enclosed document.segments head closing⟩,
    ⟨id, closing, children, hholds, rfl⟩, ?_⟩
  rw [ofTag] at htag
  split at htag
  · rename_i handler hhandler
    exact Or.inl ⟨handler, inner, hhandler, htag⟩
  · rename_i hnone
    obtain ⟨rfl, rfl, rfl⟩ := CompileFault.noHandler.inj (Except.error.inj htag)
    obtain ⟨own, hown, hkey, hname⟩ := hholds.declared hbuilt
    have hmem : own ∈ registry.families := (List.mergeSort_perm _ _).mem_iff.mp hown
    cases hhead : head.name with
    | some name =>
      -- the registry could be frozen because a tag with this name has a handler
      obtain ⟨spec, hspec, hspecName⟩ := hname name hhead
      obtain ⟨handler, hhandler⟩ := hcomplete.named own hmem spec hspec
      rw [hspecName, ← hkey] at hhandler
      rw [hhead] at hnone
      cases hnone.symm.trans hhandler
    | none =>
      rw [hhead] at hnone
      refine Or.inr ⟨rfl, rfl, rfl, rfl, hnone, own, hmem, hkey, ?_⟩
      by_contra hnames
      obtain ⟨handler, hhandler⟩ := hcomplete.anonymous own hmem (eq_false_of_ne_true hnames)
      rw [← hkey] at hhandler
      cases hnone.symm.trans hhandler

end Program

namespace Registry

/-- **Freezing is final and complete.**  After any requests, accepted or not, a registry can be
frozen if and only if it is complete; checking it and freezing it change nothing if they fail.  Once
it is frozen, it stays the same, and with it its families, their order and all handlers; and every
registration is refused.  A document that was built over it lacks a handler at an anonymous tag only,
of a family with names but without a handler of anonymous tags. -/
theorem frozen_final_and_complete (library : Library) (requests : List Request) :
    ((∃ frozen, ((ofLibrary library).after requests).freeze = .ok frozen) ↔
      ((ofLibrary library).after requests).Complete) ∧
    (∀ request : Request, request.registers = false →
      (((ofLibrary library).after requests).answer request).fault ≠ none →
        (((ofLibrary library).after requests).answer request).registry =
          (ofLibrary library).after requests) ∧
    ∀ frozen, ((ofLibrary library).after requests).freeze = .ok frozen →
      (∀ more, frozen.after more = frozen ∧ ∀ event ∈ frozen.history more,
        event.request.registers = true → event.registration = ⟨frozen, [], some .frozen⟩) ∧
      ∀ segments document, Document.ofSegments frozen.ordered segments = .ok document →
        ∀ label family position,
          Program.generate frozen document = .error (.noHandler label family position) →
            ∃ tag, Program.Blamed frozen document tag label family position := by
  refine ⟨freeze_iff_complete, fun request => registry_answer_of_fault, fun frozen hfreeze => ?_⟩
  have hfrozen := frozen_freeze hfreeze
  refine ⟨fun more => ⟨after_eq_of_frozen hfrozen more, fun event hevent hregisters => ?_⟩,
    fun segments document hbuilt label family position => ?_⟩
  · rw [Event.registration, before_of_mem_history hfrozen hevent]
    exact answer_registers hfrozen hregisters
  · exact Program.missing_of_generate (Complete.of_freeze hfreeze) hbuilt

/-- A family with one name, that has no handler of its anonymous tags. -/
def named : Family :=
  { angles "comment" with
    tags := [⟨Standard.word "t", Standard.word "comment", false, .null, false⟩]
    handler := .null }

/-- A tag of the family without the name. -/
def nameless : List Segment := [⟨.tag (some (Standard.word "k")), Text.ofString "<x>", ⟨0, 1, 1⟩⟩]

attribute [local instance] Host.usual

/-- The registry with this family is frozen and lacks a handler of the tag. -/
theorem frozen_final_and_complete_named :
    ∃ frozen document,
      ((ofLibrary Standard.library).after [.family named]).freeze = .ok frozen ∧
      Document.ofSegments frozen.ordered nameless = .ok document ∧
      Program.generate frozen document =
        .error (.noHandler (Text.ofString "x") (Text.ofString "k") ⟨0, 1, 1⟩) ∧
      ∃ tag, Program.Blamed frozen document tag (Text.ofString "x") (Text.ofString "k")
        ⟨0, 1, 1⟩ := by
  have hfreeze : ((ofLibrary Standard.library).after [.family named]).freeze =
      .ok { (ofLibrary Standard.library).after [.family named] with frozen := true } := by
    rfl
  have hordered : Registry.ordered
      { (ofLibrary Standard.library).after [.family named] with frozen := true } = [named] := by
    cbv
  have hbuilt : Document.ofSegments [named] nameless = .ok
      ⟨[.tag 1 ⟨none, Standard.word "k", [], Text.ofString "x", 0, ⟨0, 1, 1⟩⟩ none []],
        nameless⟩ := by
    cbv
  rw [← hordered] at hbuilt
  have hgenerate : Program.generate
      { (ofLibrary Standard.library).after [.family named] with frozen := true }
      ⟨[.tag 1 ⟨none, Standard.word "k", [], Text.ofString "x", 0, ⟨0, 1, 1⟩⟩ none []],
        nameless⟩ = .error (.noHandler (Text.ofString "x") (Text.ofString "k") ⟨0, 1, 1⟩) := by
    cbv
  exact ⟨_, _, hfreeze, hbuilt, hgenerate,
    ((frozen_final_and_complete Standard.library [.family named]).2.2 _ hfreeze).2 _ _ hbuilt _ _ _
      hgenerate⟩

end Registry
end Stencil
