import Mathlib.Data.List.Perm.Basic
import Stencil.Grammar.Directory
import Stencil.Proofs.Grammar.Atomicity
import Stencil.Proofs.Source.Searching

/-! # The families in the order in which they are preferred

Over a history of registrations the families of a registry are the ones that were stored last under
their keys, in the order in which the keys were stored first: a family that is stored again takes the
place of the earlier one (`Registry.Collected`, which each stored family keeps).  Sorting them by
priority is stable, so that among families of one priority this order remains
(`Registry.Collected.listed`).

A directory answers from a list that it keeps.  The list is right whenever there is one
(`Directory.Coherent`), since storing a family drops it and nothing else changes the families.  So
whatever it was asked before, it lists what a registry with the same history would put in order, and
the search for a tag goes through that list (`Directory.listed_after`).
-/

namespace Stencil

/-- What a stable sort leaves behind: of two members, the earlier one may come first, and if the later
one may come first as well, then they stand as they did before. -/
theorem pairwise_mergeSort_stable {α : Type} {R : α → α → Prop} {le : α → α → Bool} {l : List α}
    (htrans : ∀ a b c, le a b = true → le b c = true → le a c = true)
    (htotal : ∀ a b, (le a b || le b a) = true) (h : l.Pairwise R) :
    (l.mergeSort le).Pairwise fun a b => le a b = true ∧ (le b a = true → R a b) := by
  -- the sort orders the members with their places, and no two have the same place
  have hsorted := List.pairwise_mergeSort (List.zipIdxLE_trans htrans)
    (List.zipIdxLE_total htotal) l.zipIdx
  have hperm := List.mergeSort_perm l.zipIdx (List.zipIdxLE le)
  have hnodup : (l.zipIdx.map Prod.snd).Nodup := by
    rw [List.zipIdx_map_snd]
    exact List.nodup_range'
  have hplaces : (l.zipIdx.mergeSort (List.zipIdxLE le)).Pairwise fun x y => x.2 ≠ y.2 :=
    hperm.symm.pairwise (List.pairwise_map.mp hnodup) Ne.symm
  rw [← List.mergeSort_zipIdx, List.pairwise_map]
  refine (hsorted.and hplaces).imp_of_mem fun {x y} hx hy hxy => ?_
  obtain ⟨hle, hne⟩ := hxy
  have hxget := List.mem_zipIdx_iff_getElem?.mp (hperm.mem_iff.mp hx)
  have hyget := List.mem_zipIdx_iff_getElem?.mp (hperm.mem_iff.mp hy)
  rw [List.zipIdxLE] at hle
  split at hle
  · rename_i hxy
    refine ⟨hxy, fun hyx => ?_⟩
    rw [if_pos hyx, decide_eq_true_eq] at hle
    obtain ⟨hi, hxi⟩ := List.getElem?_eq_some_iff.mp hxget
    obtain ⟨hj, hyj⟩ := List.getElem?_eq_some_iff.mp hyget
    rw [← hxi, ← hyj]
    exact List.pairwise_iff_getElem.mp h _ _ hi hj (Nat.lt_of_le_of_ne hle hne)
  · cases hle

namespace Registry
open Family

/-! ## The families that were stored -/

/-- A request stores a family if it registers one that the registry accepts. -/
theorem Event.family?_eq_some_iff {event : Event} {family : Family} :
    event.family? = some family ↔
      event.request = .family family ∧ event.before.Accepts family := by
  obtain ⟨registry, request⟩ := event
  cases request with
  | family other =>
    simp only [Event.family?, Event.registration, answer, Request.family.injEq]
    by_cases haccepts : registry.Accepts other
    · rw [fault_registerFamily_of_accepts haccepts]
      split <;> simp_all [eq_comm]
    · obtain ⟨fault, hrefusal, hrefused⟩ := registerFamily_of_not_accepts haccepts
      rw [hrefused]
      constructor
      · intro h
        cases fault <;> simp_all [RegistryFault.isRefusal]
      · rintro ⟨rfl, h⟩
        exact absurd h haccepts
  | handler key name handler => simp [Event.family?]
  | validate => simp [Event.family?]
  | freeze => simp [Event.family?]

/-- A request changes the families only by storing one. -/
theorem Event.families_after (event : Event) :
    event.after.families =
      event.family?.elim event.before.families (putFamily · event.before.families) := by
  cases hfamily : event.family? with
  | some family =>
    obtain ⟨hrequest, haccepts⟩ := Event.family?_eq_some_iff.mp hfamily
    rw [Event.after, Event.registration, hrequest]
    exact (stored_of_accepts haccepts).families
  | none =>
    obtain ⟨registry, request⟩ := event
    cases request with
    | family family =>
      have hnot : ¬ registry.Accepts family := fun haccepts => by
        rw [Event.family?_eq_some_iff.mpr ⟨rfl, haccepts⟩] at hfamily
        cases hfamily
      obtain ⟨fault, -, hrefused⟩ := registerFamily_of_not_accepts hnot
      rw [Event.after, Event.registration, answer, hrefused]
      rfl
    | handler key name handler => exact families_registerHandler registry key name handler
    | validate =>
      rw [Event.after, Event.registration, answer]
      split <;> rfl
    | freeze =>
      rw [Event.after, Event.registration, answer]
      split
      · rename_i hfreeze
        exact families_freeze hfreeze
      · rfl

/-- The families that a history stores, one after the other.  There may be several under a key. -/
def storedFamilies (events : List Event) : List Family := events.filterMap Event.family?

/-- Where the key of a family was stored first. -/
def rank (stored : List Family) (family : Family) : Nat :=
  stored.findIdx fun f => Value.sameKey family.key f.key

/-- A family that was stored, and no other one under its key after it. -/
def Current (stored : List Family) (family : Family) : Prop :=
  ∃ earlier later, stored = earlier ++ family :: later ∧ ∀ f ∈ later, Apart f family

theorem current_concat {stored : List Family} {family f : Family} :
    Current (stored ++ [family]) f ↔ f = family ∨ Current stored f ∧ Apart family f := by
  constructor
  · rintro ⟨earlier, later, heq, hlater⟩
    rcases List.eq_nil_or_concat later with rfl | ⟨rest, last, rfl⟩
    · exact Or.inl (List.append_inj_right' heq rfl |> List.singleton_inj.mp).symm
    · rw [List.concat_eq_append, ← List.cons_append, ← List.append_assoc] at heq
      obtain ⟨hstored, hlast⟩ := List.append_inj' heq rfl
      obtain rfl := List.singleton_inj.mp hlast
      rw [List.concat_eq_append, List.forall_mem_append, List.forall_mem_singleton] at hlater
      exact Or.inr ⟨⟨earlier, rest, hstored, hlater.1⟩, hlater.2⟩
  · rintro (rfl | ⟨⟨earlier, later, rfl, hlater⟩, hapart⟩)
    · exact ⟨stored, [], rfl, fun g hg => absurd hg List.not_mem_nil⟩
    · refine ⟨earlier, later ++ [family], by rw [List.append_assoc, List.cons_append], ?_⟩
      rw [List.forall_mem_append, List.forall_mem_singleton]
      exact ⟨hlater, hapart⟩

/-- The rank is one of the key. -/
theorem rank_congr {f g : Family} (h : Value.sameKey f.key g.key = true) (stored : List Family) :
    rank stored f = rank stored g := by
  have hsame : ∀ k, Value.sameKey f.key k = Value.sameKey g.key k := fun k => by
    rw [Bool.eq_iff_iff]
    exact ⟨Value.sameKey_trans (Value.sameKey_symm h), Value.sameKey_trans h⟩
  rw [rank, rank]
  simp only [hsame]

/-- A key that was stored before has its rank already. -/
theorem rank_concat_of_mem {stored : List Family} {f g : Family} (hg : g ∈ stored)
    (hsame : Value.sameKey f.key g.key = true) (family : Family) :
    rank (stored ++ [family]) f = rank stored f ∧ rank stored f < stored.length := by
  have hlt : rank stored f < stored.length := List.findIdx_lt_length_of_exists ⟨g, hg, hsame⟩
  refine ⟨?_, hlt⟩
  rw [rank, List.findIdx_append]
  exact if_pos hlt

/-- A new key comes last. -/
theorem rank_concat_self {stored : List Family} {family : Family}
    (hnew : ∀ f ∈ stored, Apart family f) (hkey : family.key.isKey = true) :
    rank (stored ++ [family]) family = stored.length := by
  have hlength : stored.findIdx (fun f => Value.sameKey family.key f.key) = stored.length :=
    List.findIdx_eq_length_of_false hnew
  rw [rank, List.findIdx_append, hlength, if_neg (Nat.lt_irrefl _), List.findIdx_singleton,
    if_pos (Value.sameKey_self hkey), Nat.zero_add]

/-! ## The families of a registry -/

/-- What storing a family leaves: the family itself, and those under other keys. -/
theorem mem_putFamily_iff {family f : Family} {families : List Family} (h : Keyed families) :
    f ∈ putFamily family families ↔ f = family ∨ f ∈ families ∧ Apart family f := by
  induction families with
  | nil => simp [putFamily]
  | cons first rest ih =>
    obtain ⟨hfirst, hdistinct⟩ := List.pairwise_cons.mp h.distinct
    have hrest : Keyed rest := ⟨fun g hg => h.keys g (List.mem_cons_of_mem first hg), hdistinct⟩
    rw [putFamily]
    cases hsame : Value.sameKey family.key first.key with
    | true =>
      -- the others are apart from the family since they are apart from the one that it replaces
      have hothers : ∀ g ∈ rest, Apart family g := fun g hg => (hfirst g hg).of_sameKey hsame
      rw [if_pos rfl, List.mem_cons, List.mem_cons]
      constructor
      · rintro (rfl | hf)
        · exact Or.inl rfl
        · exact Or.inr ⟨Or.inr hf, hothers f hf⟩
      · rintro (rfl | ⟨rfl | hf, hapart⟩)
        · exact Or.inl rfl
        · rw [Apart, hsame] at hapart
          cases hapart
        · exact Or.inr hf
    | false =>
      rw [if_neg Bool.false_ne_true, List.mem_cons, List.mem_cons, ih hrest]
      constructor
      · rintro (rfl | rfl | ⟨hf, hapart⟩)
        · exact Or.inr ⟨Or.inl rfl, hsame⟩
        · exact Or.inl rfl
        · exact Or.inr ⟨Or.inr hf, hapart⟩
      · rintro (rfl | ⟨rfl | hf, hapart⟩)
        · exact Or.inr (Or.inl rfl)
        · exact Or.inl rfl
        · exact Or.inr (Or.inr ⟨hf, hapart⟩)

/-- Storing a family keeps an order in which it has the place of the one under its key, or the last
place if there is none. -/
theorem pairwise_putFamily {place : Family → Nat} {family : Family} {families : List Family}
    (hold : ∀ f ∈ families, Value.sameKey family.key f.key = true → place family = place f)
    (hnew : (∀ f ∈ families, Apart family f) → ∀ f ∈ families, place f < place family)
    (h : families.Pairwise fun f g => place f < place g) :
    (putFamily family families).Pairwise fun f g => place f < place g := by
  induction families with
  | nil => exact List.pairwise_singleton _ _
  | cons first rest ih =>
    obtain ⟨hfirst, hrest⟩ := List.pairwise_cons.mp h
    obtain ⟨holdFirst, holdRest⟩ := List.forall_mem_cons.mp hold
    rw [putFamily]
    cases hsame : Value.sameKey family.key first.key with
    | true =>
      rw [if_pos rfl, List.pairwise_cons, holdFirst hsame]
      exact ⟨hfirst, hrest⟩
    | false =>
      have hnewRest : (∀ f ∈ rest, Apart family f) → ∀ f ∈ rest, place f < place family :=
        fun hall f hf => hnew (List.forall_mem_cons.mpr ⟨hsame, hall⟩) f (List.mem_cons_of_mem _ hf)
      rw [if_neg Bool.false_ne_true, List.pairwise_cons]
      refine ⟨fun f hf => ?_, ih holdRest hnewRest hrest⟩
      rcases mem_putFamily hf with rfl | hf
      · by_cases hall : ∀ g ∈ rest, Apart f g
        · exact hnew (List.forall_mem_cons.mpr ⟨hsame, hall⟩) first List.mem_cons_self
        · -- the family takes the place of a later one
          simp only [not_forall, Apart, Bool.not_eq_false] at hall
          obtain ⟨g, hg, hother⟩ := hall
          rw [holdRest g hg hother]
          exact hfirst g hg
      · exact hfirst f hf

/-- What the families of a registry are, by the families that were stored: under each key that was
stored the last one, in the order in which the keys were stored first. -/
structure Collected (stored families : List Family) : Prop where
  keyed : Keyed families
  mem_iff : ∀ f, f ∈ families ↔ Current stored f
  covered : ∀ f ∈ stored, ∃ g ∈ families, Value.sameKey f.key g.key = true
  ranked : families.Pairwise fun f g => rank stored f < rank stored g

theorem Collected.nil : Collected [] [] where
  keyed := ⟨fun _ hf => absurd hf List.not_mem_nil, .nil⟩
  mem_iff := fun f => ⟨fun hf => absurd hf List.not_mem_nil, fun ⟨earlier, later, heq, _⟩ =>
    absurd heq.symm (List.append_ne_nil_of_right_ne_nil earlier (List.cons_ne_nil f later))⟩
  covered := fun _ hf => absurd hf List.not_mem_nil
  ranked := .nil

/-- **One more family is stored.** -/
theorem Collected.put {stored families : List Family} (h : Collected stored families)
    {family : Family} (hkey : family.key.isKey = true) :
    Collected (stored ++ [family]) (putFamily family families) := by
  have hmem : ∀ f ∈ families, f ∈ stored := fun f hf => by
    obtain ⟨earlier, later, rfl, -⟩ := (h.mem_iff f).mp hf
    exact List.mem_append_right earlier List.mem_cons_self
  have hrank : ∀ f ∈ families, rank (stored ++ [family]) f = rank stored f ∧
      rank stored f < stored.length := fun f hf =>
    rank_concat_of_mem (hmem f hf) (Value.sameKey_self (h.keyed.keys f hf)) family
  refine ⟨keyed_putFamily hkey h.keyed, fun f => ?_, fun f hf => ?_, ?_⟩
  · rw [mem_putFamily_iff h.keyed, current_concat, h.mem_iff]
  · rcases List.mem_append.mp hf with hf | hf
    · obtain ⟨g, hg, hsame⟩ := h.covered f hf
      cases hother : Value.sameKey family.key g.key with
      | true =>
        exact ⟨family, (mem_putFamily_iff h.keyed).mpr (Or.inl rfl),
          Value.sameKey_trans hsame (Value.sameKey_symm hother)⟩
      | false => exact ⟨g, (mem_putFamily_iff h.keyed).mpr (Or.inr ⟨hg, hother⟩), hsame⟩
    · obtain rfl := List.mem_singleton.mp hf
      exact ⟨f, (mem_putFamily_iff h.keyed).mpr (Or.inl rfl), Value.sameKey_self hkey⟩
  · refine pairwise_putFamily (fun f _ hsame => rank_congr hsame _) (fun hall f hf => ?_) ?_
    · -- no family that was stored has the key
      have hnew : ∀ g ∈ stored, Apart family g := fun g hg => by
        obtain ⟨f, hf, hsame⟩ := h.covered g hg
        have hapart : Apart f family := Std.Symm.symm _ _ (hall f hf)
        exact Std.Symm.symm _ _ (hapart.of_sameKey hsame)
      rw [rank_concat_self hnew hkey, (hrank f hf).1]
      exact (hrank f hf).2
    · refine h.ranked.imp_of_mem fun {f g} hf hg hlt => ?_
      rw [(hrank f hf).1, (hrank g hg).1]
      exact hlt

theorem Collected.answer {stored : List Family} {registry : Registry}
    (h : Collected stored registry.families) (request : Request) :
    Collected (stored ++ storedFamilies [⟨registry, request⟩])
      (registry.answer request).registry.families := by
  have hfamilies := Event.families_after ⟨registry, request⟩
  rw [Event.after, Event.registration] at hfamilies
  rw [hfamilies, storedFamilies]
  cases hfamily : Event.family? ⟨registry, request⟩ with
  | none =>
    rw [List.filterMap_cons_none hfamily, List.filterMap_nil, List.append_nil]
    exact h
  | some family =>
    rw [List.filterMap_cons_some hfamily, List.filterMap_nil]
    exact h.put (Event.family?_eq_some_iff.mp hfamily).2.key

theorem Collected.after {stored : List Family} {registry : Registry}
    (h : Collected stored registry.families) (requests : List Request) :
    Collected (stored ++ storedFamilies (registry.history requests))
      (registry.after requests).families := by
  induction requests generalizing stored registry with
  | nil =>
    rw [history, storedFamilies, List.filterMap_nil, List.append_nil]
    exact h
  | cons request rest ih =>
    rw [history, Registry.after, ← List.singleton_append, storedFamilies, List.filterMap_append,
      ← List.append_assoc]
    exact ih (h.answer request)

/-- **The families of a registry are the ones that its history stored last.** -/
theorem collected_after (library : Library) (requests : List Request) :
    Collected (storedFamilies ((ofLibrary library).history requests))
      ((ofLibrary library).after requests).families := by
  have hempty : Collected [] (ofLibrary library).families := Collected.nil
  exact hempty.after requests

/-- What a list of families in the order of preference is, by the families that were stored: under
each key the last one, by descending priority, and of equal ones the one whose key was stored
first. -/
structure Listed (stored listed : List Family) : Prop where
  mem_iff : ∀ f, f ∈ listed ↔ Current stored f
  distinct : listed.Pairwise Apart
  sorted : listed.Pairwise fun f g =>
    g.priority < f.priority ∨ f.priority = g.priority ∧ rank stored f < rank stored g

theorem Collected.listed {stored : List Family} {registry : Registry}
    (h : Collected stored registry.families) : Listed stored registry.ordered := by
  have hperm : registry.ordered.Perm registry.families := List.mergeSort_perm _ _
  refine ⟨fun f => by rw [hperm.mem_iff, h.mem_iff], (h.keyed.perm hperm.symm).distinct, ?_⟩
  have htrans : ∀ a b c : Family, decide (b.priority ≤ a.priority) = true →
      decide (c.priority ≤ b.priority) = true → decide (c.priority ≤ a.priority) = true := by
    intro a b c hab hbc
    rw [decide_eq_true_eq] at hab hbc ⊢
    exact Int.le_trans hbc hab
  have htotal : ∀ a b : Family,
      (decide (b.priority ≤ a.priority) || decide (a.priority ≤ b.priority)) = true := by
    intro a b
    rw [Bool.or_eq_true, decide_eq_true_eq, decide_eq_true_eq]
    exact Int.le_total _ _
  refine (pairwise_mergeSort_stable htrans htotal h.ranked).imp fun {f g} hfg => ?_
  obtain ⟨hle, hrank⟩ := hfg
  rw [decide_eq_true_eq] at hle hrank
  rcases Int.lt_or_eq_of_le hle with hlt | heq
  · exact Or.inl hlt
  · exact Or.inr ⟨heq.symm, hrank (Int.le_of_eq heq.symm)⟩

end Registry

/-! ## The list that is kept -/

namespace Directory

/-- What can be asked of a directory: the families, the next tag of a text, or anything that a
registry can be asked. -/
inductive Step where
  | families
  | next (t : Text) (start : Int)
  | ask (request : Registry.Request)

/-- The directory after one thing was asked of it. -/
def take (directory : Directory) : Step → Directory
  | .families => directory.families.2
  | .next t start => (directory.nextAfter? t start).2
  | .ask (.family family) => (directory.registerFamily family).2
  | .ask request => directory.update (directory.registry.answer request).registry

/-- The directory after it was asked one thing after the other. -/
def after (directory : Directory) (steps : List Step) : Directory := steps.foldl take directory

/-- What a step asks of the registry, apart from its families. -/
def Step.request? : Step → Option Registry.Request
  | .ask request => some request
  | _ => none

/-- What steps ask of the registry, apart from its families. -/
def requests (steps : List Step) : List Registry.Request := steps.filterMap Step.request?

/-- The list that is kept, if there is one, is that of the registry. -/
def Coherent (directory : Directory) : Prop :=
  ∀ list ∈ directory.kept, list = directory.registry.ordered

theorem coherent_ofRegistry (registry : Registry) : (ofRegistry registry).Coherent :=
  fun _ h => nomatch h

/-- Asking for the families gives those of the registry, and keeps them. -/
theorem Coherent.families {directory : Directory} (h : directory.Coherent) :
    directory.families.1 = directory.registry.ordered ∧
      directory.families.2.registry = directory.registry ∧ directory.families.2.Coherent := by
  rw [Directory.families]
  cases hkept : directory.kept with
  | some list => exact ⟨h list hkept, rfl, h⟩
  | none => exact ⟨rfl, rfl, fun _ hlist => (Option.some.inj hlist).symm⟩

/-- Whatever leaves the families as they are leaves their list right. -/
theorem Coherent.update {directory : Directory} (h : directory.Coherent) {registry : Registry}
    (hfamilies : registry.families = directory.registry.families) :
    (directory.update registry).Coherent := fun list hlist => by
  rw [h list hlist, Registry.ordered, Registry.ordered, ← hfamilies]
  rfl

theorem Coherent.registerFamily {directory : Directory} (h : directory.Coherent)
    (family : Family) : (directory.registerFamily family).2.Coherent := by
  by_cases haccepts : directory.registry.Accepts family
  · -- the family is stored, and the list is dropped
    have hkept : (directory.registerFamily family).2.kept = none := by
      rw [Directory.registerFamily, Registry.fault_registerFamily_of_accepts haccepts]
      split <;> rfl
    intro list hlist
    rw [hkept] at hlist
    cases hlist
  · obtain ⟨fault, hrefusal, hrefused⟩ := Registry.registerFamily_of_not_accepts haccepts
    rw [Directory.registerFamily, hrefused, Option.any_some, if_pos hrefusal]
    exact h

/-- **One step**: the registry goes on as it does by itself, and the list that is kept stays right. -/
theorem Coherent.take {directory : Directory} (h : directory.Coherent) (step : Step) :
    (directory.take step).Coherent ∧
      (directory.take step).registry = directory.registry.after step.request?.toList := by
  cases step with
  | families => exact ⟨h.families.2.2, h.families.2.1⟩
  | next t start => exact ⟨h.families.2.2, h.families.2.1⟩
  | ask request =>
    have hfamilies := Registry.Event.families_after ⟨directory.registry, request⟩
    cases request with
    | family family => exact ⟨h.registerFamily family, rfl⟩
    | handler key name handler => exact ⟨h.update hfamilies, rfl⟩
    | validate => exact ⟨h.update hfamilies, rfl⟩
    | freeze => exact ⟨h.update hfamilies, rfl⟩

theorem Coherent.after {directory : Directory} (h : directory.Coherent) (steps : List Step) :
    (directory.after steps).Coherent ∧
      (directory.after steps).registry = directory.registry.after (requests steps) := by
  induction steps generalizing directory with
  | nil => exact ⟨h, rfl⟩
  | cons step rest ih =>
    obtain ⟨htaken, hregistry⟩ := h.take step
    obtain ⟨hafter, hrest⟩ := ih htaken
    refine ⟨hafter, hrest.trans ?_⟩
    rw [hregistry, requests, requests]
    cases hrequest : step.request? with
    | none => rw [List.filterMap_cons_none hrequest]; rfl
    | some request => rw [List.filterMap_cons_some hrequest]; rfl

/-- **The families of a directory, whatever it was asked before**, are those that were stored last
under their keys, each key once, by descending priority and then in the order in which the keys were
stored first.  Of a text it finds the first place, at or after a start, at which one of them opens,
and the one that comes first in the list among those that open there; and it finds nothing only if
none of them opens anywhere at or after the start. -/
theorem listed_after (library : Library) (steps : List Step) :
    let directory := (ofRegistry (.ofLibrary library)).after steps
    let events := (Registry.ofLibrary library).history (requests steps)
    Registry.Listed (Registry.storedFamilies events) directory.families.1 ∧
    ∀ (source : Text) (start : Nat),
      ((directory.nextAfter? source start).1 = none ↔
        ∀ family ∈ directory.families.1, ∀ k, start ≤ k →
          ¬ Text.OccursAt family.opener source k) ∧
      ∀ k family, (directory.nextAfter? source start).1 = some (k, family) ↔
        start ≤ k ∧ Family.IsFirstAt directory.families.1 source k family ∧
        ∀ j, start ≤ j → j < k →
          ∀ other ∈ directory.families.1, ¬ Text.OccursAt other.opener source j := by
  intro directory events
  obtain ⟨hcoherent, hregistry⟩ := (coherent_ofRegistry (.ofLibrary library)).after steps
  refine ⟨?_, fun source start => ?_⟩
  · rw [hcoherent.families.1, hregistry]
    exact (Registry.collected_after library (requests steps)).listed
  · have hnearest : (directory.nextAfter? source start).1 =
        Family.nearest? directory.families.1 source start := by
      show Family.nextAfter? directory.families.1 source start = _
      rw [Family.nextAfter?, if_neg (Int.not_lt.mpr (Int.natCast_nonneg start)), Int.toNat_natCast]
    rw [hnearest]
    refine ⟨?_, fun k family => Family.nearest?_eq_iff⟩
    rw [Family.nearest?_eq_iff]
    exact ⟨fun h family hfamily k hk => h k hk family hfamily,
      fun h k hk family hfamily => h family hfamily k hk⟩

end Directory
end Stencil
