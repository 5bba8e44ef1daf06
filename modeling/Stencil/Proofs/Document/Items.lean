import Stencil.Proofs.Document.Preservation

/-! # The items of a document

The segments of a document need not be those of a template, nor the families well formed: whatever
building accepts has a derivation (`Document.exists_items_of_ofSegments`).  A step of building says
what its segment was taken for, and that can be pushed (`Unfinished.exists_push_of_step`), so that
the beginning that has been built is followed from segment to segment.  In a verbatim tag a segment
need not be read at all; it is taken for a text then.

So every tag of a document is one that was read, and its family and its name are declared
(`Document.Holds.declared`).
-/

namespace Stencil

open Segment (Reads)

/-- What a segment can be taken for: what it is read as, or a text. -/
def Reading.Taken (families : List Family) (r : Reading) : Prop :=
  Reads families r.segment r ∨ r.tag = none

namespace Tag

/-- Reading a tag as an anonymous one gives a tag of one of the families. -/
theorem exists_of_readAnonymous {families : List Family} {family : Option Value} {raw : Text}
    {key : Value} {inner : Text} {arguments : Arguments}
    (h : readAnonymous families family raw = .ok (.anonymous key inner arguments)) :
    ∃ own ∈ families, key = own.key := by
  have hown : ∀ own, readAnonymousIn own raw = .ok (.anonymous key inner arguments) →
      key = own.key := by
    intro own hread
    obtain ⟨_, htag⟩ := readAnonymousIn_eq_ok hread
    exact (Tag.anonymous.inj htag).1
  rw [readAnonymous] at h
  split at h
  · split at h
    · cases h
    · split at h
      · rename_i own hfound
        exact ⟨own, List.mem_of_find?_eq_some hfound, hown own h⟩
      · cases h
  · split at h
    · rename_i index own hnext
      exact ⟨own, (Family.next?_eq_some_iff.mp hnext).1.mem, hown own h⟩
    · cases h

end Tag

/-- A tag without name that was read is one of the families. -/
theorem Segment.exists_of_reads_anonymous {families : List Family} {s : Segment} {key : Value}
    {raw : Text} {arguments : Arguments}
    (h : Reads families s ⟨s, some (.anonymous key raw arguments)⟩) :
    ∃ family ∈ families, key = family.key := by
  obtain ⟨family, read, -, hread, rfl | ⟨-, hanonymous, -⟩⟩ :=
    read_of_reads (r := ⟨s, some (.anonymous key raw arguments)⟩) h rfl
  · obtain ⟨own, hnext, ⟨-, names, -, hnamed⟩ | ⟨-, _, -, htag⟩⟩ := Tag.read_eq_some hread
    · obtain ⟨_, _, _, -, -, htag⟩ | ⟨_, _, _, _, -, -, htag⟩ := Tag.readNamed_eq_some hnamed
      · cases htag
      · cases htag
    · exact ⟨own, (Family.next?_eq_some_iff.mp hnext).1.mem, (Tag.anonymous.inj htag).1⟩
  · exact Tag.exists_of_readAnonymous hanonymous

namespace Unfinished

variable {families : List Family} {u v : Unfinished} {s : Segment} {b : Building}

/-- Adding a text in a verbatim tag is going on behind it. -/
theorem addText_building_verbatim {l : Level} (hverbatim : l.opening.verbatim = true)
    {outer : List Level} (hplain : ∀ m ∈ outer, m.opening.verbatim = false)
    {inside : List Reading} (hinside : ∀ r ∈ inside, l.opening.closedBy r = false) (r : Reading)
    (hmore : ∀ m ∈ inside ++ [r], l.opening.closedBy m = false) :
    (inVerbatim l hverbatim outer hplain inside hinside).building.addText r.segment.raw
        r.segment.position =
      (inVerbatim l hverbatim outer hplain (inside ++ [r]) hmore).building := by
  rw [building, building, Level.building_addText, next, next, List.length_append]
  congr 1
  exact (Reading.texts_concat _ inside r).symm

/-- A segment that is added as a text can be pushed as one. -/
theorem exists_push_text (u : Unfinished) (s : Segment) :
    ∃ v, u.push ⟨s, none⟩ = some v ∧ v.building = u.building.addText s.raw s.position := by
  cases u with
  | inRow levels hplain done => exact ⟨_, rfl, (addText_building levels hplain done s).symm⟩
  | inVerbatim l hverbatim outer hplain inside hinside =>
    have hopen : ¬ l.opening.closedBy ⟨s, none⟩ = true := Bool.false_ne_true
    rw [push, dif_neg hopen]
    exact ⟨_, rfl, (addText_building_verbatim hverbatim hplain hinside ⟨s, none⟩ _).symm⟩

/-- **A segment that is added can be pushed**, as what it was taken for. -/
theorem exists_push_of_step (h : Building.Step families u.building u.readings.length s b) :
    ∃ r v, r.segment = s ∧ r.Taken families ∧ u.push r = some v ∧ v.building = b := by
  cases h with
  | text hkind =>
    obtain ⟨v, hpush, hbuilding⟩ := u.exists_push_text s
    exact ⟨⟨s, none⟩, v, rfl, Or.inr rfl, hpush, hbuilding⟩
  | verbatim hkind hread hopen hinside =>
    obtain ⟨v, hpush, hbuilding⟩ := u.exists_push_text s
    exact ⟨⟨s, none⟩, v, rfl, Or.inr rfl, hpush, hbuilding⟩
  | @anonymous family key raw arguments hkind hread hinside =>
    cases u with
    | inRow levels hplain done =>
      refine ⟨⟨s, some (.anonymous key raw arguments)⟩, _, rfl, Or.inl ?_, rfl,
        (addAnonymous_building levels hplain done s key raw arguments).symm⟩
      rcases hread with hread | ⟨hread, hanonymous⟩
      · exact .tag hkind hread
      · exact .anonymous hkind hread hanonymous
    | inVerbatim l hverbatim outer hplain inside hclosed =>
      rw [building, Level.insideVerbatim_building] at hinside
      exact absurd (hverbatim.symm.trans hinside) Bool.noConfusion
  | @opening family name key isolated verbatim raw arguments hkind hread hinside =>
    cases u with
    | inRow levels hplain done =>
      exact ⟨⟨s, some (.opening name key isolated verbatim raw arguments)⟩, _, rfl,
        Or.inl (.tag hkind hread), rfl, (openTag_building levels hplain done
          ⟨s, name, key, isolated, verbatim, raw, arguments⟩).symm⟩
    | inVerbatim l hverbatim outer hplain inside hclosed =>
      rw [building, Level.insideVerbatim_building] at hinside
      exact absurd (hverbatim.symm.trans hinside) Bool.noConfusion
  | @closing family name key isolated verbatim hkind hread hcloses =>
    -- the innermost tag is closed, be it verbatim or not
    refine ⟨⟨s, some (.closing name key isolated verbatim)⟩, ?_⟩
    generalize hr : (⟨s, some (.closing name key isolated verbatim)⟩ : Reading) = r
    have htag : r.tag = some (.closing name key isolated verbatim) := by rw [← hr]
    have hsegment : r.segment = s := by rw [← hr]
    have htaken : r.Taken families := by
      rw [← hr]
      exact Or.inl (.tag hkind hread)
    rw [building, Level.closesInnermost_building _ _ _ htag] at hcloses
    cases u with
    | inRow levels hplain done =>
      cases levels with
      | nil => cases hcloses
      | cons l outer =>
        have hclosedBy : l.opening.closedBy r = true := hcloses
        refine ⟨_, hsegment, htaken, ?_, (closeTag_building_block hplain done hclosedBy).symm⟩
        rw [push]
        simp only [htag]
        rw [leave, dif_pos hclosedBy]
    | inVerbatim l hverbatim outer hplain inside hinside =>
      have hclosedBy : l.opening.closedBy r = true := hcloses
      refine ⟨_, hsegment, htaken, ?_,
        (closeTag_building_verbatim hverbatim hplain hinside hclosedBy).symm⟩
      rw [push, dif_pos hclosedBy]

/-- A row of segments that is added can be pushed. -/
theorem exists_pushAll_of_addAll {segments : List Segment}
    (h : u.building.addAll families u.readings.length segments = .ok b) :
    ∃ readings v, readings.map Reading.segment = segments ∧
      (∀ r ∈ readings, r.Taken families) ∧ u.pushAll readings = some v ∧ v.building = b := by
  induction segments generalizing u with
  | nil =>
    exact ⟨[], u, rfl, fun r hr => absurd hr List.not_mem_nil, rfl, Except.ok.inj h⟩
  | cons s rest ih =>
    rw [Building.addAll] at h
    cases hadd : u.building.add families u.readings.length s with
    | error fault => simp [hadd] at h
    | ok next =>
      simp only [hadd] at h
      obtain ⟨r, v, rfl, htaken, hpush, rfl⟩ :=
        exists_push_of_step (Building.add_eq_ok_iff.mp hadd)
      have hlength : v.readings.length = u.readings.length + 1 := by
        rw [readings_push hpush, List.length_append, List.length_singleton]
      rw [← hlength] at h
      obtain ⟨readings, w, hsegments, hall, hpushAll, hbuilding⟩ := ih h
      refine ⟨r :: readings, w, ?_, List.forall_mem_cons.mpr ⟨htaken, hall⟩, ?_, hbuilding⟩
      · rw [List.map_cons, hsegments]
      · exact Option.bind_eq_some_iff.mpr ⟨v, hpush, hpushAll⟩

end Unfinished

namespace Document

variable {families : List Family} {segments : List Segment} {document : Document}

/-- **A document that was built has a derivation**, and the nodes of its items. -/
theorem exists_items_of_ofSegments (h : ofSegments families segments = .ok document) :
    ∃ items, (Item.readingsAll items).map Reading.segment = segments ∧
      (∀ r ∈ Item.readingsAll items, r.Taken families) ∧
      document = ⟨Item.nodes 1 0 false items, segments⟩ := by
  obtain ⟨b, hall, hstack, rfl⟩ := ofSegments_eq_ok_iff.mp h
  obtain ⟨readings, v, hsegments, htaken, hpush, rfl⟩ :=
    Unfinished.exists_pushAll_of_addAll (u := .start) hall
  cases v with
  | inRow levels hplain done =>
    cases levels with
    | nil =>
      have hreadings : Item.readingsAll done = readings := Unfinished.readings_pushAll hpush
      rw [← hreadings] at hsegments htaken
      refine ⟨done, hsegments, htaken, ?_⟩
      exact congrArg (Document.mk · segments) (List.reverse_reverse _)
    | cons l outer => cases hstack
  | inVerbatim l hverbatim outer hplain inside hinside => cases hstack

/-- **Every tag of a document is declared**: its family is one of the families, which declares its
name, if it has one. -/
theorem Holds.declared (hbuilt : ofSegments families segments = .ok document) {id : Nat}
    {head : TagHead} {closing : Option Nat} {children : List Node}
    (h : document.Holds (.tag id head closing children)) :
    ∃ family ∈ families, head.family = family.key ∧
      ∀ name ∈ head.name, ∃ spec ∈ family.tags, spec.name = .text name := by
  obtain ⟨items, -, htaken, rfl⟩ := exists_items_of_ofSegments hbuilt
  obtain ⟨row, hrow, htag⟩ := h
  have hplaced := hrow.placed rfl
  cases closing with
  | none =>
    obtain ⟨before, s, after, hsplit, -, hname, -⟩ := hplaced.exists_anonymous htag
    have hmem := hsplit ▸ List.mem_append_right before List.mem_cons_self
    rcases htaken _ hmem with hread | hnone
    · obtain ⟨family, hfamily, hkey⟩ := Segment.exists_of_reads_anonymous hread
      refine ⟨family, hfamily, hkey, fun name h => ?_⟩
      rw [hname] at h
      cases h
    · cases hnone
  | some index =>
    obtain ⟨before, o, inside, closing, after, hnamed⟩ := hplaced.exists_namedAt htag
    have hmem : o.reading ∈ Item.readingsAll items :=
      hnamed.split ▸ List.mem_append_right before List.mem_cons_self
    rcases htaken _ hmem with hread | hnone
    · obtain ⟨_, read, -, hread, rfl | ⟨-, -, _, _, _, heq⟩⟩ :=
        Segment.read_of_reads (r := o.reading) hread rfl
      · obtain ⟨family, hfamily, spec, hspec, hname, hkey, -⟩ := Tag.read_eq_opening hread
        rw [hnamed.head]
        refine ⟨family, hfamily, hkey, fun name h => ⟨spec, hspec, ?_⟩⟩
        rw [hname, Option.some.inj h]
      · cases heq
    · cases hnone

end Document
end Stencil
