import Stencil.Proofs.Document.Preservation
import Stencil.Proofs.Source.Places

/-! # Where the nodes of a document are

A document has no places of its own.  A text has the position of its segment, and a tag that of the
segment that it was read off from (`Node.Sited`); this holds of the nodes of a row of items by
induction on the items, and so of all nodes at any depth (`Document.inPlace_of_holds`).  The fault
of a template that is not parsed is about one of its tags as well, be it a tag without closer, a
closing tag that closes nothing, or a tag that is never closed (`Program.position_of_parse`).
-/

namespace Stencil

/-- A node with the positions of the segments that it and the nodes inside are built from. -/
inductive Node.Sited (segments : List Segment) : Node → Prop
  | text {id : Nat} {s : Segment} {attached : Bool} (hs : s ∈ segments) :
      Sited segments (.text id s.raw s.position attached)
  | tag {id : Nat} {head : TagHead} {closing : Option Nat} {children : List Node} {s : Segment}
      (hs : segments[head.segment]? = some s) (htag : s.isTag = true)
      (hposition : head.position = s.position) (hchildren : ∀ n ∈ children, Sited segments n) :
      Sited segments (.tag id head closing children)

theorem Node.Sited.infront {segments : List Segment} {n : Node} (h : n.Sited segments)
    (isolated : Bool) : (n.infront isolated).Sited segments := by
  cases h with
  | text hs => exact .text hs
  | tag hs htag hposition hchildren => exact .tag hs htag hposition hchildren

namespace Segment

/-- What is read as a tag is one. -/
theorem isTag_of_reads {families : List Family} {r : Reading} {tag : Tag}
    (hread : Reads families r.segment r) (htag : r.tag = some tag) : r.segment.isTag = true := by
  obtain ⟨family, read, hkind, -⟩ := read_of_reads hread htag
  rw [isTag, hkind]

end Segment

/-! ## The nodes of items -/

section
open Segment (Reads)

variable {families : List Family} {readings : List Reading}

theorem Reading.sited_texts {id : Nat} {inside : List Reading} (h : ∀ r ∈ inside, r ∈ readings) :
    ∀ n ∈ texts id inside, n.Sited (readings.map Reading.segment) := by
  induction inside generalizing id with
  | nil => exact fun n hn => absurd hn List.not_mem_nil
  | cons r rest ih =>
    obtain ⟨hr, hrest⟩ := List.forall_mem_cons.mp h
    intro n hn
    rcases List.mem_cons.mp hn with rfl | hn
    · exact .text (List.mem_map_of_mem hr)
    · exact ih hrest n hn

/-- A tag that is read at the index that its node has. -/
theorem Node.sited_tag (hread : ∀ r ∈ readings, Reads families r.segment r)
    {before after : List Reading} {r : Reading} {tag : Tag} (htag : r.tag = some tag)
    (h : readings = before ++ r :: after) {id : Nat} {head : TagHead} {closing : Option Nat}
    {children : List Node} (hindex : head.segment = before.length)
    (hposition : head.position = r.segment.position)
    (hchildren : ∀ n ∈ children, n.Sited (readings.map Reading.segment)) :
    (Node.tag id head closing children).Sited (readings.map Reading.segment) := by
  have hmem : r ∈ readings := h ▸ List.mem_append_right before List.mem_cons_self
  refine .tag ?_ (Segment.isTag_of_reads (hread r hmem) htag) hposition hchildren
  simp [hindex, h]

mutual

/-- The node of an item has the positions of what the item was read off from. -/
theorem Item.sited_node (hread : ∀ r ∈ readings, Reads families r.segment r)
    {before after : List Reading} (id : Nat) : ∀ item : Item,
    readings = before ++ (item.readings ++ after) →
      (item.node id before.length).Sited (readings.map Reading.segment)
  | .text segment, h => by
    rw [node]
    exact .text (List.mem_map.mpr ⟨⟨segment, none⟩, by simp [h, Item.readings], rfl⟩)
  | .anonymous segment family raw arguments, h => by
    rw [node]
    exact Node.sited_tag hread (r := ⟨segment, some (.anonymous family raw arguments)⟩) rfl h rfl
      rfl fun n hn => absurd hn List.not_mem_nil
  | .block o hplain inside closing hcloses, h => by
    have hopen : readings = before ++ o.reading :: (readingsAll inside ++ closing :: after) := by
      simpa [Item.readings] using h
    have hinside : readings =
        (before ++ [o.reading]) ++ (readingsAll inside ++ closing :: after) := by
      simpa using hopen
    have hnodes := sited_nodes hread (id + 1) false inside hinside
    rw [List.length_append] at hnodes
    rw [node]
    exact Node.sited_tag hread rfl hopen rfl rfl hnodes
  | .verbatim o hverbatim inside hinside closing hcloses, h => by
    have hopen : readings = before ++ o.reading :: (inside ++ closing :: after) := by
      simpa [Item.readings] using h
    rw [node]
    refine Node.sited_tag hread rfl hopen rfl rfl (Reading.sited_texts fun r hr => ?_)
    rw [hopen]
    exact List.mem_append_right _ (List.mem_cons_of_mem _ (List.mem_append_left _ hr))

/-- **The nodes of a row of items** have the positions of what the items were read off from. -/
theorem Item.sited_nodes (hread : ∀ r ∈ readings, Reads families r.segment r)
    {before after : List Reading} (id : Nat) (isolated : Bool) : ∀ items : List Item,
    readings = before ++ (readingsAll items ++ after) →
      ∀ n ∈ nodes id before.length isolated items, n.Sited (readings.map Reading.segment)
  | [], _, n, hn => absurd hn List.not_mem_nil
  | item :: rest, h, n, hn => by
    rw [readingsAll, List.append_assoc] at h
    have hrest : readings = (before ++ item.readings) ++ (readingsAll rest ++ after) := by
      rw [h, List.append_assoc]
    rw [nodes] at hn
    rcases List.mem_cons.mp hn with rfl | hn
    · exact (sited_node hread id item h).infront _
    · rw [← List.length_append] at hn
      exact sited_nodes hread (id + item.count) isolated rest hrest n hn

end

end

/-! ## The nodes of a document -/

namespace Segment
variable {families : List Family} {source : Text} {segments : List Segment}

/-- The position of a segment that is a tag is where a tag begins. -/
theorem opensAt_of_mem (hcut : cut families source = .ok segments) {s : Segment}
    (hs : s ∈ segments) (htag : s.isTag = true) : OpensAt families source s.position := by
  obtain ⟨before, after, rfl⟩ := List.append_of_mem hs
  exact (position_of_cut hcut).2 htag

end Segment

/-- The position of a node is that of its segment in the source: a text begins where its segment
does, and at the position of a tag a tag begins. -/
def Node.InPlace (families : List Family) (source : Text) (segments : List Segment) : Node → Prop
  | .text _ t position _ => ∃ before s after, segments = before ++ s :: after ∧ s.raw = t ∧
      position = .ofOffset source (Segment.joined before).length
  | .tag _ head _ _ => Segment.OpensAt families source head.position ∧
      ∃ s, segments[head.segment]? = some s ∧ s.position = head.position

namespace Document
open Segment (joined Reads)

variable {registry : Registry} {template : Text}

/-- A row of a document has the positions of its segments. -/
theorem Row.sited {document : Document} (hchildren : ∀ n ∈ document.children,
      n.Sited document.segments) {row : List Node} (h : Row document row) :
    ∀ n ∈ row, n.Sited document.segments := by
  induction h with
  | whole => exact hchildren
  | inside hrow htag ih =>
    cases ih _ htag with
    | tag hs htag hposition hinside => exact hinside

/-- **Every node of a template is in place**, at any depth. -/
theorem inPlace_of_holds (hmade : registry.Made) {document : Document}
    (hparse : Program.parse registry template = .ok document) {n : Node} (h : document.Holds n) :
    n.InPlace registry.ordered template document.segments := by
  obtain ⟨items, hcut, hreadings, hdocument⟩ := exists_items_of_parse hmade hparse
  have hsegments := Segment.map_segment_of_readAll hreadings
  have hread : ∀ r ∈ Item.readingsAll items, Reads registry.ordered r.segment r :=
    fun r hr => (Segment.reads_of_mem_readAll hreadings hr).2
  have hsplit : Item.readingsAll items = [] ++ (Item.readingsAll items ++ []) := by simp
  have hsited := Item.sited_nodes hread 1 false items hsplit
  rw [hsegments] at hsited
  obtain ⟨row, hrow, hn⟩ := h
  cases hrow.sited (hdocument ▸ hsited) n hn with
  | text hs =>
    obtain ⟨before, after, hsplit⟩ := List.append_of_mem hs
    exact ⟨before, _, after, hsplit, rfl, (Segment.position_of_cut (hsplit ▸ hcut)).1⟩
  | tag hs htag hposition hinside =>
    refine ⟨?_, _, hs, hposition.symm⟩
    rw [hposition]
    exact Segment.opensAt_of_mem hcut (List.mem_of_getElem? hs) htag

end Document

/-! ## Templates that are not parsed -/

/-- The innermost open tag has been read. -/
theorem Unfinished.reading_mem_of_innermost? {u : Unfinished} {o : Opening}
    (h : u.innermost? = some o) : o.reading ∈ u.readings := by
  rw [innermost?] at h
  cases hlevels : u.levels with
  | nil => simp [hlevels] at h
  | cons l outer =>
    rw [hlevels] at h
    obtain rfl := Option.some.inj h
    simp [readings, hlevels, Level.readingsAll]

namespace Program

variable {registry : Registry} {template : Text}

/-- **The fault of a template that is not parsed** is of a documented class and about a tag of the
template. -/
theorem position_of_parse (hmade : registry.Made) {fault : CompileFault}
    (h : parse registry template = .error fault) :
    ∃ faultClass p, fault.class? = some faultClass ∧ fault.position? = some p ∧
      Segment.OpensAt registry.ordered template p := by
  rw [parse] at h
  cases hcut : Segment.cut registry.ordered template with
  | error unterminated =>
    simp only [hcut, Except.error.injEq] at h
    have hdangling := Segment.describes_cut registry.ordered template
    rw [hcut] at hdangling
    exact h ▸ ⟨_, _, rfl, rfl, Segment.opensAt_of_isDangling hdangling⟩
  | ok segments =>
    simp only [hcut] at h
    obtain ⟨readings, hreadings, hfollows⟩ := Document.exists_follows_of_cut hmade hcut
    cases hbuild : Document.ofSegments registry.ordered segments with
    | ok document => simp [hbuild, Except.mapError] at h
    | error buildFault =>
      simp only [hbuild, Except.mapError, Except.error.injEq] at h
      rw [hbuild] at hfollows
      have htag : ∀ r ∈ readings, ∀ tag, r.tag = some tag →
          Segment.OpensAt registry.ordered template r.segment.position := by
        intro r hr tag htag
        obtain ⟨hmem, hread⟩ := Segment.reads_of_mem_readAll hreadings hr
        exact Segment.opensAt_of_mem hcut hmem (Segment.isTag_of_reads hread htag)
      cases buildFault with
      | unexpectedClosing name innermost position =>
        obtain ⟨before, closing, after, rfl, ⟨key, isolated, verbatim, hclosing⟩, -, -, -, rfl⟩ :=
          hfollows
        exact h ▸ ⟨_, _, rfl, rfl, htag closing (by simp) _ hclosing⟩
      | neverClosed name position =>
        obtain ⟨-, whole, o, rfl, ho, -, rfl⟩ := hfollows
        exact h ▸ ⟨_, _, rfl, rfl,
          htag o.reading (Unfinished.reading_mem_of_innermost? ho) _ rfl⟩
      | unreadable inner =>
        exact absurd hbuild (Document.ofSegments_ne_unreadable hmade hcut inner)

end Program
end Stencil
