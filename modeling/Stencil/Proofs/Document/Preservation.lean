import Stencil.Proofs.Document.Derivation
import Stencil.Proofs.Source.Concatenation

/-! # What a document keeps of its template

No text of a template is lost, moved or doubled when its document is built.  A node stands for a
stretch of the template (`Node.written`): a text for its value, a tag without name for its segment,
and a tag with a name for the segments from its opening to its closing tag.  The nodes of every row,
detached ones in their places, stand for what the row was built from; for the document this is the
template, and for a tag what stands between its opening and its closing tag (`Document.Keeps`).

All of this is read off the derivation.  Every row of a document is that of a row of items, or of
what was read inside a verbatim tag, at a known place among the readings of the template
(`Document.Placed`); for this holds of the row outside all tags, and with a row of all rows in it.
-/

namespace Stencil

/-- What stands where a segment has an index. -/
def Segment.rawAt (segments : List Segment) (index : Nat) : Text :=
  match segments[index]? with
  | some s => s.raw
  | none => []

/-- The source of a tag, given the index of the segment that closes it. -/
def Segment.sourceOf (segments : List Segment) (head : TagHead) (index : Nat) : Text :=
  Occurrence.source ⟨head, Document.enclosed segments head (some index)⟩

/-- The stretch of a template that a node stands for. -/
def Node.written (segments : List Segment) : Node → Text
  | .text _ t _ _ => t
  | .tag _ head none _ => Segment.rawAt segments head.segment
  | .tag _ head (some index) _ =>
    Segment.rawAt segments head.segment ++ Segment.sourceOf segments head index ++
      Segment.rawAt segments index

namespace Document

/-- The rows of nodes in a document: the one outside all tags, and those inside the tags of a
row. -/
inductive Row (document : Document) : List Node → Prop
  | whole : Row document document.children
  | inside {row children : List Node} {id : Nat} {head : TagHead} {closing : Option Nat}
      (hrow : Row document row) (htag : .tag id head closing children ∈ row) :
      Row document children

/-- A node of a document, at any depth. -/
def Holds (document : Document) (n : Node) : Prop := ∃ row, Row document row ∧ n ∈ row

theorem holds_of_mem_children (document : Document) : ∀ n ∈ document.children, document.Holds n :=
  fun _ hn => ⟨document.children, .whole, hn⟩

/-- What is inside a tag of a document is in the document. -/
theorem Holds.inside {document : Document} {id : Nat} {head : TagHead} {closing : Option Nat}
    {children : List Node} (h : document.Holds (.tag id head closing children)) :
    ∀ n ∈ children, document.Holds n := by
  obtain ⟨row, hrow, htag⟩ := h
  exact fun n hn => ⟨children, hrow.inside htag, hn⟩

/-- The opening tag that a node tells of. -/
structure OpenedBy (families : List Family) (document : Document) (head : TagHead)
    (o : Opening) : Prop where
  segment : document.segments[head.segment]? = some o.segment
  read : Tag.read families o.segment.raw = .ok o.reading.tag
  head : head = o.head head.segment

/-- What a document keeps of a tag with a name. -/
structure KeepsNamed (families : List Family) (template : Text) (document : Document)
    (head : TagHead) (index : Nat) (children : List Node) (o : Opening) (closing : Segment) :
    Prop where
  opened : OpenedBy families document head o
  closed : document.segments[index]? = some closing
  /-- The closing tag has the name and the family of the opening one. -/
  closes : ∃ key isolated verbatim,
    Tag.read families closing.raw = .ok (some (.closing o.name key isolated verbatim)) ∧
      Value.sameKey key o.family = true
  /-- The source of the tag is what stands between the two in the template. -/
  source : Segment.sourceOf document.segments head index =
    (template.take closing.position.offset).drop (o.segment.position.offset + o.segment.raw.length)
  /-- It is what the nodes inside stand for. -/
  inside : children.flatMap (Node.written document.segments) =
    Segment.sourceOf document.segments head index
  /-- In a verbatim tag there are texts only, and none is detached. -/
  verbatim : o.verbatim = true → ∀ n ∈ children, n.isText = true ∧ n.isAttached = true

/-- What a document keeps of the template. -/
structure Keeps (families : List Family) (template : Text) (document : Document) : Prop where
  /-- The document stands for the template. -/
  whole : document.children.flatMap (Node.written document.segments) = template
  named : ∀ {row}, Row document row → ∀ {id head index children},
    .tag id head (some index) children ∈ row →
      ∃ o closing, KeepsNamed families template document head index children o closing
  /-- A tag without name is a leaf, and its segment is opener, text and closer. -/
  anonymous : ∀ {row}, Row document row → ∀ {id head children},
    .tag id head none children ∈ row → children = [] ∧ head.name = none ∧
      ∃ family ∈ families, head.family = family.key ∧
        Segment.rawAt document.segments head.segment = family.opener ++ head.raw ++ family.closer
  /-- A detached node is whitespace in front of an isolated tag with the next number. -/
  detached : ∀ {row}, Row document row → ∀ {front id t position rest},
    row = front ++ .text id t position false :: rest → Text.allBlank t = true ∧
      ∃ head index inside more o, rest = .tag (id + 1) head (some index) inside :: more ∧
        OpenedBy families document head o ∧ o.isolated = true

end Document

/-! ## The nodes of items -/

theorem Node.eq_tag_of_infront {n : Node} {isolated : Bool} {id : Nat} {head : TagHead}
    {closing : Option Nat} {children : List Node}
    (h : n.infront isolated = .tag id head closing children) :
    n = .tag id head closing children := by
  cases n with
  | text => cases h
  | tag => exact h

theorem Node.written_infront (segments : List Segment) (n : Node) (isolated : Bool) :
    (n.infront isolated).written segments = n.written segments := by
  cases n <;> rfl

/-- A node of a row is that of an item, and behind it are those of the items behind the item. -/
theorem Item.exists_of_nodes_eq {id index : Nat} {isolated : Bool} {items : List Item}
    {front rest : List Node} {n : Node} (h : nodes id index isolated items = front ++ n :: rest) :
    ∃ a item b, items = a ++ item :: b ∧
      n = (item.node (id + countAll a) (index + (readingsAll a).length)).infront
        (follows isolated b) ∧
      rest = nodes (id + countAll a + item.count)
        (index + (readingsAll a).length + item.readings.length) isolated b := by
  induction items generalizing id index front with
  | nil => simp [nodes] at h
  | cons first more ih =>
    rw [nodes] at h
    cases front with
    | nil =>
      obtain ⟨hn, hrest⟩ := List.cons.inj h
      exact ⟨[], first, more, rfl, hn.symm, hrest.symm⟩
    | cons m front =>
      obtain ⟨-, hmore⟩ := List.cons.inj h
      obtain ⟨a, item, b, rfl, hn, hrest⟩ := ih hmore
      refine ⟨first :: a, item, b, rfl, ?_, ?_⟩
      · rw [hn, countAll, readingsAll, List.length_append, Nat.add_assoc, Nat.add_assoc]
      · rw [hrest, countAll, readingsAll, List.length_append]
        simp only [Nat.add_assoc]

/-- A row that begins with an isolated tag has this tag for its first node. -/
theorem Item.exists_of_follows {items : List Item} (h : follows false items = true)
    (id index : Nat) :
    ∃ (o : Opening) (later : List Reading) (last : Nat) (inside rest : List Node),
      o.isolated = true ∧ readingsAll items = o.reading :: later ∧
        nodes id index false items = .tag id (o.head index) (some last) inside :: rest := by
  cases items with
  | nil => cases h
  | cons item rest =>
    cases item with
    | text | anonymous => cases h
    | block o hplain inside closing hcloses => exact ⟨o, _, _, _, _, h, rfl, rfl⟩
    | verbatim o hverbatim inside hinside closing hcloses => exact ⟨o, _, _, _, _, h, rfl, rfl⟩

theorem Reading.eq_text_of_mem_texts {id : Nat} {readings : List Reading} {n : Node}
    (h : n ∈ texts id readings) : ∃ i t position, n = .text i t position true := by
  induction readings generalizing id with
  | nil => exact absurd h List.not_mem_nil
  | cons r rest ih =>
    rcases List.mem_cons.mp h with rfl | h
    · exact ⟨_, _, _, rfl⟩
    · exact ih h

/-! ## What nodes stand for -/

section
variable {before inside after : List Reading}

theorem Segment.rawAt_map {r : Reading} {readings : List Reading}
    (h : readings = before ++ r :: after) :
    rawAt (readings.map Reading.segment) before.length = r.segment.raw := by
  simp [rawAt, h]

/-- The source of a tag is what was read inside. -/
theorem Segment.sourceOf_map {readings : List Reading} {opening closing : Reading} {head : TagHead}
    (h : readings = before ++ opening :: (inside ++ closing :: after))
    (hhead : head.segment = before.length) :
    sourceOf (readings.map Reading.segment) head (before.length + 1 + inside.length) =
      joined (inside.map Reading.segment) := by
  have hdrop : (readings.map Reading.segment).drop (before.length + 1) =
      (inside ++ closing :: after).map Reading.segment := by
    rw [h, ← List.map_drop, ← List.drop_drop, List.drop_left]
    rfl
  have hlength : before.length + 1 + inside.length - (before.length + 1) = inside.length := by omega
  rw [sourceOf, Occurrence.source, Document.enclosed]
  simp only [hhead]
  rw [hdrop, hlength, ← List.map_take, List.take_left]

theorem Reading.written_texts (segments : List Segment) (id : Nat) (readings : List Reading) :
    (texts id readings).flatMap (Node.written segments) =
      Segment.joined (readings.map Reading.segment) := by
  induction readings generalizing id with
  | nil => rfl
  | cons r rest ih =>
    rw [texts, List.flatMap_cons, ih, List.map_cons, Segment.joined_cons]
    rfl

/-- The node of an item stands for what the item was read off from. -/
theorem Item.written_node {readings : List Reading} {item : Item}
    (h : readings = before ++ (item.readings ++ after)) (id : Nat) :
    (item.node id before.length).written (readings.map Reading.segment) =
      Segment.joined (item.readings.map Reading.segment) := by
  have hnamed : ∀ (o : Opening) (inside : List Reading) (closing : Reading),
      item.readings = o.reading :: (inside ++ [closing]) →
      Segment.rawAt (readings.map Reading.segment) before.length ++
        Segment.sourceOf (readings.map Reading.segment) (o.head before.length)
          (before.length + 1 + inside.length) ++
        Segment.rawAt (readings.map Reading.segment) (before.length + 1 + inside.length) =
      Segment.joined (item.readings.map Reading.segment) := by
    intro o inside closing hitem
    have hopen : readings = before ++ o.reading :: (inside ++ closing :: after) := by
      rw [h, hitem]
      simp
    have hclose : readings = (before ++ o.reading :: inside) ++ closing :: after := by
      rw [hopen]
      simp
    have hindex : (before ++ o.reading :: inside).length = before.length + 1 + inside.length := by
      simp only [List.length_append, List.length_cons]
      omega
    rw [Segment.rawAt_map hopen, Segment.sourceOf_map hopen rfl, ← hindex,
      Segment.rawAt_map hclose, hitem]
    simp [Segment.joined_append]
  cases item with
  | text segment => simp [node, Node.written, Item.readings]
  | anonymous segment family raw arguments =>
    rw [node, Node.written, Segment.rawAt_map h]
    simp [Item.readings]
  | block o hplain inside closing hcloses => exact hnamed o (readingsAll inside) closing rfl
  | verbatim o hverbatim inside hinside closing hcloses => exact hnamed o inside closing rfl

/-- **The nodes of a row of items stand for what the items were read off from.** -/
theorem Item.written_nodes {readings : List Reading} {items : List Item}
    (h : readings = before ++ (readingsAll items ++ after)) (id : Nat) (isolated : Bool) :
    (nodes id before.length isolated items).flatMap (Node.written (readings.map Reading.segment)) =
      Segment.joined ((readingsAll items).map Reading.segment) := by
  induction items generalizing before id with
  | nil => rfl
  | cons item rest ih =>
    have hitem : readings = before ++ (item.readings ++ (readingsAll rest ++ after)) := by
      rw [h, readingsAll, List.append_assoc]
    have hrest : readings = (before ++ item.readings) ++ (readingsAll rest ++ after) := by
      rw [hitem, List.append_assoc]
    rw [nodes, List.flatMap_cons, Node.written_infront, written_node hitem,
      ← List.length_append, ih hrest, readingsAll, List.map_append, Segment.joined_append]

end

/-! ## The rows of a document -/

namespace Document
open Segment (Reads joined)

/-- A row of nodes that is built from a piece of what was read. -/
inductive Placed (readings : List Reading) : List Node → Prop
  | items (id : Nat) {before after : List Reading} {items : List Item}
      (h : readings = before ++ (Item.readingsAll items ++ after)) :
      Placed readings (Item.nodes id before.length false items)
  | texts (id : Nat) (inside : List Reading) : Placed readings (Reading.texts id inside)

/-- A tag with a name that is built from a piece of what was read. -/
structure NamedAt (readings : List Reading) (head : TagHead) (index : Nat) (children : List Node)
    (before : List Reading) (o : Opening) (inside : List Reading) (closing : Reading)
    (after : List Reading) : Prop where
  split : readings = before ++ o.reading :: (inside ++ closing :: after)
  head : head = o.head before.length
  index : index = before.length + 1 + inside.length
  closes : o.closedBy closing = true
  placed : Placed readings children
  written : children.flatMap (Node.written (readings.map Reading.segment)) =
    joined (inside.map Reading.segment)
  verbatim : o.verbatim = true → ∀ n ∈ children, n.isText = true ∧ n.isAttached = true

variable {readings : List Reading} {row : List Node}

/-- The item that a tag of a row is built from. -/
theorem Placed.exists_item (h : Placed readings row) {id : Nat} {head : TagHead}
    {closing : Option Nat} {children : List Node} (htag : .tag id head closing children ∈ row) :
    ∃ (before : List Reading) (item : Item) (after : List Reading) (i : Nat),
      readings = before ++ (item.readings ++ after) ∧
      item.node i before.length = Node.tag id head closing children := by
  cases h with
  | texts first inside =>
    obtain ⟨i, t, position, heq⟩ := Reading.eq_text_of_mem_texts htag
    cases heq
  | items first hsplit =>
    obtain ⟨front, rest, heq⟩ := List.append_of_mem htag
    obtain ⟨a, item, b, rfl, hn, -⟩ := Item.exists_of_nodes_eq heq
    rename_i before after
    refine ⟨before ++ Item.readingsAll a, item, Item.readingsAll b ++ after,
      first + Item.countAll a, ?_, ?_⟩
    · rw [hsplit, Item.readingsAll_append, Item.readingsAll]
      simp only [List.append_assoc]
    · rw [List.length_append]
      exact Node.eq_tag_of_infront hn.symm

/-- A tag with a name is built from what was read from its opening to its closing tag. -/
theorem Placed.exists_namedAt (h : Placed readings row) {id : Nat} {head : TagHead} {index : Nat}
    {children : List Node} (htag : .tag id head (some index) children ∈ row) :
    ∃ before o inside closing after,
      NamedAt readings head index children before o inside closing after := by
  obtain ⟨before, item, after, i, hsplit, hnode⟩ := h.exists_item htag
  cases item with
  | text segment => cases hnode
  | anonymous segment family raw arguments => cases hnode
  | block o hplain items closing hcloses =>
    obtain ⟨-, rfl, hindex, rfl⟩ := Node.tag.inj hnode
    have hlength : (before ++ [o.reading]).length = before.length + 1 := List.length_append
    have hinside : readings =
        (before ++ [o.reading]) ++ (Item.readingsAll items ++ closing :: after) := by
      rw [hsplit, Item.readings]
      simp
    refine ⟨before, o, Item.readingsAll items, closing, after, ?_, rfl,
      (Option.some.inj hindex).symm, hcloses, ?_, ?_, fun hverbatim => ?_⟩
    · simpa using hinside
    · exact hlength ▸ Placed.items _ hinside
    · exact hlength ▸ Item.written_nodes hinside _ false
    · exact absurd (hverbatim.symm.trans hplain) Bool.noConfusion
  | verbatim o hverbatim inside hinside closing hcloses =>
    obtain ⟨-, rfl, hindex, rfl⟩ := Node.tag.inj hnode
    refine ⟨before, o, inside, closing, after, ?_, rfl, (Option.some.inj hindex).symm, hcloses,
      .texts _ inside, Reading.written_texts _ _ inside, fun _ n hn => ?_⟩
    · rw [hsplit, Item.readings]
      simp
    · obtain ⟨i, t, position, rfl⟩ := Reading.eq_text_of_mem_texts hn
      exact ⟨rfl, rfl⟩

/-- A tag without name is built from what was read as one. -/
theorem Placed.exists_anonymous (h : Placed readings row) {id : Nat} {head : TagHead}
    {children : List Node} (htag : .tag id head none children ∈ row) :
    ∃ (before : List Reading) (s : Segment) (after : List Reading),
      readings = before ++ ⟨s, some (.anonymous head.family head.raw head.arguments)⟩ :: after ∧
        head.segment = before.length ∧ head.name = none ∧ children = [] := by
  obtain ⟨before, item, after, i, hsplit, hnode⟩ := h.exists_item htag
  cases item with
  | text segment => cases hnode
  | anonymous segment family raw arguments =>
    obtain ⟨-, rfl, -, rfl⟩ := Node.tag.inj hnode
    exact ⟨before, segment, after, hsplit, rfl, rfl, rfl⟩
  | block o hplain items closing hcloses => cases hnode
  | verbatim o hverbatim inside hinside closing hcloses => cases hnode

/-- A detached node is whitespace, and an isolated tag is opened behind it. -/
theorem Placed.exists_isolated (h : Placed readings row) {front rest : List Node} {id : Nat}
    {t : Text} {position : Position} (heq : row = front ++ .text id t position false :: rest) :
    Text.allBlank t = true ∧
      ∃ (before : List Reading) (o : Opening) (after : List Reading) (index : Nat)
        (inside more : List Node), readings = before ++ o.reading :: after ∧ o.isolated = true ∧
          rest = .tag (id + 1) (o.head before.length) (some index) inside :: more := by
  cases h with
  | texts first inside =>
    have hmem : .text id t position false ∈ Reading.texts first inside := by
      rw [heq]
      exact List.mem_append_right _ List.mem_cons_self
    obtain ⟨i, u, q, htext⟩ := Reading.eq_text_of_mem_texts hmem
    cases htext
  | items first hsplit =>
    rename_i before after items
    obtain ⟨a, item, b, rfl, hn, hrest⟩ := Item.exists_of_nodes_eq heq
    cases item with
    | text segment =>
      obtain ⟨rfl, rfl, rfl, hdetached⟩ := Node.text.inj hn
      simp only [Bool.true_and, Bool.false_eq, Bool.not_eq_eq_eq_not, Bool.not_false,
        Bool.and_eq_true] at hdetached
      obtain ⟨hfollows, hblank⟩ := hdetached
      obtain ⟨o, later, last, inside, more, hisolated, hreadings, hnodes⟩ :=
        Item.exists_of_follows hfollows (first + Item.countAll a + 1)
          (before.length + (Item.readingsAll a).length + 1)
      refine ⟨hblank, before ++ Item.readingsAll a ++ [⟨segment, none⟩], o, later ++ after, last,
        inside, more, ?_, hisolated, ?_⟩
      · rw [hsplit, Item.readingsAll_append, Item.readingsAll, hreadings, Item.readings]
        simp
      · rw [List.length_append, List.length_append]
        exact hrest.trans hnodes
    | anonymous segment family raw arguments => cases hn
    | block o hplain items closing hcloses => cases hn
    | verbatim o hverbatim inside hinside closing hcloses => cases hn

/-- **Every row of a document is built from a piece of what was read.** -/
theorem Row.placed {document : Document} {items : List Item}
    (hdocument : document.children = Item.nodes 1 0 false items) (h : Row document row) :
    Placed (Item.readingsAll items) row := by
  induction h with
  | whole =>
    have hsplit : Item.readingsAll items = [] ++ (Item.readingsAll items ++ []) := by
      rw [List.append_nil, List.nil_append]
    exact hdocument ▸ .items 1 hsplit
  | inside hrow htag ih =>
    rename_i row children id head closing
    cases closing with
    | none =>
      obtain ⟨before, s, after, -, -, -, rfl⟩ := ih.exists_anonymous htag
      exact .texts 0 []
    | some index =>
      obtain ⟨before, o, inside, closing, after, hnamed⟩ := ih.exists_namedAt htag
      exact hnamed.placed

/-! ## Documents of templates -/

/-- The pieces of a template before and up to a segment have its offset and its end for lengths. -/
theorem offset_of_laid {families : List Family} {template : Text} {before after : List Reading}
    {r : Reading} (hlaid : Segment.Laid families template []
      ((before ++ r :: after).map Reading.segment)) :
    r.segment.position.offset = (joined (before.map Reading.segment)).length := by
  rw [List.map_append] at hlaid
  obtain ⟨-, ⟨hstands, -⟩, -⟩ := hlaid.of_append
  exact hstands.offset

/-- The tag that a node of a template tells of. -/
theorem openedBy_of_reads {families : List Family} {document : Document}
    {before after : List Reading} {o : Opening}
    (hsegments : (before ++ o.reading :: after).map Reading.segment = document.segments)
    (hread : Reads families o.segment o.reading) :
    OpenedBy families document (o.head before.length) o where
  segment := by simp [← hsegments, Opening.head, Opening.reading]
  read := by
    obtain ⟨family, read, -, hread, rfl | ⟨-, -, _, _, _, heq⟩⟩ :=
      Segment.read_of_reads (r := o.reading) hread rfl
    · exact hread
    · cases heq
  head := rfl

/-- **A tag with a name keeps what stands between its opening and its closing tag.** -/
theorem NamedAt.keeps {families : List Family} {template : Text} {document : Document}
    {head : TagHead} {index : Nat} {children : List Node} {before inside after : List Reading}
    {o : Opening} {closing : Reading}
    (h : NamedAt readings head index children before o inside closing after)
    (hsegments : readings.map Reading.segment = document.segments)
    (hread : ∀ r ∈ readings, Reads families r.segment r)
    (hjoined : joined document.segments = template)
    (hlaid : Segment.Laid families template [] document.segments) :
    KeepsNamed families template document head index children o closing.segment := by
  obtain ⟨rfl, rfl, rfl, hcloses, -, hwritten, hverbatim⟩ := h
  have hclose : before ++ o.reading :: (inside ++ closing :: after) =
      (before ++ o.reading :: inside) ++ closing :: after := by simp
  have hsource : Segment.sourceOf document.segments (o.head before.length)
      (before.length + 1 + inside.length) = joined (inside.map Reading.segment) :=
    hsegments ▸ Segment.sourceOf_map rfl rfl
  refine ⟨openedBy_of_reads hsegments (hread o.reading (by simp)), ?_, ?_, ?_,
    (hsegments ▸ hwritten).trans hsource.symm, hverbatim⟩
  · have hlength : before.length + 1 + inside.length = (before ++ o.reading :: inside).length := by
      simp only [List.length_append, List.length_cons]
      omega
    rw [← hsegments, hclose, hlength, List.map_append]
    simp
  · obtain ⟨name, key, isolated, verbatim, htag⟩ := Opening.eq_closing_of_closedBy hcloses
    obtain ⟨family, read, -, hclosing, rfl | ⟨-, -, _, _, _, heq⟩⟩ :=
      Segment.read_of_reads (hread closing (by simp)) htag
    · rw [Opening.closedBy, htag, Bool.and_eq_true, beq_iff_eq] at hcloses
      obtain ⟨rfl, hkey⟩ := hcloses
      exact ⟨key, isolated, verbatim, hclosing, hkey⟩
    · cases heq
  · -- the source is what the template has between two of its prefixes
    have hstart : o.segment.position.offset = (joined (before.map Reading.segment)).length := by
      rw [← hsegments] at hlaid
      exact offset_of_laid hlaid
    have hstop : closing.segment.position.offset =
        (joined ((before ++ o.reading :: inside).map Reading.segment)).length := by
      rw [← hsegments, hclose] at hlaid
      exact offset_of_laid hlaid
    have htemplate : template =
        joined ((before ++ o.reading :: inside).map Reading.segment) ++
          joined ((closing :: after).map Reading.segment) := by
      rw [← hjoined, ← hsegments, hclose, List.map_append, Segment.joined_append]
    have hfront : joined ((before ++ o.reading :: inside).map Reading.segment) =
        joined (before.map Reading.segment) ++ o.segment.raw ++
          joined (inside.map Reading.segment) := by
      rw [List.map_append, Segment.joined_append, List.map_cons, Segment.joined_cons,
        List.append_assoc]
      rfl
    rw [hsource, htemplate, hstop, List.take_left, hfront, hstart, ← List.length_append,
      List.drop_left]

/-- **A document keeps its template.** -/
theorem keeps_of_parse {registry : Registry} (hmade : registry.Made) {template : Text}
    {document : Document} (h : Program.parse registry template = .ok document) :
    Keeps registry.ordered template document := by
  obtain ⟨items, hcut, hreadings, hdocument⟩ := exists_items_of_parse hmade h
  obtain ⟨hjoined, hlaid⟩ := Segment.laid_of_cut hcut
  have hread : ∀ r ∈ Item.readingsAll items, Reads registry.ordered r.segment r :=
    fun r hr => (Segment.reads_of_mem_readAll hreadings hr).2
  have hsegments := Segment.map_segment_of_readAll hreadings
  have hplaced : ∀ {row}, Row document row → Placed (Item.readingsAll items) row :=
    fun hrow => hrow.placed hdocument
  refine ⟨?_, fun hrow _ _ _ _ htag => ?_, fun hrow _ _ _ htag => ?_,
    fun hrow _ _ _ _ _ heq => ?_⟩
  · have hsplit : Item.readingsAll items = [] ++ (Item.readingsAll items ++ []) := by
      rw [List.append_nil, List.nil_append]
    have hwritten := Item.written_nodes hsplit 1 false
    rw [hsegments] at hwritten
    exact (hdocument ▸ hwritten).trans hjoined
  · obtain ⟨before, o, inside, closing, after, hnamed⟩ := (hplaced hrow).exists_namedAt htag
    exact ⟨o, closing.segment, hnamed.keeps hsegments hread hjoined hlaid⟩
  · obtain ⟨before, s, after, hsplit, hindex, hname, rfl⟩ := (hplaced hrow).exists_anonymous htag
    have hmem : (⟨s, some (.anonymous _ _ _)⟩ : Reading) ∈ Item.readingsAll items :=
      hsplit ▸ List.mem_append_right _ List.mem_cons_self
    have hraw := Segment.rawAt_map hsplit
    rw [hsegments, ← hindex] at hraw
    obtain ⟨front, hstands⟩ := hlaid.stands (Segment.reads_of_mem_readAll hreadings hmem).1
    obtain ⟨family, hfamily, hkey, hparts⟩ :=
      hstands.eq_of_anonymous hmade.wellFormed (hread _ hmem)
    exact ⟨rfl, hname, family, hfamily, hkey, hraw.trans hparts⟩
  · obtain ⟨hblank, before, o, after, index, inside, more, hsplit, hisolated, hrest⟩ :=
      (hplaced hrow).exists_isolated heq
    have hmem : o.reading ∈ Item.readingsAll items :=
      hsplit ▸ List.mem_append_right _ List.mem_cons_self
    exact ⟨hblank, o.head before.length, index, inside, more, o, hrest,
      openedBy_of_reads (hsplit ▸ hsegments) (hread _ hmem), hisolated⟩

attribute [local instance] Host.usual

/-- A conditional with its alternative on the next line, which has something verbatim inside. -/
def spaced : Text :=
  Text.ofString "\x7bif $x\x7d1\x7b/if\x7d\n" ++
    Text.ofString "\x7belse\x7d\x7bliteral\x7d\x7b$x\x7d\x7b/literal\x7d\x7b/else\x7d"

/-- The end of the line is detached and kept. -/
theorem keeps_of_parse_spaced :
    ∃ document, Program.parse Standard.registry spaced = .ok document ∧
      document.children.map Node.isAttached = [true, false, true] ∧
      Keeps Standard.registry.ordered spaced document := by
  have hshape : (Program.parse Standard.registry spaced).map
      (fun document => document.children.map Node.isAttached) = .ok [true, false, true] := by
    cbv
  cases hparse : Program.parse Standard.registry spaced with
  | error fault => simp [hparse, Except.map] at hshape
  | ok document =>
    simp only [hparse, Except.map, Except.ok.injEq] at hshape
    exact ⟨document, rfl, hshape, keeps_of_parse Standard.registry_made hparse⟩

end Document
end Stencil
