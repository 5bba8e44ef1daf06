import Stencil.Document.Records
import Stencil.Proofs.Document.Items
import Stencil.Proofs.Document.Table

/-! # The table of the nodes of a document

The table of a document that was built is well kept (`Document.arena_of_ofSegments`): its rows are
numbered through, a row knows the one that it belongs to and is known there once, what belongs to
nothing is whitespace, and every segment that closes no tag has a row of its own, in the order of
the template.  The walk visits the rows that belong to something in this order, too.

The links between the rows are kept while the table is built (`Table.linked_of_ofSegments`).  What
the rows were made from is read off one description of a row of nodes: node for node, which segment
it was made from, and what may be inside it (`Node.Arranged`).  The row of a row of items is
arranged, segments counted on (`Item.arranged_nodes`).  The parts of a row have different segments,
as each stays between where it begins and where the next one begins; so what holds of the parts
holds of the row.
-/

namespace Stencil

/-! ## Rows of nodes -/

/-- A row of nodes that were made from segments, of which the first one has the given index. -/
inductive Node.Arranged : (index : Nat) → List Segment → List Node → Prop
  | nil (index : Nat) : Arranged index [] []
  /-- A text is one segment. -/
  | text {id index : Nat} {s : Segment} {segments : List Segment} {rest : List Node}
      {attached : Bool} (hrest : Arranged (index + 1) segments rest) :
      Arranged index (s :: segments) (.text id s.raw s.position attached :: rest)
  /-- A tag without name is one segment and has nothing inside. -/
  | leaf {id index : Nat} {s : Segment} {segments : List Segment} {rest : List Node}
      {head : TagHead} (hsegment : head.segment = index) (hposition : head.position = s.position)
      (hrest : Arranged (index + 1) segments rest) :
      Arranged index (s :: segments) (.tag id head none [] :: rest)
  /-- A tag with a name is two segments and those of the row inside. -/
  | named {id index : Nat} {s closer : Segment} {inside segments : List Segment}
      {children rest : List Node} {head : TagHead} (hsegment : head.segment = index)
      (hposition : head.position = s.position) (hinside : Arranged (index + 1) inside children)
      (hrest : Arranged (index + 1 + inside.length + 1) segments rest) :
      Arranged index (s :: (inside ++ closer :: segments))
        (.tag id head (some (index + 1 + inside.length)) children :: rest)

/-- The nodes of what was read inside a verbatim tag are arranged. -/
theorem Reading.arranged_texts (id index : Nat) (readings : List Reading) :
    Node.Arranged index (readings.map Reading.segment) (texts id readings) := by
  induction readings generalizing id index with
  | nil => exact .nil index
  | cons r rest ih => exact .text (ih (id + 1) (index + 1))

/-- A tag with a name is arranged if what is inside it is. -/
theorem Opening.arranged {o : Opening} {closing : Reading} {inside : List Reading}
    {id index : Nat} {segments : List Segment} {children rest : List Node}
    (hinside : Node.Arranged (index + 1) (inside.map Reading.segment) children)
    (hrest : Node.Arranged (index + (o.reading :: (inside ++ [closing])).length) segments rest) :
    Node.Arranged index ((o.reading :: (inside ++ [closing])).map Reading.segment ++ segments)
      (.tag id (o.head index) (some (index + 1 + inside.length)) children :: rest) := by
  have hindex : index + (o.reading :: (inside ++ [closing])).length =
      index + 1 + (inside.map Reading.segment).length + 1 := by
    simp only [List.length_cons, List.length_append, List.length_nil, List.length_map]
    omega
  rw [hindex] at hrest
  have hnamed : Node.Arranged index
      (o.segment :: (inside.map Reading.segment ++ closing.segment :: segments))
      (.tag id (o.head index) (some (index + 1 + (inside.map Reading.segment).length))
        children :: rest) :=
    .named rfl rfl hinside hrest
  rw [List.length_map] at hnamed
  rw [List.map_cons, List.map_append, List.cons_append, List.append_assoc]
  exact hnamed

namespace Item

mutual

/-- The node of an item, in front of a row that is arranged behind it. -/
theorem arranged_node (id index : Nat) (isolated : Bool) : ∀ (item : Item)
    {segments : List Segment} {rest : List Node},
    Node.Arranged (index + item.readings.length) segments rest →
    Node.Arranged index (item.readings.map Reading.segment ++ segments)
      ((item.node id index).infront isolated :: rest)
  | .text _, _, _, hrest => .text hrest
  | .anonymous _ _ _ _, _, _, hrest => .leaf rfl rfl hrest
  | .block _ _ inside _ _, _, _, hrest =>
    Opening.arranged (arranged_nodes (id + 1) (index + 1) false inside) hrest
  | .verbatim _ _ inside _ _ _, _, _, hrest =>
    Opening.arranged (Reading.arranged_texts (id + 1) (index + 1) inside) hrest

/-- **The row of a row of items is arranged.** -/
theorem arranged_nodes (id index : Nat) (isolated : Bool) : ∀ items : List Item,
    Node.Arranged index ((readingsAll items).map Reading.segment) (nodes id index isolated items)
  | [] => .nil index
  | item :: rest => by
    have hrest := arranged_nodes (id + item.count) (index + item.readings.length) isolated rest
    rw [readingsAll, List.map_append, nodes]
    exact arranged_node id index _ item hrest

end

end Item

/-! ## The records of a row -/

/-- The index of the segment that closes a tag. -/
def Content.closing? : Content → Option Nat
  | .tag _ closing => closing
  | _ => none

namespace Node

theorem id_mem_records (p : Nat) (n : Node) : n.id ∈ (records p n).map Record.id := by
  obtain ⟨inside, hinside⟩ := exists_records_eq p n
  rw [hinside]
  exact List.mem_cons_self

/-- The members of a row have records. -/
theorem members_sublist (p : Nat) (nodes : List Node) :
    (members nodes).Sublist ((recordsAll p nodes).map Record.id) := by
  induction nodes with
  | nil => exact List.Sublist.refl []
  | cons n rest ih =>
    obtain ⟨inside, hinside⟩ := exists_records_eq p n
    have hrest : (members rest).Sublist
        (inside.map Record.id ++ (recordsAll p rest).map Record.id) :=
      ih.trans (List.sublist_append_right _ _)
    rw [recordsAll, hinside, List.map_append, List.map_cons, List.cons_append, members]
    by_cases hn : n.isAttached = true
    · rw [List.filter_cons_of_pos hn, List.map_cons]
      exact hrest.cons_cons _
    · rw [List.filter_cons_of_neg hn]
      exact hrest.cons _

mutual

theorem length_records (p : Nat) : ∀ n : Node, (records p n).length = n.count
  | .text _ _ _ _ => rfl
  | .tag id _ _ children => by rw [records, List.length_cons, count, length_recordsAll id children]

/-- Each node of a row has a record. -/
theorem length_recordsAll (p : Nat) : ∀ nodes : List Node,
    (recordsAll p nodes).length = countAll nodes
  | [] => rfl
  | n :: rest => by
    rw [recordsAll, List.length_append, countAll, length_records p n, length_recordsAll p rest]

end

end Node

/-- The indices of the segments that close the tags of records. -/
def Record.closers (records : List Record) : List Nat :=
  records.filterMap fun r => r.content.closing?

/-- The tags of a row that begins with a tag are closed where this tag is, or inside, or behind. -/
theorem Record.mem_closers_iff {p id last k : Nat} {head : TagHead} {children rest : List Node} :
    k ∈ closers (Node.recordsAll p (.tag id head (some last) children :: rest)) ↔
      k = last ∨ k ∈ closers (Node.recordsAll id children) ∨
        k ∈ closers (Node.recordsAll p rest) := by
  rw [Node.recordsAll, Node.records, List.cons_append, closers, closers, closers,
    ← List.mem_append, ← List.filterMap_append]
  exact List.mem_cons

/-- The segment that the node of a record was made from, given with its index. -/
def Record.MadeFrom (r : Record) (e : Segment × Nat) : Prop :=
  match r.content with
  | .document => False
  | .text value position => value = e.1.raw ∧ position = e.1.position
  | .tag head _ => head.segment = e.2 ∧ head.position = e.1.position

namespace Node.Arranged

variable {index : Nat} {segments : List Segment} {nodes : List Node}

/-! ## Segments -/

/-- The indices of the segments that close the tags of a row. -/
theorem bounds_of_mem_closers (h : Arranged index segments nodes) (p : Nat) {k : Nat}
    (hk : k ∈ Record.closers (recordsAll p nodes)) :
    index ≤ k ∧ k < index + segments.length := by
  induction h generalizing p with
  | nil => cases hk
  | text hrest ih =>
    have hbounds := ih p hk
    rw [List.length_cons]
    omega
  | leaf hsegment hposition hrest ih =>
    have hbounds := ih p hk
    rw [List.length_cons]
    omega
  | @named id index s closer inside segments children rest head hsegment hposition hinside
      hrest ihinside ihrest =>
    rw [List.length_cons, List.length_append, List.length_cons]
    rcases Record.mem_closers_iff.mp hk with rfl | hk | hk
    · omega
    · have hbounds := ihinside id hk
      omega
    · have hbounds := ihrest p hk
      omega

/-- The first segment of a row closes no tag behind it, and those behind it close the same ones. -/
theorem not_closes_first {s : Segment} (h : Arranged (index + 1) segments nodes) (p : Nat)
    {closes : Nat → Bool} (hcloses : ∀ k, index ≤ k → k < index + (s :: segments).length →
      (closes k = true ↔ k ∈ Record.closers (recordsAll p nodes))) :
    closes index = false ∧ ∀ k, index + 1 ≤ k → k < index + 1 + segments.length →
      (closes k = true ↔ k ∈ Record.closers (recordsAll p nodes)) := by
  rw [List.length_cons] at hcloses
  refine ⟨?_, fun k hk hlt => hcloses k (by omega) (by omega)⟩
  rw [← Bool.not_eq_true, hcloses index (Nat.le_refl index) (by omega)]
  intro hmem
  have hbounds := h.bounds_of_mem_closers p hmem
  omega

/-- **Every segment of a row that closes no tag has a record of its own.** -/
theorem forall₂_madeFrom (h : Arranged index segments nodes) (p : Nat) {closes : Nat → Bool}
    (hcloses : ∀ k, index ≤ k → k < index + segments.length →
      (closes k = true ↔ k ∈ Record.closers (recordsAll p nodes))) :
    List.Forall₂ Record.MadeFrom (recordsAll p nodes)
      ((segments.zipIdx index).filter fun e => !closes e.2) := by
  induction h generalizing p with
  | nil => exact .nil
  | @text id index s segments rest attached hrest ih =>
    obtain ⟨hfirst, hbehind⟩ := hrest.not_closes_first p hcloses
    rw [List.zipIdx_cons, List.filter_cons_of_pos (by simp [hfirst])]
    exact .cons ⟨rfl, rfl⟩ (ih p hbehind)
  | @leaf id index s segments rest head hsegment hposition hrest ih =>
    obtain ⟨hfirst, hbehind⟩ := hrest.not_closes_first p hcloses
    rw [List.zipIdx_cons, List.filter_cons_of_pos (by simp [hfirst])]
    exact .cons ⟨hsegment, hposition⟩ (ih p hbehind)
  | @named id index s closer inside segments children rest head hsegment hposition hinside
      hrest ihinside ihrest =>
    have hlength : (s :: (inside ++ closer :: segments)).length =
        inside.length + segments.length + 2 := by
      simp only [List.length_cons, List.length_append]
      omega
    simp only [hlength, Record.mem_closers_iff] at hcloses
    -- of the row inside, only its own tags are closed
    have hfirst : closes index = false := by
      rw [← Bool.not_eq_true, hcloses index (Nat.le_refl index) (by omega)]
      rintro (heq | hmem | hmem)
      · omega
      · have hbounds := hinside.bounds_of_mem_closers id hmem
        omega
      · have hbounds := hrest.bounds_of_mem_closers p hmem
        omega
    have hclosing : closes (index + 1 + inside.length) = true :=
      (hcloses _ (by omega) (by omega)).mpr (Or.inl rfl)
    have hwithin : List.Forall₂ Record.MadeFrom (recordsAll id children)
        ((inside.zipIdx (index + 1)).filter fun e => !closes e.2) := by
      refine ihinside id fun k hk hlt => ?_
      rw [hcloses k (by omega) (by omega)]
      refine ⟨fun h => ?_, fun h => Or.inr (Or.inl h)⟩
      rcases h with heq | hmem | hmem
      · omega
      · exact hmem
      · have hbounds := hrest.bounds_of_mem_closers p hmem
        omega
    have hbehind : List.Forall₂ Record.MadeFrom (recordsAll p rest)
        ((segments.zipIdx (index + 1 + inside.length + 1)).filter fun e => !closes e.2) := by
      refine ihrest p fun k hk hlt => ?_
      rw [hcloses k (by omega) (by omega)]
      refine ⟨fun h => ?_, fun h => Or.inr (Or.inr h)⟩
      rcases h with heq | hmem | hmem
      · omega
      · have hbounds := hinside.bounds_of_mem_closers id hmem
        omega
      · exact hmem
    rw [recordsAll, records, List.zipIdx_cons, List.zipIdx_append, List.zipIdx_cons,
      List.filter_cons_of_pos (by simp [hfirst]), List.filter_append,
      List.filter_cons_of_neg (by simp [hclosing])]
    exact .cons ⟨hsegment, hposition⟩ (List.rel_append hwithin hbehind)

/-! ## The walk -/

/-- **The walk visits the nodes of a row that belong to something in the order of the records.** -/
theorem visit_members (h : Arranged index segments nodes) (p : Nat) (stack : List Node) :
    (visit (nodes.filter isAttached ++ stack)).map (fun n => (n.id, n.content)) =
      ((recordsAll p nodes).filter fun r => r.parent.isSome).map (fun r => (r.id, r.content)) ++
        (visit stack).map fun n => (n.id, n.content) := by
  induction h generalizing p stack with
  | nil => rfl
  | @text id index s segments rest attached hrest ih =>
    have hlater := ih p stack
    rw [recordsAll, records]
    cases attached with
    | true =>
      rw [List.filter_cons_of_pos rfl, List.cons_append, visit, List.map_cons, children,
        List.nil_append, hlater]
      rfl
    | false => exact hlater
  | leaf hsegment hposition hrest ih =>
    have hlater := ih p stack
    rw [recordsAll, records, List.filter_cons_of_pos rfl, List.cons_append, visit, List.map_cons,
      children, List.filter_nil, List.nil_append, hlater]
    rfl
  | @named id index s closer inside segments children rest head hsegment hposition hinside
      hrest ihinside ihrest =>
    rw [recordsAll, records, List.filter_cons_of_pos rfl, List.cons_append, visit, List.map_cons,
      Node.children, ihinside id, ihrest p, List.cons_append, List.filter_cons_of_pos rfl,
      List.filter_append, List.map_cons, List.map_append, List.cons_append, List.append_assoc]
    rfl

end Node.Arranged

/-! ## The table of a document -/

/-- A record whose node belongs to the document or to a tag with a name, and nowhere else. -/
structure Record.Attached (records : List Record) (r : Record) : Prop where
  parent : ∃ q ∈ records, r.parent = some q.id ∧ q.id < r.id ∧
    (q.id = 0 ∨ ∃ name, q.content.name? = some name) ∧ q.children.count r.id = 1
  nowhere_else : ∀ q ∈ records, r.id ∈ q.children → r.parent = some q.id

/-- A record whose node belongs to nothing: it is whitespace. -/
structure Record.Detached (records : List Record) (r : Record) : Prop where
  parent : r.parent = none
  nowhere : ∀ q ∈ records, r.id ∉ q.children
  blank : ∃ t position, r.content = .text t position ∧ Text.allBlank t = true

namespace Document

/-- The segments that close no tag, each with its index. -/
def creating (document : Document) : List (Segment × Nat) :=
  document.segments.zipIdx.filter fun e => !decide (e.2 ∈ Record.closers document.records)

/-- A document whose table is well kept. -/
structure Arena (document : Document) : Prop where
  numbered : document.records.map Record.id = List.range document.size
  placed : ∀ r ∈ document.records, r.id ≠ 0 →
    r.Attached document.records ∨ r.Detached document.records
  increasing : ∀ r ∈ document.records, r.children.Pairwise (· < ·)
  /-- Nothing belongs to a node without name, except to the document itself. -/
  leaves : ∀ r ∈ document.records, r.id ≠ 0 → r.content.name? = none → r.children = []
  /-- The segments that close no tag are those that the nodes were made from, one for each, in the
  order of the numbers. -/
  created : List.Forall₂ Record.MadeFrom document.records.tail document.creating
  /-- The walk visits exactly the nodes that belong to something, as they are numbered. -/
  walked : document.walk.map (fun n => (n.id, n.content)) =
    (document.records.filter fun r => r.parent.isSome).map fun r => (r.id, r.content)
  inOrder : (0 :: document.walk.map Node.id).Pairwise (· < ·)

section
variable {document : Document}

/-- A row of the table stands at its number. -/
theorem getElem?_of_mem_records (hlinked : Table.Linked ⟨document.records⟩) {r : Record}
    (hr : r ∈ document.records) : document.records[r.id]? = some r := by
  obtain ⟨k, hk⟩ := List.mem_iff_getElem?.mp hr
  obtain rfl := hlinked.numbered hk
  exact hk

theorem map_id_records (hlinked : Table.Linked ⟨document.records⟩) :
    document.records.map Record.id = List.range document.size := by
  have hlength : document.records.length = document.size := by
    rw [records, List.length_cons, Node.length_recordsAll, size]
  rw [← hlength]
  refine List.ext_getElem (by simp) fun k hk hk' => ?_
  rw [List.getElem_map, List.getElem_range]
  exact hlinked.numbered (List.getElem?_eq_getElem _)

/-- What belongs to a row belongs to no other one; what belongs to none is listed nowhere. -/
theorem attached_or_detached (hlinked : Table.Linked ⟨document.records⟩) {r : Record}
    (hr : r ∈ document.records) (hid : r.id ≠ 0) :
    r.Attached document.records ∨ r.Detached document.records := by
  have hrow := getElem?_of_mem_records hlinked hr
  have hlisted : ∀ q ∈ document.records, r.id ∈ q.children → r.parent = some q.id := by
    intro q hq hchild
    obtain ⟨r', hr', hparent⟩ := hlinked.listed (getElem?_of_mem_records hlinked hq) hchild
    obtain rfl := Option.some.inj (hrow.symm.trans hr')
    exact hparent
  rcases hlinked.placed hrow hid with ⟨p, q, hparent, hq, hchild⟩ | ⟨hnone, hblank⟩
  · obtain ⟨hlt, hpairwise⟩ := List.pairwise_cons.mp (hlinked.increasing hq)
    have hnodup : q.children.Nodup := hpairwise.imp fun hlt => Nat.ne_of_lt hlt
    obtain rfl := hlinked.numbered hq
    exact Or.inl ⟨⟨q, List.mem_of_getElem? hq, hparent, hlt r.id hchild,
      hlinked.holding hq (List.ne_nil_of_mem hchild), List.count_eq_one_of_mem hnodup hchild⟩,
      hlisted⟩
  · refine Or.inr ⟨hnone, fun q hq hchild => ?_, hblank⟩
    cases hnone.symm.trans (hlisted q hq hchild)

theorem map_walk (h : Node.Arranged 0 document.segments document.children) :
    document.walk.map (fun n => (n.id, n.content)) =
      (document.records.filter fun r => r.parent.isSome).map fun r => (r.id, r.content) := by
  have hvisit := h.visit_members 0 []
  rw [List.append_nil, Node.visit, List.map_nil, List.append_nil] at hvisit
  exact hvisit

theorem increasing_walk (h : Node.Arranged 0 document.segments document.children)
    (hlinked : Table.Linked ⟨document.records⟩) :
    (0 :: document.walk.map Node.id).Pairwise (· < ·) := by
  have hids : document.walk.map Node.id =
      (document.records.filter fun r => r.parent.isSome).map Record.id := by
    have hfirst := congrArg (List.map Prod.fst) (map_walk h)
    simpa only [List.map_map, Function.comp_def] using hfirst
  have hsublist : (0 :: document.walk.map Node.id).Sublist (document.records.map Record.id) := by
    rw [hids, records, List.filter_cons_of_neg (by simp)]
    exact (List.filter_sublist.map Record.id).cons_cons 0
  exact List.Pairwise.sublist (map_id_records hlinked ▸ hsublist) List.pairwise_lt_range

/-- **The table of an arranged document is well kept**, if its links are. -/
theorem arena_of_arranged (h : Node.Arranged 0 document.segments document.children)
    (hlinked : Table.Linked ⟨document.records⟩) : document.Arena where
  numbered := map_id_records hlinked
  placed := fun _ => attached_or_detached hlinked
  increasing := fun r hr =>
    (List.pairwise_cons.mp (hlinked.increasing (getElem?_of_mem_records hlinked hr))).2
  leaves := by
    intro r hr hid hnone
    by_contra hne
    rcases hlinked.holding (getElem?_of_mem_records hlinked hr) hne with hzero | ⟨name, hname⟩
    · exact hid hzero
    · cases hnone.symm.trans hname
  created := h.forall₂_madeFrom 0 fun _ _ _ => decide_eq_true_iff
  walked := map_walk h
  inOrder := increasing_walk h hlinked

end

/-- **The table of every document that is built is well kept**: its rows are numbered through; each
of them belongs to the document or to a tag with a name before it, and is listed there once and
nowhere else, or else it is detached whitespace; every segment that closes no tag has made one of
them, in order; and the walk visits all that are attached, in order. -/
theorem arena_of_ofSegments {families : List Family} {segments : List Segment}
    {document : Document} (h : ofSegments families segments = .ok document) : document.Arena := by
  have hlinked := Table.linked_of_ofSegments h
  obtain ⟨items, rfl, -, rfl⟩ := exists_items_of_ofSegments h
  exact arena_of_arranged (Item.arranged_nodes 1 0 false items) hlinked

/-- A conditional and its alternative, with whitespace between them. -/
def separated : List Segment :=
  [⟨.tag (some (Standard.word "statement")), Text.ofString "\x7bif $x\x7d", ⟨0, 1, 1⟩⟩,
   ⟨.text, Text.ofString "1", ⟨7, 1, 8⟩⟩,
   ⟨.tag (some (Standard.word "statement")), Text.ofString "\x7b/if\x7d", ⟨8, 1, 9⟩⟩,
   ⟨.text, Text.ofString " ", ⟨13, 1, 14⟩⟩,
   ⟨.tag (some (Standard.word "statement")), Text.ofString "\x7belse\x7d", ⟨14, 1, 15⟩⟩,
   ⟨.tag (some (Standard.word "statement")), Text.ofString "\x7b/else\x7d", ⟨20, 1, 21⟩⟩]

/-- Four of the segments make nodes, and the whitespace belongs to nothing. -/
theorem arena_of_ofSegments_separated :
    ∃ document, ofSegments Standard.families separated = .ok document ∧
      document.records.map (fun r => (r.parent, r.children)) =
        [(none, [1, 4]), (some 0, [2]), (some 1, []), (none, []), (some 0, [])] ∧
      document.creating.map Prod.snd = [0, 1, 3, 4] ∧ document.Arena := by
  have hshape : (ofSegments Standard.families separated).map (fun document =>
      (document.records.map (fun r => (r.parent, r.children)),
        document.creating.map Prod.snd)) =
      .ok ([(none, [1, 4]), (some 0, [2]), (some 1, []), (none, []), (some 0, [])],
        [0, 1, 3, 4]) := by
    cbv
  cases hbuilt : ofSegments Standard.families separated with
  | error fault => simp [hbuilt, Except.map] at hshape
  | ok document =>
    simp only [hbuilt, Except.map, Except.ok.injEq, Prod.mk.injEq] at hshape
    exact ⟨document, rfl, hshape.1, hshape.2, arena_of_ofSegments hbuilt⟩

end Document
end Stencil
