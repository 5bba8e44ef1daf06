import Stencil.Proofs.Document.Links

/-! # The table of a document as it is built

The table that is built row by row is the one that the tree of the document comes to
(`Table.ofSegments_eq`).  While tags are open, the tree is in pieces: what is in the document so
far, and in each of the open tags.  The rows of these pieces, as far as they have been filled, are
the table (`Building.table`), and each change of the table is a change of the innermost piece
(`Building.Tracked`).  So both are built in step, segment by segment (`Building.tabulates_add`), and
what every change of the table keeps holds of the table of the document
(`Table.linked_of_ofSegments`).
-/

namespace Stencil

/-! ## The pieces of an unfinished document -/

/-- The first record of a node is its own. -/
theorem Node.exists_records_eq (p : Nat) (n : Node) : ∃ inside, records p n =
    ⟨n.id, if n.isAttached then some p else none, n.content, n.children.map id⟩ :: inside := by
  cases n with
  | text id t position attached => exact ⟨[], rfl⟩
  | tag id head closing children => exact ⟨recordsAll id children, rfl⟩

/-- The numbers of the nodes that belong to a row. -/
def Node.members (nodes : List Node) : List Nat := (nodes.filter isAttached).map id

theorem Node.members_singleton {n : Node} (h : n.isAttached = true) : members [n] = [n.id] := by
  rw [members, List.filter_cons_of_pos h]
  rfl

theorem Node.members_append (a b : List Node) : members (a ++ b) = members a ++ members b := by
  rw [members, List.filter_append, List.map_append, members, members]

theorem Node.recordsAll_append (p : Nat) (a b : List Node) :
    recordsAll p (a ++ b) = recordsAll p a ++ recordsAll p b := by
  induction a with
  | nil => rfl
  | cons n a ih => rw [List.cons_append, recordsAll, recordsAll, ih, List.append_assoc]

/-- An open tag with what is in it so far, or the document with what is outside of all tags. -/
structure Layer where
  id : Nat
  content : Content
  /-- The newest node first. -/
  children : List Node

namespace Layer

/-- The row of a layer that belongs to another one, and in which a tag is open or not. -/
def row (l : Layer) (parent : Option Nat) (inside : List Nat) : Record :=
  ⟨l.id, parent, l.content, Node.members l.children.reverse ++ inside⟩

/-- The rows of layers, the innermost of which comes first, and in which a tag is open or not. -/
def rows (inside : List Nat) : List Layer → List Record
  | [] => []
  | l :: outer =>
    rows [l.id] outer ++
      l.row (outer.head?.map Layer.id) inside :: Node.recordsAll l.id l.children.reverse

/-- Puts a node into a layer. -/
def put (l : Layer) (n : Node) : Layer := { l with children := n :: l.children }

end Layer

namespace Building

/-- The open tags, the innermost first, and the document. -/
def layers (b : Building) : List Layer :=
  b.stack.map (fun t => ⟨t.id, .tag t.head none, t.children⟩) ++ [⟨0, .document, b.top⟩]

/-- The rows of the nodes that have been built. -/
def table (b : Building) : Table := ⟨Layer.rows [] b.layers⟩

/-- The open tags without what is in them. -/
def openTags (b : Building) : List OpenTag := b.stack.map fun t => { t with children := [] }

/-- What has been built, as a table. -/
def tabulation (b : Building) : Tabulation :=
  ⟨b.table, b.openTags.map fun t => (t.id, t.verbatim)⟩

/-- A document under construction, as a table that is kept: its numbers go on where the table ends,
and the names of the open tags are in their rows. -/
structure Tracked (b : Building) : Prop where
  linked : b.table.Linked
  next : b.table.rows.length = b.next
  named : ∀ t ∈ b.openTags, t.head.name = some t.name

/-- The newest node where nodes are added belongs there. -/
def Settled (b : Building) : Prop :=
  ∀ l ∈ b.layers.head?, ∀ n ∈ l.children.head?, n.isAttached = true

/-- A document under construction to which segments can be added. -/
structure Ready (b : Building) : Prop extends Tracked b where
  settled : b.Settled

theorem exists_layers (b : Building) :
    ∃ l outer, b.layers = l :: outer ∧ b.tabulation.current = l.id ∧
      (∀ n, (b.attach n).layers = l.put n :: outer) ∧
      b.isolate.layers = { l with children := detachBlank l.children } :: outer := by
  obtain ⟨next, stack, top⟩ := b
  cases stack with
  | nil => exact ⟨_, _, rfl, rfl, fun n => rfl, rfl⟩
  | cons t outer => exact ⟨_, _, rfl, rfl, fun n => rfl, rfl⟩

theorem next_attach (b : Building) (n : Node) : (b.attach n).next = b.next := by
  obtain ⟨next, stack, top⟩ := b
  cases stack <;> rfl

theorem next_isolate (b : Building) : b.isolate.next = b.next := by
  obtain ⟨next, stack, top⟩ := b
  cases stack <;> rfl

theorem openTags_attach (b : Building) (n : Node) : (b.attach n).openTags = b.openTags := by
  obtain ⟨next, stack, top⟩ := b
  cases stack <;> rfl

theorem openTags_isolate (b : Building) : b.isolate.openTags = b.openTags := by
  obtain ⟨next, stack, top⟩ := b
  cases stack <;> rfl

variable {b : Building}

theorem rows_table {l : Layer} {outer : List Layer} (h : b.layers = l :: outer) :
    b.table.rows = Layer.rows [l.id] outer ++
      l.row (outer.head?.map Layer.id) [] :: Node.recordsAll l.id l.children.reverse := by
  rw [table, h, Layer.rows]

/-- The row of a layer with one more node. -/
theorem row_put (l : Layer) (n : Node) (parent : Option Nat) :
    (l.put n).row parent [] = l.row parent (Node.members [n]) := by
  rw [Layer.put, Layer.row, Layer.row, List.reverse_cons, Node.members_append, List.append_nil]

/-- The rows of a layer with one more node, and of those around it. -/
theorem rows_put (l : Layer) (outer : List Layer) (n : Node) :
    Layer.rows [] (l.put n :: outer) = Layer.rows [l.id] outer ++
      l.row (outer.head?.map Layer.id) (Node.members [n]) ::
        (Node.recordsAll l.id l.children.reverse ++ n.records l.id) := by
  have hrecords : Node.recordsAll l.id [n] = n.records l.id := by
    rw [Node.recordsAll, Node.recordsAll, List.append_nil]
  rw [Layer.rows, row_put, ← hrecords, ← Node.recordsAll_append, ← List.reverse_cons]
  rfl

/-- The table with the newest node of the innermost layer and what is inside of it at its end. -/
theorem rows_newest {l : Layer} {outer : List Layer} {n : Node} (hattached : n.isAttached = true)
    (hlayers : b.layers = l.put n :: outer) : ∃ inside, b.table.rows =
      Layer.rows [l.id] outer ++ l.row (outer.head?.map Layer.id) [n.id] ::
        (Node.recordsAll l.id l.children.reverse ++
          ⟨n.id, some l.id, n.content, n.children.map Node.id⟩ :: inside) := by
  obtain ⟨inside, hinside⟩ := n.exists_records_eq l.id
  rw [if_pos hattached] at hinside
  exact ⟨inside, by rw [table, hlayers, rows_put, Node.members_singleton hattached, hinside]⟩

/-! ## Changes of the table -/

namespace Tracked

variable (h : b.Tracked)
include h

/-- The row of the innermost layer stands where its number says. -/
theorem length_rows {l : Layer} {outer : List Layer} (hlayers : b.layers = l :: outer) :
    (Layer.rows [l.id] outer).length = l.id :=
  h.linked.length_eq (rows_table hlayers)

/-- A table with a new row below, that belongs to the current one. -/
theorem add_eq {l : Layer} {outer : List Layer} (hlayers : b.layers = l :: outer)
    (content : Content) : b.table.add l.id content = ⟨Layer.rows [l.id] outer ++
      l.row (outer.head?.map Layer.id) [b.next] ::
        (Node.recordsAll l.id l.children.reverse ++ [⟨b.next, some l.id, content, []⟩])⟩ := by
  have hrows : b.table.rows ++ [⟨b.next, some l.id, content, []⟩] = Layer.rows [l.id] outer ++
      l.row (outer.head?.map Layer.id) [] ::
        (Node.recordsAll l.id l.children.reverse ++ [⟨b.next, some l.id, content, []⟩]) := by
    rw [rows_table hlayers, List.append_assoc, List.cons_append]
  rw [Table.add, h.next, Table.update_eq hrows (h.length_rows hlayers), Layer.row, List.append_nil]
  rfl

/-- A leaf that is put into the innermost layer is added to the table. -/
theorem table_attach {n : Node} {content : Content} (hid : n.id = b.next)
    (hattached : n.isAttached = true)
    (hrecords : ∀ p, n.records p = [⟨b.next, some p, content, []⟩]) :
    (b.attach n).table = b.table.add b.tabulation.current content := by
  obtain ⟨l, outer, hlayers, hcurrent, hattach, -⟩ := b.exists_layers
  rw [hcurrent, h.add_eq hlayers, table, hattach, rows_put, Node.members_singleton hattached, hid,
    hrecords]

/-- A tag that is opened is added to the table. -/
theorem table_openTag (name : Text) (head : TagHead) (verbatim : Bool) :
    (b.openTag name head verbatim).table = b.table.add b.tabulation.current (.tag head none) := by
  obtain ⟨l, outer, hlayers, hcurrent, -⟩ := b.exists_layers
  have hopened : (b.openTag name head verbatim).layers =
      ⟨b.next, .tag head none, []⟩ :: l :: outer :=
    congrArg (_ :: ·) hlayers
  rw [hcurrent, h.add_eq hlayers, table, hopened, Layer.rows, Layer.rows, List.append_assoc,
    List.cons_append]
  rfl

/-- A tag that is closed has its row changed. -/
theorem table_closeTag {t : OpenTag} {stack : List OpenTag} (hstack : b.stack = t :: stack)
    (index : Nat) : (b.closeTag index).table = b.table.close t.id index := by
  obtain ⟨l, outer, hlayers, -, hattach, -⟩ := exists_layers { b with stack := stack }
  have hopen : b.layers = ⟨t.id, .tag t.head none, t.children⟩ :: l :: outer := by
    rw [← hlayers, layers, layers, hstack, List.map_cons, List.cons_append]
  have hclosed : (b.closeTag index).layers =
      l.put (.tag t.id t.head (some index) t.children.reverse) :: outer := by
    rw [closeTag, hstack, hattach]
  rw [Table.close, Table.update_eq (rows_table hopen) (h.length_rows hopen), table, hclosed,
    rows_put, Layer.rows, List.append_assoc, List.cons_append]
  simp only [Layer.row, List.append_nil]
  rfl

/-- Where nothing is in the innermost layer, there is no last child. -/
theorem lastChild?_eq_none {l : Layer} {outer : List Layer} (hlayers : b.layers = l :: outer)
    (hnil : l.children = []) : b.table.lastChild? l.id = none := by
  have hrow := h.linked.getElem?_id (rows_table hlayers)
  simp only [Layer.row, hnil, List.reverse_nil] at hrow
  rw [Table.lastChild?, hrow]
  rfl

/-- The newest node of the innermost layer is the last child of it, if it belongs there. -/
theorem lastChild?_eq_some {l : Layer} {outer : List Layer} {n : Node}
    (hattached : n.isAttached = true) (hlayers : b.layers = l.put n :: outer) :
    b.table.lastChild? l.id = some ⟨n.id, some l.id, n.content, n.children.map Node.id⟩ := by
  obtain ⟨inside, hrows⟩ := rows_newest hattached hlayers
  have hrow := h.linked.getElem?_id hrows
  rw [← List.cons_append, ← List.append_assoc] at hrows
  have hchild := h.linked.getElem?_id hrows
  have hlast : (l.row (outer.head?.map Layer.id) [n.id]).children.getLast? = some n.id :=
    List.getLast?_concat
  have hid : (l.row (outer.head?.map Layer.id) [n.id]).id = l.id := rfl
  rw [hid] at hrow
  rw [Table.lastChild?, hrow, Option.bind_eq_bind, Option.bind_some, hlast]
  exact hchild

/-- Whitespace that is detached has its row changed, and that of the innermost layer. -/
theorem removeLastChild_eq {l : Layer} {outer : List Layer} {id : Nat} {value : Text}
    {position : Position} (hlayers : b.layers = l.put (.text id value position true) :: outer) :
    b.table.removeLastChild l.id =
      ⟨Layer.rows [] (l.put (.text id value position false) :: outer)⟩ := by
  have hrows : b.table.rows = Layer.rows [l.id] outer ++ l.row (outer.head?.map Layer.id) [id] ::
      (Node.recordsAll l.id l.children.reverse ++ [⟨id, some l.id, .text value position, []⟩]) := by
    rw [table, hlayers, rows_put]
    rfl
  -- the row above the last one, before and after
  have hlength : (Layer.rows [l.id] outer ++ l.row (outer.head?.map Layer.id) [] ::
      Node.recordsAll l.id l.children.reverse).length = id := by
    have hassoc := hrows
    rw [← List.cons_append, ← List.append_assoc] at hassoc
    have hid := h.linked.length_eq hassoc
    rw [List.length_append, List.length_cons] at hid ⊢
    exact hid
  have hstart : (Layer.rows [l.id] outer).length = l.id := h.linked.length_eq hrows
  have hrow : Table.update b.table l.id (fun r => { r with children := r.children.dropLast }) =
      ⟨(Layer.rows [l.id] outer ++ l.row (outer.head?.map Layer.id) [] ::
        Node.recordsAll l.id l.children.reverse) ++
          [⟨id, some l.id, .text value position, []⟩]⟩ := by
    rw [Table.update_eq hrows hstart, List.append_assoc, List.cons_append]
    simp only [Layer.row, List.dropLast_concat, List.append_nil]
  rw [Table.removeLastChild, h.lastChild?_eq_some rfl hlayers]
  dsimp only [Node.id]
  rw [hrow, Table.update_eq rfl hlength, rows_put, List.append_assoc, List.cons_append]
  rfl

theorem named_head {t : OpenTag} {stack : List OpenTag} (hstack : b.stack = t :: stack) :
    t.head.name = some t.name := by
  have hnamed := h.named
  rw [openTags, hstack] at hnamed
  exact hnamed { t with children := [] } List.mem_cons_self

/-- Other nodes may belong to the current one. -/
theorem exists_current : ∃ q, b.table.rows[b.tabulation.current]? = some q ∧ q.Holds := by
  obtain ⟨l, outer, hlayers, hcurrent, -⟩ := b.exists_layers
  rw [hcurrent]
  refine ⟨_, h.linked.getElem?_id (rows_table hlayers), ?_⟩
  cases hstack : b.stack with
  | nil =>
    rw [layers, hstack] at hlayers
    obtain ⟨rfl, rfl⟩ := List.cons.inj hlayers
    exact Or.inl rfl
  | cons t stack =>
    rw [layers, hstack] at hlayers
    obtain ⟨rfl, rfl⟩ := List.cons.inj hlayers
    exact Or.inr ⟨t.name, h.named_head hstack⟩

end Tracked

/-- Whitespace is detached from the table as it is from the document. -/
theorem table_isolate (h : b.Tracked) (hsettled : b.Settled) :
    b.tabulation.isolate.table = b.isolate.table ∧ b.isolate.table.Linked ∧
      b.isolate.table.rows.length = b.next := by
  obtain ⟨l, outer, hlayers, hcurrent, -, hisolate⟩ := b.exists_layers
  -- where nothing is detached, the table stays as it is
  have hsame (hchildren : detachBlank l.children = l.children)
      (htable : b.tabulation.isolate.table = b.table) :
      b.tabulation.isolate.table = b.isolate.table ∧ b.isolate.table.Linked ∧
        b.isolate.table.rows.length = b.next := by
    have heq : b.isolate.table = b.table := by rw [table, hisolate, hchildren, table, hlayers]
    rw [heq]
    exact ⟨htable, h.linked, h.next⟩
  obtain ⟨id, content, children⟩ := l
  cases children with
  | nil =>
    have hlast : b.tabulation.table.lastChild? b.tabulation.current = none :=
      hcurrent ▸ h.lastChild?_eq_none hlayers rfl
    exact hsame rfl (by rw [Tabulation.isolate, hlast]; rfl)
  | cons n older =>
    have hattached : n.isAttached = true := hsettled _ (by rw [hlayers]; rfl) n rfl
    have hput : b.layers = Layer.put ⟨id, content, older⟩ n :: outer := hlayers
    have hchild := h.lastChild?_eq_some hattached hput
    have hlast : b.tabulation.table.lastChild? b.tabulation.current =
        some ⟨n.id, some id, n.content, n.children.map Node.id⟩ := hcurrent ▸ hchild
    cases n with
    | tag nid head closing inside => exact hsame rfl (by rw [Tabulation.isolate, hlast]; rfl)
    | text nid value position attached =>
      obtain rfl : attached = true := hattached
      simp only [Node.id, Node.content] at hlast
      by_cases hblank : Text.allBlank value = true
      · have htable : b.isolate.table = b.table.removeLastChild id := by
          rw [h.removeLastChild_eq hput, table, hisolate, detachBlank, hblank]
          rfl
        rw [htable, Table.length_removeLastChild]
        refine ⟨?_, h.linked.removeLastChild hchild rfl hblank, h.next⟩
        simp only [Tabulation.isolate, hlast, if_pos hblank]
        rw [hcurrent]
        rfl
      · refine hsame ?_ (by simp only [Tabulation.isolate, hlast, if_neg hblank]; rfl)
        simp only [detachBlank, hblank, Bool.not_false, Bool.and_true]

/-- What the current row says is what the innermost open tag does. -/
theorem currentHead?_eq (h : b.Tracked) :
    b.tabulation.currentHead? = b.openTags.head?.map OpenTag.head := by
  obtain ⟨l, outer, hlayers, hcurrent, -⟩ := b.exists_layers
  have hrow := h.linked.getElem?_id (rows_table hlayers)
  have hlookup : b.tabulation.table.rows[b.tabulation.current]? =
      some (l.row (outer.head?.map Layer.id) []) := hcurrent ▸ hrow
  have hhead : b.tabulation.currentHead? = l.content.head? := by
    rw [Tabulation.currentHead?, hlookup]
    rfl
  rw [hhead, openTags]
  cases hstack : b.stack <;> rw [layers, hstack] at hlayers <;>
    obtain ⟨rfl, rfl⟩ := List.cons.inj hlayers <;> rfl

theorem closesCurrent_eq (h : b.Tracked) (name : Text) (family : Value) :
    b.tabulation.closesCurrent name family = b.closesInnermost name family := by
  rw [Tabulation.closesCurrent, currentHead?_eq h, closesInnermost, openTags]
  cases hstack : b.stack with
  | nil => rfl
  | cons t stack =>
    have hname := h.named_head hstack
    simp [closes, hname]

theorem insideVerbatim_eq (b : Building) : b.tabulation.insideVerbatim = b.insideVerbatim := by
  obtain ⟨next, stack, top⟩ := b
  cases stack <;> rfl

theorem currentName_eq (h : b.Tracked) :
    b.tabulation.currentHead?.bind TagHead.name = b.innermostName? := by
  rw [currentHead?_eq h, innermostName?, openTags]
  cases hstack : b.stack with
  | nil => rfl
  | cons t stack =>
    have hname := h.named_head hstack
    exact hname

/-! ## Steps -/

/-- The results of building the table and of building the document. -/
inductive Tabulates : Except BuildFault Tabulation → Except BuildFault Building → Prop
  | ok {b : Building} (h : b.Ready) : Tabulates (.ok b.tabulation) (.ok b)
  | error (fault : BuildFault) : Tabulates (.error fault) (.error fault)

theorem Tabulates.of_eq {t : Tabulation} (h : b.Ready) (heq : b.tabulation = t) :
    Tabulates (.ok t) (.ok b) :=
  heq ▸ .ok h

theorem ready_empty : empty.Ready where
  linked := Table.linked_empty
  next := rfl
  named := nofun
  settled l hl n hn := by
    cases hl
    cases hn

/-- A document is ready after a leaf. -/
theorem Tracked.ready_attach (h : b.Tracked) {n : Node} {content : Content} (hid : n.id = b.next)
    (hattached : n.isAttached = true)
    (hrecords : ∀ p, n.records p = [⟨b.next, some p, content, []⟩]) :
    Ready { b.attach n with next := b.next + 1 } ∧
      tabulation { b.attach n with next := b.next + 1 } =
        { b.tabulation with table := b.table.add b.tabulation.current content } := by
  obtain ⟨q, hq, hholds⟩ := h.exists_current
  have htable : table { b.attach n with next := b.next + 1 } =
      b.table.add b.tabulation.current content := h.table_attach hid hattached hrecords
  have hopen : openTags { b.attach n with next := b.next + 1 } = b.openTags := openTags_attach b n
  refine ⟨⟨⟨htable ▸ h.linked.add hq hholds, ?_, hopen ▸ h.named⟩, ?_⟩, ?_⟩
  · rw [htable, Table.length_add, h.next]
  · obtain ⟨l, outer, -, -, hattach, -⟩ := b.exists_layers
    intro l' hl' n' hn'
    have hlayers : layers { b.attach n with next := b.next + 1 } = l.put n :: outer := hattach n
    rw [hlayers] at hl'
    cases hl'
    cases hn'
    exact hattached
  · rw [tabulation, htable, hopen]
    rfl

/-- A document is ready after a tag has been opened. -/
theorem Tracked.ready_openTag (h : b.Tracked) {name : Text} {head : TagHead} (verbatim : Bool)
    (hname : head.name = some name) : (b.openTag name head verbatim).Ready ∧
      (b.openTag name head verbatim).tabulation = b.tabulation.openTag head verbatim := by
  obtain ⟨q, hq, hholds⟩ := h.exists_current
  have htable := h.table_openTag name head verbatim
  refine ⟨⟨⟨htable ▸ h.linked.add hq hholds, ?_, fun t ht => ?_⟩, fun l hl n hn => ?_⟩, ?_⟩
  · rw [htable, Table.length_add, h.next]
    rfl
  · rcases List.mem_cons.mp ht with rfl | ht
    · exact hname
    · exact h.named t ht
  · cases hl
    cases hn
  · have hid : b.tabulation.table.rows.length = b.next := h.next
    rw [tabulation, htable, Tabulation.openTag, hid]
    rfl

/-- A document is ready after a tag has been closed. -/
theorem Tracked.ready_closeTag (h : b.Tracked) {t : OpenTag} {stack : List OpenTag}
    (hstack : b.stack = t :: stack) (index : Nat) :
    (b.closeTag index).Ready ∧ (b.closeTag index).tabulation = b.tabulation.closeTag index := by
  have htable := h.table_closeTag hstack index
  have hclosed : b.closeTag index = attach { b with stack := stack }
      (.tag t.id t.head (some index) t.children.reverse) := by
    rw [closeTag, hstack]
  have hopen : (b.closeTag index).openTags = b.openTags.tail := by
    rw [hclosed, openTags_attach, openTags, openTags, hstack]
    rfl
  have hcurrent : b.tabulation.current = t.id := by
    rw [tabulation, openTags, hstack]
    rfl
  refine ⟨⟨⟨htable ▸ h.linked.close t.id index, ?_, fun t' ht' => ?_⟩, ?_⟩, ?_⟩
  · rw [htable, Table.close, Table.update, List.length_modify, h.next, hclosed, next_attach]
  · exact h.named t' (List.mem_of_mem_tail (hopen ▸ ht'))
  · obtain ⟨l, outer, -, -, hattach, -⟩ := exists_layers { b with stack := stack }
    intro l' hl' n' hn'
    rw [hclosed, hattach] at hl'
    cases hl'
    cases hn'
    rfl
  · rw [tabulation, htable, hopen, Tabulation.closeTag, hcurrent, List.map_tail]
    rfl

theorem tabulates_addText (h : b.Ready) (value : Text) (position : Position) :
    Tabulates (.ok (b.tabulation.addText value position)) (.ok (b.addText value position)) := by
  obtain ⟨hready, heq⟩ := h.ready_attach (n := .text b.next value position true) rfl rfl
    fun _ => rfl
  exact .of_eq hready heq

theorem tabulates_addTag (h : b.Ready) (index : Nat) (position : Position) (tag : Tag) :
    Tabulates (.ok (b.tabulation.addTag index position tag))
      (.ok (b.addTag index position tag)) := by
  cases tag with
  | anonymous family raw arguments =>
    obtain ⟨hready, heq⟩ := h.ready_attach
      (n := .tag b.next ⟨none, family, arguments, raw, index, position⟩ none []) rfl rfl
      fun _ => rfl
    exact .of_eq hready heq
  | opening => exact .ok h
  | closing => exact .ok h

/-- Whitespace is detached from the table as it is from the document, and a tag can be opened. -/
theorem Ready.tracked_isolate (h : b.Ready) :
    b.isolate.Tracked ∧ b.isolate.tabulation = b.tabulation.isolate := by
  obtain ⟨htable, hlinked, hlength⟩ := table_isolate h.toTracked h.settled
  have hstack : b.tabulation.isolate.stack = b.tabulation.stack := by
    rw [Tabulation.isolate]
    split
    · split <;> rfl
    · rfl
  refine ⟨⟨hlinked, hlength.trans (next_isolate b).symm, openTags_isolate b ▸ h.named⟩, ?_⟩
  rw [tabulation, openTags_isolate, ← htable]
  exact congrArg (Tabulation.mk _) hstack.symm

theorem tabulates_openTag (h : b.Ready) {name : Text} {head : TagHead} (isolated verbatim : Bool)
    (hname : head.name = some name) :
    Tabulates
      (.ok ((if isolated then b.tabulation.isolate else b.tabulation).openTag head verbatim))
      (.ok ((if isolated then b.isolate else b).openTag name head verbatim)) := by
  cases isolated with
  | false =>
    obtain ⟨hready, heq⟩ := h.ready_openTag verbatim hname
    exact .of_eq hready heq
  | true =>
    obtain ⟨htracked, hisolate⟩ := h.tracked_isolate
    obtain ⟨hready, heq⟩ := htracked.ready_openTag verbatim hname
    exact .of_eq hready (heq.trans (by rw [hisolate]; rfl))

theorem tabulates_closeTag (h : b.Ready) (index : Nat) {name : Text} {family : Value}
    (hcloses : b.closesInnermost name family = true) :
    Tabulates (.ok (b.tabulation.closeTag index)) (.ok (b.closeTag index)) := by
  cases hstack : b.stack with
  | nil =>
    rw [closesInnermost, hstack] at hcloses
    cases hcloses
  | cons t stack =>
    obtain ⟨hready, heq⟩ := h.ready_closeTag hstack index
    exact .of_eq hready heq

theorem tabulates_addReading (h : b.Ready) (families : List Family) (index : Nat)
    (segment : Segment) (family : Option Value) (reading : Except Tag.Fault (Option Tag)) :
    Tabulates (b.tabulation.addReading families index segment family reading)
      (b.addReading families index segment family reading) := by
  rcases reading with fault | _ | tag
  · exact .error _
  · simp only [Tabulation.addReading, addReading, insideVerbatim_eq]
    split
    · exact tabulates_addText h _ _
    · cases Tag.readAnonymous families family segment.raw with
      | ok tag => exact tabulates_addTag h _ _ _
      | error fault => exact .error _
  · cases tag with
    | opening name key isolated verbatim raw arguments =>
      simp only [Tabulation.addReading, addReading, insideVerbatim_eq]
      split
      · exact tabulates_addText h _ _
      · exact tabulates_openTag h isolated verbatim rfl
    | closing name key isolated verbatim =>
      simp only [Tabulation.addReading, addReading, insideVerbatim_eq,
        closesCurrent_eq h.toTracked, currentName_eq h.toTracked]
      split
      · rename_i hcloses
        exact tabulates_closeTag h index hcloses
      · split
        · exact tabulates_addText h _ _
        · exact .error _
    | anonymous key raw arguments =>
      simp only [Tabulation.addReading, addReading, insideVerbatim_eq]
      split
      · exact tabulates_addText h _ _
      · exact tabulates_addTag h _ _ _

/-- **Adding a segment to the table matches adding it to the document.** -/
theorem tabulates_add (h : b.Ready) (families : List Family) (index : Nat) (segment : Segment) :
    Tabulates (b.tabulation.add families index segment) (b.add families index segment) := by
  rw [Tabulation.add, add]
  cases segment.kind with
  | text => exact tabulates_addText h _ _
  | tag family => exact tabulates_addReading h _ _ _ _ _

/-- So does adding several, by induction on them. -/
theorem tabulates_addAll (families : List Family) (segments : List Segment) (h : b.Ready)
    (index : Nat) :
    Tabulates (b.tabulation.addAll families index segments) (b.addAll families index segments) := by
  induction segments generalizing b index with
  | nil => exact .ok h
  | cons segment rest ih =>
    have hadd := tabulates_add h families index segment
    rw [Tabulation.addAll, addAll]
    generalize b.tabulation.add families index segment = t,
      b.add families index segment = b' at hadd
    cases hadd with
    | ok hready => exact ih hready (index + 1)
    | error fault => exact .error fault

theorem tabulates_segments (families : List Family) (segments : List Segment) :
    Tabulates (Tabulation.empty.addAll families 0 segments)
      (empty.addAll families 0 segments) :=
  tabulates_addAll families segments ready_empty 0

/-- Where no tag is open, the rows are those of the nodes outside of all tags. -/
theorem table_of_finish {children : List Node} (h : b.finish = .ok children)
    (segments : List Segment) : b.table = ⟨Document.records ⟨children, segments⟩⟩ := by
  rw [finish] at h
  cases hstack : b.stack with
  | nil =>
    rw [hstack] at h
    obtain rfl := Except.ok.inj h
    rw [table, layers, hstack, List.map_nil, List.nil_append, Layer.rows, Layer.row,
      List.append_nil]
    rfl
  | cons t stack => simp [hstack] at h

theorem finish_eq (h : b.Tracked) : b.tabulation.finish = b.finish.map fun _ => b.table := by
  rw [Tabulation.finish, currentHead?_eq h, finish, openTags]
  cases hstack : b.stack with
  | nil => rfl
  | cons t stack =>
    have hname := h.named_head hstack
    simp only [List.map_cons, List.head?_cons, Option.map_some, hname, Option.getD_some]
    rfl

end Building

namespace Table

/-- **The table of segments is the one of their document**, and there is none where they make no
document. -/
theorem ofSegments_eq (families : List Family) (segments : List Segment) :
    ofSegments families segments =
      (Document.ofSegments families segments).map fun document => ⟨document.records⟩ := by
  have htabulates := Building.tabulates_segments families segments
  rw [ofSegments, Document.ofSegments]
  generalize Tabulation.empty.addAll families 0 segments = t,
    Building.empty.addAll families 0 segments = b at htabulates
  cases htabulates with
  | @ok b hready =>
    show b.tabulation.finish = (b.finish.map _).map _
    rw [Building.finish_eq hready.toTracked]
    cases hfinish : b.finish with
    | ok children =>
      exact congrArg Except.ok (Building.table_of_finish hfinish segments)
    | error fault => rfl
  | error fault => rfl

/-- **The links of the table of a document are kept**, as each step of building it keeps them. -/
theorem linked_of_ofSegments {families : List Family} {segments : List Segment}
    {document : Document} (h : Document.ofSegments families segments = .ok document) :
    Linked ⟨document.records⟩ := by
  have htabulates := Building.tabulates_segments families segments
  rw [Document.ofSegments] at h
  generalize Tabulation.empty.addAll families 0 segments = t,
    Building.empty.addAll families 0 segments = b at htabulates h
  cases htabulates with
  | @ok b hready =>
    cases hfinish : b.finish with
    | ok children =>
      simp only [hfinish, Except.map, Except.ok.injEq] at h
      rw [← h, ← Building.table_of_finish hfinish segments]
      exact hready.linked
    | error fault => simp [hfinish, Except.map] at h
  | error fault => cases h

end Table
end Stencil
