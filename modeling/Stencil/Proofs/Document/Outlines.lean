import Stencil.Document.Outline
import Stencil.Proofs.Document.Postorder

/-! # Outlines by recursion

The outline of a node is made of what is shown of the node itself, and of the outlines of the nodes
that belong to it, in their order (`Outline.ofNode_eq`).  Read from the front, with what is inside
behind what it is inside of, it shows the nodes that the walk from the node comes by, each at its
depth (`Node.flatten_ofNode`, `Node.map_visit`).  These are the rows of the table that belong to the
row of the node, directly or to one that does (`Document.Arena.mem_descent_iff`).

All this is said of a row of the table and of the nodes that stand inside its node
(`Document.Inside`): a text and a tag without name have none, and the row of the document has all.
-/

namespace Stencil

/-- What an outline shows of a content that outlines stand inside of. -/
def Content.outline : Content → List Outline → Outline
  | .document, inside => .tag Outline.documentHead inside
  | .text value _, _ => .text value
  | .tag head _, inside => .tag (Outline.headOf head) inside

namespace Outline

/-- Nothing fails in an outline. -/
theorem applyAll_rule (nodes : List Node) : ∃ outlines, rule.applyAll nodes = .ok outlines := by
  cases rule.applyAll nodes with
  | error fault => exact fault.elim
  | ok outlines => exact ⟨outlines, rfl⟩

theorem applyAll_eq_ofNodes (nodes : List Node) :
    rule.applyAll nodes = .ok (ofNodes (nodes.filter Node.isAttached)) := by
  obtain ⟨outlines, h⟩ := applyAll_rule nodes
  rw [ofNodes, rule.run_filter, h]

theorem apply_eq_ofNode (n : Node) : rule.apply n = .ok (ofNode n) := by
  cases n with
  | text => rfl
  | tag id head closing children =>
    rw [Rule.apply, applyAll_eq_ofNodes]
    rfl

/-- The outlines of a row are those of its members. -/
theorem ofNodes_filter (nodes : List Node) :
    ofNodes (nodes.filter Node.isAttached) = (nodes.filter Node.isAttached).map ofNode := by
  refine Except.ok.inj ((applyAll_eq_ofNodes nodes).symm.trans ?_)
  induction nodes with
  | nil => rfl
  | cons n rest ih =>
    rw [Rule.applyAll]
    by_cases hn : n.isAttached = true
    · rw [if_pos hn, apply_eq_ofNode, ih, List.filter_cons_of_pos hn, List.map_cons]
    · rw [if_neg hn, ih, List.filter_cons_of_neg hn]

/-- **The outline of a node by recursion.** -/
theorem ofNode_eq (n : Node) : ofNode n = n.content.outline (n.children.map ofNode) := by
  cases n with
  | text => rfl
  | tag id head closing children =>
    rw [ofNode, Node.children, ofNodes_filter]
    rfl

mutual

/-- What an outline shows, from the front to the back, without what is inside and with the depth at
which it is shown. -/
def flatten (depth : Nat) : Outline → List (Nat × Outline)
  | .text value => [(depth, .text value)]
  | .tag head inside => (depth, .tag head []) :: flattenAll (depth + 1) inside

@[inherit_doc flatten]
def flattenAll (depth : Nat) : List Outline → List (Nat × Outline)
  | [] => []
  | o :: rest => flatten depth o ++ flattenAll depth rest

end

end Outline

namespace Node

mutual

/-- The records of a node that stands inside the node `p`, and of what belongs to it, each with its
depth. -/
def descent (p depth : Nat) : Node → List (Nat × Record)
  | .text id value position attached =>
    [(depth, ⟨id, if attached then some p else none, .text value position, []⟩)]
  | .tag id head closing children =>
    (depth, ⟨id, some p, .tag head closing, members children⟩) ::
      descentAll id (depth + 1) children

/-- The records of what belongs to a row, each with its depth. -/
def descentAll (p depth : Nat) : List Node → List (Nat × Record)
  | [] => []
  | n :: rest =>
    if n.isAttached then descent p depth n ++ descentAll p depth rest else descentAll p depth rest

end

mutual

theorem descent_sublist (p depth : Nat) : ∀ n : Node,
    ((descent p depth n).map Prod.snd).Sublist (records p n)
  | .text _ _ _ _ => List.Sublist.refl _
  | .tag id _ _ children => (descentAll_sublist id (depth + 1) children).cons_cons _

/-- What belongs to a row stands in the table in the same order. -/
theorem descentAll_sublist (p depth : Nat) : ∀ nodes : List Node,
    ((descentAll p depth nodes).map Prod.snd).Sublist (recordsAll p nodes)
  | [] => List.Sublist.refl _
  | n :: rest => by
    rw [descentAll, recordsAll]
    split
    · rw [List.map_append]
      exact (descent_sublist p depth n).append (descentAll_sublist p depth rest)
    · exact (descentAll_sublist p depth rest).trans (List.sublist_append_right _ _)

end

mutual

/-- **The walk comes by what belongs to a node**, before it goes on. -/
theorem map_visit (p depth : Nat) (stack : List Node) : ∀ n : Node,
    (visit (n :: stack)).map (fun m => (m.id, m.content)) =
      (descent p depth n).map (fun e => (e.2.id, e.2.content)) ++
        (visit stack).map fun m => (m.id, m.content)
  | .text _ _ _ _ => by
    rw [visit]
    rfl
  | .tag id _ _ children => by
    rw [visit, List.map_cons, Node.children, map_visitAll id (depth + 1) stack children]
    rfl

theorem map_visitAll (p depth : Nat) (stack : List Node) : ∀ nodes : List Node,
    (visit (nodes.filter isAttached ++ stack)).map (fun m => (m.id, m.content)) =
      (descentAll p depth nodes).map (fun e => (e.2.id, e.2.content)) ++
        (visit stack).map fun m => (m.id, m.content)
  | [] => rfl
  | n :: rest => by
    rw [descentAll]
    by_cases hn : n.isAttached = true
    · rw [List.filter_cons_of_pos hn, if_pos hn, List.cons_append, map_visit p depth _ n,
        map_visitAll p depth stack rest, List.map_append, List.append_assoc]
    · rw [List.filter_cons_of_neg hn, if_neg hn, map_visitAll p depth stack rest]

end

mutual

/-- **An outline shows what belongs to a node**, in the order of the table. -/
theorem flatten_ofNode (p depth : Nat) : ∀ n : Node,
    (Outline.ofNode n).flatten depth =
      (descent p depth n).map fun e => (e.1, e.2.content.outline [])
  | .text _ _ _ _ => rfl
  | .tag id head closing children => by
    rw [Outline.ofNode_eq]
    show _ :: Outline.flattenAll (depth + 1) ((children.filter isAttached).map Outline.ofNode) = _
    rw [flattenAll_ofNode id (depth + 1) children]
    rfl

theorem flattenAll_ofNode (p depth : Nat) : ∀ nodes : List Node,
    Outline.flattenAll depth ((nodes.filter isAttached).map Outline.ofNode) =
      (descentAll p depth nodes).map fun e => (e.1, e.2.content.outline [])
  | [] => rfl
  | n :: rest => by
    rw [descentAll]
    by_cases hn : n.isAttached = true
    · rw [List.filter_cons_of_pos hn, if_pos hn, List.map_cons, Outline.flattenAll,
        flatten_ofNode p depth n, flattenAll_ofNode p depth rest, List.map_append]
    · rw [List.filter_cons_of_neg hn, if_neg hn, flattenAll_ofNode p depth rest]

end

/-! ## Depths -/

mutual

theorem exists_descent_of_mem_children (p depth : Nat) : ∀ (n : Node) {d : Nat} {q : Record},
    (d, q) ∈ descent p depth n → ∀ c ∈ q.children, ∃ r, (d + 1, r) ∈ descent p depth n ∧ r.id = c
  | .text _ _ _ _, d, q, h, c, hc => by
    obtain ⟨rfl, rfl⟩ := Prod.mk.inj (List.mem_singleton.mp h)
    cases hc
  | .tag id head closing children, d, q, h, c, hc => by
    rcases List.mem_cons.mp h with heq | h
    · obtain ⟨rfl, rfl⟩ := Prod.mk.inj heq
      obtain ⟨r, hr, hid⟩ := exists_descentAll_of_mem_members id (d + 1) children c hc
      exact ⟨r, List.mem_cons_of_mem _ hr, hid⟩
    · obtain ⟨r, hr, hid⟩ := exists_descentAll_of_mem_children id (depth + 1) children h c hc
      exact ⟨r, List.mem_cons_of_mem _ hr, hid⟩

/-- The members of a row are at its depth. -/
theorem exists_descentAll_of_mem_members (p depth : Nat) : ∀ (nodes : List Node),
    ∀ c ∈ members nodes, ∃ r, (depth, r) ∈ descentAll p depth nodes ∧ r.id = c
  | [], c, hc => absurd hc List.not_mem_nil
  | n :: rest, c, hc => by
    rw [members] at hc
    rw [descentAll]
    by_cases hn : n.isAttached = true
    · rw [List.filter_cons_of_pos hn, List.map_cons] at hc
      rw [if_pos hn]
      rcases List.mem_cons.mp hc with rfl | hc
      · cases n <;> exact ⟨_, List.mem_append_left _ List.mem_cons_self, rfl⟩
      · obtain ⟨r, hr, hid⟩ := exists_descentAll_of_mem_members p depth rest c hc
        exact ⟨r, List.mem_append_right _ hr, hid⟩
    · rw [List.filter_cons_of_neg hn] at hc
      rw [if_neg hn]
      exact exists_descentAll_of_mem_members p depth rest c hc

/-- What belongs to something of a depth is one deeper. -/
theorem exists_descentAll_of_mem_children (p depth : Nat) : ∀ (nodes : List Node) {d : Nat}
    {q : Record}, (d, q) ∈ descentAll p depth nodes → ∀ c ∈ q.children,
      ∃ r, (d + 1, r) ∈ descentAll p depth nodes ∧ r.id = c
  | [], _, _, h, _, _ => absurd h List.not_mem_nil
  | n :: rest, d, q, h, c, hc => by
    rw [descentAll] at h ⊢
    by_cases hn : n.isAttached = true
    · rw [if_pos hn] at h ⊢
      rcases List.mem_append.mp h with h | h
      · obtain ⟨r, hr, hid⟩ := exists_descent_of_mem_children p depth n h c hc
        exact ⟨r, List.mem_append_left _ hr, hid⟩
      · obtain ⟨r, hr, hid⟩ := exists_descentAll_of_mem_children p depth rest h c hc
        exact ⟨r, List.mem_append_right _ hr, hid⟩
    · rw [if_neg hn] at h ⊢
      exact exists_descentAll_of_mem_children p depth rest h c hc

end

/-- What belongs to the node `p` at a depth, or to one of the rows that is one higher. -/
def Hangs (p depth : Nat) (rows : List (Nat × Record)) (e : Nat × Record) : Prop :=
  (e.1 = depth ∧ e.2.parent = some p) ∨
    ∃ above ∈ rows, e.1 = above.1 + 1 ∧ e.2.parent = some above.2.id

theorem Hangs.mono {p depth : Nat} {rows rows' : List (Nat × Record)} {e : Nat × Record}
    (h : Hangs p depth rows e) (hsubset : rows ⊆ rows') : Hangs p depth rows' e := by
  rcases h with hrow | ⟨above, habove, hdepth, hparent⟩
  · exact Or.inl hrow
  · exact Or.inr ⟨above, hsubset habove, hdepth, hparent⟩

mutual

theorem hangs_descent (p depth : Nat) : ∀ n : Node, n.isAttached = true →
    ∀ e ∈ descent p depth n, Hangs p depth (descent p depth n) e
  | .text _ _ _ _, hn, e, he => by
    rw [List.mem_singleton.mp he]
    exact Or.inl ⟨rfl, if_pos hn⟩
  | .tag id head closing children, _, e, he => by
    rcases List.mem_cons.mp he with rfl | he
    · exact Or.inl ⟨rfl, rfl⟩
    · -- what belongs to the row inside belongs to the tag
      rcases hangs_descentAll id (depth + 1) children e he with ⟨hdepth, hparent⟩ | hinside
      · exact Or.inr ⟨_, List.mem_cons_self, hdepth, hparent⟩
      · obtain ⟨above, habove, hdepth, hparent⟩ := hinside
        exact Or.inr ⟨above, List.mem_cons_of_mem _ habove, hdepth, hparent⟩

/-- Everything at a depth belongs to something one higher. -/
theorem hangs_descentAll (p depth : Nat) : ∀ nodes : List Node,
    ∀ e ∈ descentAll p depth nodes, Hangs p depth (descentAll p depth nodes) e
  | [], e, he => absurd he List.not_mem_nil
  | n :: rest, e, he => by
    rw [descentAll] at he ⊢
    by_cases hn : n.isAttached = true
    · rw [if_pos hn] at he ⊢
      rcases List.mem_append.mp he with he | he
      · exact (hangs_descent p depth n hn e he).mono (List.subset_append_left _ _)
      · exact (hangs_descentAll p depth rest e he).mono (List.subset_append_right _ _)
    · rw [if_neg hn] at he ⊢
      exact hangs_descentAll p depth rest e he

end

/-! ## Nodes by number -/

mutual

theorem withId?_of_notMem {id : Nat} (p : Nat) : ∀ {n : Node},
    id ∉ (records p n).map Record.id → withId? id n = none
  | .text _ _ _ _, h => by
    exact if_neg (Ne.symm (List.ne_of_not_mem_cons h))
  | .tag own _ _ children, h => by
    refine (if_neg (Ne.symm (List.ne_of_not_mem_cons h))).trans ?_
    exact withIdAll?_of_notMem own (List.not_mem_of_not_mem_cons h)

/-- No node has a number that is not in the table. -/
theorem withIdAll?_of_notMem {id : Nat} (p : Nat) : ∀ {nodes : List Node},
    id ∉ (recordsAll p nodes).map Record.id → withIdAll? id nodes = none
  | [], _ => rfl
  | n :: rest, h => by
    rw [recordsAll, List.map_append] at h
    rw [withIdAll?, withId?_of_notMem p fun hmem => h (List.mem_append_left _ hmem),
      withIdAll?_of_notMem p fun hmem => h (List.mem_append_right _ hmem)]

end

/-- A row consists of what its nodes consist of. -/
theorem records_subset_recordsAll (p : Nat) {nodes : List Node} {m : Node} (hm : m ∈ nodes) :
    records p m ⊆ recordsAll p nodes := by
  induction nodes with
  | nil => exact absurd hm List.not_mem_nil
  | cons n rest ih =>
    rcases List.mem_cons.mp hm with rfl | hm
    · exact List.subset_append_left _ _
    · exact List.subset_append_of_subset_right _ (ih hm)

theorem id_mem_recordsAll (p : Nat) {nodes : List Node} {m : Node} (hm : m ∈ nodes) :
    m.id ∈ (recordsAll p nodes).map Record.id :=
  List.map_subset _ (records_subset_recordsAll p hm) (m.id_mem_records p)

/-- The nodes that stand inside a node, those that belong to nothing included. -/
def inner : Node → List Node
  | .text _ _ _ _ => []
  | .tag _ _ _ children => children

/-- Numbers inside a tag lead past the tag itself. -/
theorem withId?_eq_inner {id own : Nat} {head : TagHead} {closing : Option Nat}
    {children : List Node} (hown : own ∉ (recordsAll own children).map Record.id)
    (hid : id ∈ (recordsAll own children).map Record.id) :
    withId? id (.tag own head closing children) = withIdAll? id children :=
  if_neg fun heq : own = id => hown (heq ▸ hid)

section
variable {p id : Nat} {n : Node} {rest : List Node}
  (hdistinct : ((recordsAll p (n :: rest)).map Record.id).Nodup)
include hdistinct

/-- Numbers of the first node of a row lead into it. -/
theorem withIdAll?_cons_eq_first (hid : id ∈ (records p n).map Record.id) :
    withIdAll? id (n :: rest) = withId? id n := by
  rw [recordsAll, List.map_append] at hdistinct
  have hrest : withIdAll? id rest = none :=
    withIdAll?_of_notMem p fun hlater => (List.nodup_append.mp hdistinct).2.2 id hid id hlater rfl
  rw [withIdAll?, hrest]
  cases withId? id n <;> rfl

/-- Numbers of the other nodes of a row lead past the first one. -/
theorem withIdAll?_cons_eq_rest (hid : id ∈ (recordsAll p rest).map Record.id) :
    withIdAll? id (n :: rest) = withIdAll? id rest := by
  rw [recordsAll, List.map_append] at hdistinct
  have hfirst : withId? id n = none :=
    withId?_of_notMem p fun hmem => (List.nodup_append.mp hdistinct).2.2 id hmem id hid rfl
  rw [withIdAll?, hfirst]

end

/-- A node of a row is found by its number. -/
theorem withIdAll?_of_mem {p : Nat} {nodes : List Node}
    (hdistinct : ((recordsAll p nodes).map Record.id).Nodup) {m : Node} (hm : m ∈ nodes) :
    withIdAll? m.id nodes = some m := by
  induction nodes with
  | nil => exact absurd hm List.not_mem_nil
  | cons n rest ih =>
    rcases List.mem_cons.mp hm with rfl | hm
    · rw [withIdAll?_cons_eq_first hdistinct (m.id_mem_records p)]
      cases m <;> exact if_pos rfl
    · rw [withIdAll?_cons_eq_rest hdistinct (id_mem_recordsAll p hm)]
      rw [recordsAll, List.map_append] at hdistinct
      exact ih hdistinct.of_append_right hm

/-- That a record of a table is that of a node, `find` finding nodes by number. -/
structure Located (find : Nat → Option Node) (table : List Record) (r : Record) (n : Node) :
    Prop where
  found : find r.id = some n
  record : ∃ p, records p n = r :: recordsAll r.id n.inner
  listed : (r :: recordsAll r.id n.inner).Sublist table
  /-- What is inside the node is found inside it. -/
  within : ∀ id ∈ (recordsAll r.id n.inner).map Record.id, find id = withIdAll? id n.inner

theorem Located.lift {find find' : Nat → Option Node} {table table' : List Record} {r : Record}
    {n : Node} (h : Located find table r n) (hfind : ∀ id ∈ table.map Record.id, find' id = find id)
    (hsublist : table.Sublist table') : Located find' table' r n where
  found := by
    rw [hfind r.id (List.mem_map_of_mem (h.listed.subset List.mem_cons_self)), h.found]
  record := h.record
  listed := h.listed.trans hsublist
  within id hid := by
    have hmem := (h.listed.map Record.id).subset (List.mem_cons_of_mem r.id hid)
    rw [hfind id hmem, h.within id hid]

mutual

theorem exists_located (p : Nat) : ∀ {n : Node}, ((records p n).map Record.id).Nodup →
    ∀ r ∈ records p n, ∃ m, Located (withId? · n) (records p n) r m
  | .text id t position attached, _, r, hr => by
    obtain rfl := List.mem_singleton.mp hr
    exact ⟨_, if_pos rfl, ⟨p, rfl⟩, List.Sublist.refl _, fun _ h => absurd h List.not_mem_nil⟩
  | .tag id head closing children, hdistinct, r, hr => by
    obtain ⟨hown, hinside⟩ := List.nodup_cons.mp hdistinct
    rcases List.mem_cons.mp hr with rfl | hr
    · exact ⟨_, if_pos rfl, ⟨p, rfl⟩, List.Sublist.refl _, fun _ h => withId?_eq_inner hown h⟩
    · obtain ⟨m, hm⟩ := exists_locatedAll id hinside r hr
      exact ⟨m, hm.lift (fun _ h => withId?_eq_inner hown h) (List.sublist_cons_self _ _)⟩

/-- **A row of the table is that of the node with its number.** -/
theorem exists_locatedAll (p : Nat) : ∀ {nodes : List Node},
    ((recordsAll p nodes).map Record.id).Nodup → ∀ r ∈ recordsAll p nodes,
      ∃ m, Located (withIdAll? · nodes) (recordsAll p nodes) r m
  | [], _, r, hr => absurd hr List.not_mem_nil
  | n :: rest, hdistinct, r, hr => by
    have hparts := hdistinct
    rw [recordsAll, List.map_append] at hparts
    rcases List.mem_append.mp hr with hr | hr
    · obtain ⟨m, hm⟩ := exists_located p hparts.of_append_left r hr
      exact ⟨m, hm.lift (fun _ h => withIdAll?_cons_eq_first hdistinct h)
        (List.sublist_append_left _ _)⟩
    · obtain ⟨m, hm⟩ := exists_locatedAll p hparts.of_append_right r hr
      exact ⟨m, hm.lift (fun _ h => withIdAll?_cons_eq_rest hdistinct h)
        (List.sublist_append_right _ _)⟩

end

end Node

/-! ## The rows of a document -/

/-- That a record belongs to another one over as many others as its depth says. -/
inductive Record.Descends (records : List Record) (r : Record) : Nat → Record → Prop
  | self : Descends records r 0 r
  | inside {depth : Nat} {q c : Record} (h : Descends records r depth q) (hc : c ∈ records)
      (hparent : c.parent = some q.id) : Descends records r (depth + 1) c

namespace Document

/-- The nodes that the walk from the node with a number comes by, this node first. -/
def walkFrom? (document : Document) (id : Nat) : Option (List (Nat × Content)) :=
  if id = 0 then some ((0, .document) :: document.walk.map fun n => (n.id, n.content))
  else (Node.withIdAll? id document.children).map fun n =>
    (Node.visit [n]).map fun m => (m.id, m.content)

/-- That nodes are those that stand inside the node of a record. -/
structure Inside (document : Document) (r : Record) (nodes : List Node) : Prop where
  children : r.children = Node.members nodes
  /-- What they consist of is in the table behind the record, and is found among them. -/
  listed : (r :: Node.recordsAll r.id nodes).Sublist document.records
  within : ∀ id ∈ (Node.recordsAll r.id nodes).map Record.id,
    Node.withIdAll? id document.children = Node.withIdAll? id nodes
  /-- Nothing is inside a text. -/
  text : ∀ value position, r.content = .text value position → nodes = []
  shown : document.outlineOf? r.id =
    some (r.content.outline ((nodes.filter Node.isAttached).map Outline.ofNode))
  walked : document.walkFrom? r.id = some ((r.id, r.content) ::
    (Node.visit (nodes.filter Node.isAttached)).map fun n => (n.id, n.content))

/-- The outline of a node other than the document. -/
theorem outlineOf?_natCast (document : Document) {id : Nat} (h : id ≠ 0) :
    document.outlineOf? id = (Node.withIdAll? id document.children).map Outline.ofNode := by
  have hcast : ¬ (id : Int) < 0 := by omega
  have hzero : ¬ (id : Int) = 0 := by omega
  simp only [outlineOf?, if_neg hcast, if_neg hzero, Int.toNat_natCast]

variable {document : Document} {r : Record} {nodes : List Node}

/-- What belongs to something is known there. -/
theorem Arena.mem_children (harena : document.Arena) {q c : Record} (hq : q ∈ document.records)
    (hc : c ∈ document.records) (hparent : c.parent = some q.id) : c.id ∈ q.children := by
  have hid : c.id ≠ 0 := by
    intro hzero
    obtain rfl : ⟨0, none, .document, document.roots.map Node.id⟩ = c :=
      harena.eq_of_id_eq List.mem_cons_self hc hzero.symm
    cases hparent
  rcases harena.placed c hc hid with hattached | hdetached
  · obtain ⟨q', hq', hparent', -, -, hcount⟩ := hattached.parent
    have hsame : q'.id = q.id := Option.some.inj (hparent'.symm.trans hparent)
    rw [harena.eq_of_id_eq hq' hq hsame] at hcount
    exact List.count_pos_iff.mp (hcount ▸ Nat.one_pos)
  · cases hdetached.parent.symm.trans hparent

/-- All nodes stand inside the document. -/
theorem inside_document (document : Document) :
    document.Inside ⟨0, none, .document, document.roots.map Node.id⟩ document.children where
  children := rfl
  listed := List.Sublist.refl _
  within _ _ := rfl
  text _ _ h := by cases h
  shown := by
    show some document.outline = _
    rw [Document.outline, roots, Outline.ofNodes_filter]
    rfl
  walked := rfl

/-- **Every row of the table has nodes inside, or none.** -/
theorem Arena.exists_inside (harena : document.Arena) (hr : r ∈ document.records) :
    ∃ nodes, document.Inside r nodes := by
  rcases List.mem_cons.mp hr with rfl | hr
  · exact ⟨document.children, document.inside_document⟩
  · obtain ⟨hzero, hdistinct⟩ := List.nodup_cons.mp harena.nodup_ids
    have hmem : r.id ∈ (Node.recordsAll 0 document.children).map Record.id :=
      List.mem_map_of_mem hr
    have hid : r.id ≠ 0 := fun heq => hzero (heq ▸ hmem)
    obtain ⟨n, hn⟩ := Node.exists_locatedAll 0 hdistinct r hr
    obtain ⟨p, hrecord⟩ := hn.record
    have hfound : Node.withIdAll? r.id document.children = some n := hn.found
    have hshown := document.outlineOf?_natCast hid
    rw [hfound, Option.map_some, Outline.ofNode_eq] at hshown
    have hwalked : document.walkFrom? r.id =
        some ((Node.visit [n]).map fun m => (m.id, m.content)) := by
      rw [walkFrom?, if_neg hid, hfound]
      rfl
    rw [Node.visit, List.append_nil] at hwalked
    cases n with
    | text id value position attached =>
      obtain ⟨rfl, -⟩ := List.cons.inj hrecord
      exact ⟨[], rfl, hn.listed.cons _, hn.within, fun _ _ _ => rfl, hshown, hwalked⟩
    | tag id head closing children =>
      obtain ⟨rfl, -⟩ := List.cons.inj hrecord
      exact ⟨children, rfl, hn.listed.cons _, hn.within, fun _ _ h => (by cases h), hshown, hwalked⟩

/-! ## What an outline shows -/

/-- A record and what belongs to it, each with its depth. -/
def lineage (r : Record) (nodes : List Node) : List (Nat × Record) :=
  (0, r) :: Node.descentAll r.id 1 nodes

namespace Inside

variable (h : document.Inside r nodes)
include h

/-- **The outline of a node is made of those of the nodes that belong to it.** -/
theorem forall₂_outlineOf? (harena : document.Arena) :
    List.Forall₂ (fun c o => document.outlineOf? (c : Nat) = some o) r.children
      ((nodes.filter Node.isAttached).map Outline.ofNode) := by
  have hids : ((r :: Node.recordsAll r.id nodes).map Record.id).Pairwise (· < ·) :=
    List.Pairwise.sublist (harena.numbered ▸ h.listed.map Record.id) List.pairwise_lt_range
  obtain ⟨hbehind, hinside⟩ := List.pairwise_cons.mp hids
  have hdistinct : ((Node.recordsAll r.id nodes).map Record.id).Nodup :=
    hinside.imp fun hlt => Nat.ne_of_lt hlt
  rw [h.children, Node.members, List.forall₂_map_left_iff, List.forall₂_map_right_iff]
  refine List.forall₂_same.mpr fun m hm => ?_
  have hm := List.mem_of_mem_filter hm
  have hid := Node.id_mem_recordsAll r.id hm
  have hne : m.id ≠ 0 := Nat.ne_of_gt (Nat.lt_of_le_of_lt (Nat.zero_le r.id) (hbehind m.id hid))
  rw [outlineOf?_natCast document hne, h.within m.id hid, Node.withIdAll?_of_mem hdistinct hm]
  rfl

/-- The outline shows the lineage. -/
theorem flatten_outline :
    (r.content.outline ((nodes.filter Node.isAttached).map Outline.ofNode)).flatten 0 =
      (lineage r nodes).map fun e => (e.1, e.2.content.outline []) := by
  have hinside := Node.flattenAll_ofNode r.id 1 nodes
  have htext := h.text
  rw [lineage, List.map_cons, ← hinside]
  cases hcontent : r.content with
  | text value position =>
    rw [htext value position hcontent]
    rfl
  | document | tag => rfl

/-- The walk comes by the lineage. -/
theorem walkFrom?_eq :
    document.walkFrom? r.id =
      some ((lineage r nodes).map fun e => (e.2.id, e.2.content)) := by
  have hvisit := Node.map_visitAll r.id 1 [] nodes
  rw [List.append_nil, Node.visit, List.map_nil, List.append_nil] at hvisit
  rw [h.walked, hvisit, lineage, List.map_cons]

theorem lineage_sublist : ((lineage r nodes).map Prod.snd).Sublist document.records :=
  ((Node.descentAll_sublist r.id 1 nodes).cons_cons r).trans h.listed

/-- **What belongs to a node comes once, in the order of the numbers.** -/
theorem increasing_lineage (harena : document.Arena) :
    ((lineage r nodes).map fun e => e.2.id).Pairwise (· < ·) := by
  have hsublist := h.lineage_sublist.map Record.id
  rw [harena.numbered, List.map_map] at hsublist
  exact List.Pairwise.sublist hsublist List.pairwise_lt_range

/-- What belongs to something of the lineage is one deeper. -/
theorem exists_mem_lineage {depth : Nat} {q : Record} (hq : (depth, q) ∈ lineage r nodes) {c : Nat}
    (hc : c ∈ q.children) : ∃ r', (depth + 1, r') ∈ lineage r nodes ∧ r'.id = c := by
  rcases List.mem_cons.mp hq with heq | hq
  · obtain ⟨rfl, rfl⟩ := Prod.mk.inj heq
    rw [h.children] at hc
    obtain ⟨r', hr', hid⟩ := Node.exists_descentAll_of_mem_members q.id 1 nodes c hc
    exact ⟨r', List.mem_cons_of_mem _ hr', hid⟩
  · obtain ⟨r', hr', hid⟩ := Node.exists_descentAll_of_mem_children r.id 1 nodes hq c hc
    exact ⟨r', List.mem_cons_of_mem _ hr', hid⟩

/-- **The lineage of a record is what belongs to it**, directly or to something that does. -/
theorem mem_lineage_iff (harena : document.Arena) {depth : Nat} {q : Record} :
    (depth, q) ∈ lineage r nodes ↔ r.Descends document.records depth q := by
  constructor
  · intro hmem
    induction depth generalizing q with
    | zero =>
      rcases List.mem_cons.mp hmem with heq | hmem
      · obtain ⟨-, rfl⟩ := Prod.mk.inj heq
        exact .self
      · rcases Node.hangs_descentAll r.id 1 nodes _ hmem with ⟨hdepth, -⟩ | ⟨_, -, hdepth, -⟩
        · cases hdepth
        · cases hdepth
    | succ depth ih =>
      have hlisted : q ∈ document.records := h.lineage_sublist.subset (List.mem_map_of_mem hmem)
      rcases List.mem_cons.mp hmem with heq | hmem
      · cases (Prod.mk.inj heq).1
      · rcases Node.hangs_descentAll r.id 1 nodes _ hmem with ⟨hdepth, hparent⟩ | hinside
        · obtain rfl : depth = 0 := Nat.succ.inj hdepth
          exact .inside .self hlisted hparent
        · obtain ⟨⟨depth', above⟩, habove, hdepth, hparent⟩ := hinside
          obtain rfl : depth = depth' := Nat.succ.inj hdepth
          exact .inside (ih (List.mem_cons_of_mem _ habove)) hlisted hparent
  · intro hdescends
    induction hdescends with
    | self => exact List.mem_cons_self
    | @inside depth q c _ hc hparent ih =>
      have hq : q ∈ document.records := h.lineage_sublist.subset (List.mem_map_of_mem ih)
      obtain ⟨r', hr', hid⟩ := h.exists_mem_lineage ih (harena.mem_children hq hc hparent)
      have hlisted : r' ∈ document.records := h.lineage_sublist.subset (List.mem_map_of_mem hr')
      rw [← harena.eq_of_id_eq hlisted hc hid]
      exact hr'

end Inside

end Document

end Stencil
