import Mathlib.Logic.Relation
import Stencil.Proofs.Document.Outlines

/-! # Drafting an outline from the table

An outline is made without recursion, too: by a loop over the table of the nodes (`Drafting.step`).
A stack holds the numbers of the nodes still to be dealt with, each with the place of its draft.
When a tag comes up, what belongs to it is drafted behind all other drafts, with nothing inside yet,
the places are noted in the draft of the tag, and the nodes are put on the stack.  So the last of
them comes up first, and drafts are filled in another order than that of the document.

In the end the first draft depicts the outline that the recursion gives
(`Drafting.exists_finishes`).  The invariant is that a node that comes up changes its own draft and
no other one, and adds drafts behind all others; then its draft depicts its outline, with nothing
inside but what was added (`Drafting.exists_reaches_node`).  So of a row of nodes that come up, each
keeps what the others before it have filled (`Drafting.draftsRow`).
-/

namespace Stencil

/-- An outline that is being made. What is inside a tag is referred to by its place among all
drafts. -/
inductive Draft where
  | text (value : Text)
  | tag (head : OutlineHead) (inside : List Nat)

/-- What a content is drafted as at first, with nothing inside. -/
def Content.draft : Content → Draft
  | .document => .tag Outline.documentHead []
  | .text value _ => .text value
  | .tag head _ => .tag (Outline.headOf head) []

/-! ## What drafts depict -/

mutual

/-- The outline that the draft at a place depicts; all inside is at the place `low` or behind. -/
inductive Draft.Depicts (drafts : List Draft) (low : Nat) : Nat → Outline → Prop
  | text {place : Nat} {value : Text} (h : drafts[place]? = some (.text value)) :
      Depicts drafts low place (.text value)
  | tag {place : Nat} {head : OutlineHead} {places : List Nat} {outlines : List Outline}
      (h : drafts[place]? = some (.tag head places))
      (hinside : DepictsAll drafts low places outlines) :
      Depicts drafts low place (.tag head outlines)

/-- The outlines that the drafts at places depict. -/
inductive Draft.DepictsAll (drafts : List Draft) (low : Nat) : List Nat → List Outline → Prop
  | nil : DepictsAll drafts low [] []
  | cons {place : Nat} {outline : Outline} {places : List Nat} {outlines : List Outline}
      (hlow : low ≤ place) (h : Depicts drafts low place outline)
      (hrest : DepictsAll drafts low places outlines) :
      DepictsAll drafts low (place :: places) (outline :: outlines)

end

namespace Draft

/-- Drafts that are kept from a place on, perhaps with others behind them. -/
def Kept (low : Nat) (drafts drafts' : List Draft) : Prop :=
  ∀ place draft, low ≤ place → drafts[place]? = some draft → drafts'[place]? = some draft

variable {drafts drafts' : List Draft} {low low' : Nat}

mutual

theorem Depicts.mono {place : Nat} {outline : Outline} (h : Depicts drafts low place outline)
    (hlow : low' ≤ low) (hkept : Kept low drafts drafts')
    (hown : ∀ draft, drafts[place]? = some draft → drafts'[place]? = some draft) :
    Depicts drafts' low' place outline := by
  cases h with
  | text h => exact .text (hown _ h)
  | tag h hinside => exact .tag (hown _ h) (hinside.mono hlow hkept)

/-- Drafts depict what they depicted if they are kept. -/
theorem DepictsAll.mono {places : List Nat} {outlines : List Outline}
    (h : DepictsAll drafts low places outlines) (hlow : low' ≤ low)
    (hkept : Kept low drafts drafts') : DepictsAll drafts' low' places outlines := by
  cases h with
  | nil => exact .nil
  | cons hplace h hrest =>
    exact .cons (Nat.le_trans hlow hplace)
      (h.mono hlow hkept fun draft => hkept _ draft hplace) (hrest.mono hlow hkept)

end

mutual

theorem Depicts.unique {place : Nat} {outline outline' : Outline}
    (h : Depicts drafts low place outline) (h' : Depicts drafts low' place outline') :
    outline = outline' := by
  cases h with
  | text h =>
    cases h' with
    | text h' => cases h.symm.trans h'; rfl
    | tag h' _ => cases h.symm.trans h'
  | tag h hinside =>
    cases h' with
    | text h' => cases h.symm.trans h'
    | tag h' hinside' =>
      cases h.symm.trans h'
      rw [hinside.unique hinside']

/-- Drafts depict one outline at a place at most. -/
theorem DepictsAll.unique {places : List Nat} {outlines outlines' : List Outline}
    (h : DepictsAll drafts low places outlines) (h' : DepictsAll drafts low' places outlines') :
    outlines = outlines' := by
  cases h with
  | nil => cases h'; rfl
  | cons _ h hrest =>
    cases h' with
    | cons _ h' hrest' => rw [h.unique h', hrest.unique hrest']

end

theorem kept_refl (low : Nat) (drafts : List Draft) : Kept low drafts drafts := fun _ _ _ h => h

theorem getElem?_own (before : List Draft) (d : Draft) (after : List Draft) :
    (before ++ d :: after)[before.length]? = some d := by
  rw [List.getElem?_append_right (Nat.le_refl _), Nat.sub_self, List.getElem?_cons_zero]

/-- What is behind a draft is kept when it is replaced and others are made. -/
theorem kept_replace (before : List Draft) (d d' : Draft) (after more : List Draft) :
    Kept (before.length + 1) (before ++ d :: after) (before ++ d' :: (after ++ more)) := by
  intro place draft hplace h
  rw [List.getElem?_append_right (by omega)] at h ⊢
  obtain ⟨k, hk⟩ : ∃ k, place - before.length = k + 1 := ⟨place - before.length - 1, by omega⟩
  rw [hk, List.getElem?_cons_succ] at h ⊢
  rw [List.getElem?_append_left (List.getElem?_eq_some_iff.mp h).1, h]

end Draft

/-! ## The loop -/

/-- Where the loop stands. -/
structure Drafting where
  /-- The numbers of the nodes still to be dealt with, each with the place of its draft. -/
  stack : List (Nat × Nat)
  drafts : List Draft

namespace Drafting

/-- What comes of one round of the loop. -/
inductive Progress where
  | running (next : Drafting)
  | ended
  /-- Something is looked up that is not there. -/
  | lost

/-- At first there is a node to be dealt with, of which what is inside is not drafted yet. -/
def start (r : Record) : Drafting := ⟨[(r.id, 0)], [r.content.draft]⟩

/-- Drafts a node that belongs to the one whose draft is at a place. -/
def add (document : Document) (place : Nat) (s : Drafting) (id : Nat) : Option Drafting :=
  match document.records[id]?, s.drafts[place]? with
  | some row, some (.tag head inside) =>
    some ⟨(id, s.drafts.length) :: s.stack,
      s.drafts.set place (.tag head (inside ++ [s.drafts.length])) ++ [row.content.draft]⟩
  | _, _ => none

/-- One round of the loop. -/
def step (document : Document) (s : Drafting) : Progress :=
  match s.stack with
  | [] => .ended
  | (id, place) :: stack =>
    match document.records[id]? with
    | none => .lost
    | some row =>
      match row.content with
      | .text _ _ => .running ⟨stack, s.drafts⟩
      | _ =>
        match row.children.foldlM (add document place) ⟨stack, s.drafts⟩ with
        | some next => .running next
        | none => .lost

/-- That the loop gets from one place to another. -/
def Reaches (document : Document) : Drafting → Drafting → Prop :=
  Relation.ReflTransGen fun s t => s.step document = .running t

/-- Nodes with the places of their drafts, which are next to each other. -/
def entries (place : Nat) (nodes : List Node) : List (Nat × Nat) :=
  (nodes.zipIdx place).map fun e => (e.1.id, e.2)

variable {document : Document}

/-- **The nodes that belong to a node are drafted behind all drafts**, and put on the stack. -/
theorem foldlM_add (before : List Draft) (head : OutlineHead) {nodes : List Node}
    (hlisted : ∀ n ∈ nodes, ∃ row, document.records[n.id]? = some row ∧ row.content = n.content)
    (inside : List Nat) (after : List Draft) (stack : List (Nat × Nat)) :
    (nodes.map Node.id).foldlM (add document before.length)
        ⟨stack, before ++ .tag head inside :: after⟩ =
      some ⟨(entries (before.length + (after.length + 1)) nodes).reverse ++ stack,
        before ++ .tag head (inside ++ List.range' (before.length + (after.length + 1))
          nodes.length) :: (after ++ nodes.map fun n => n.content.draft)⟩ := by
  induction nodes generalizing inside after stack with
  | nil => simp [entries]
  | cons n rest ih =>
    obtain ⟨⟨row, hrow, hcontent⟩, hrest⟩ := List.forall_mem_cons.mp hlisted
    have hadd : add document before.length ⟨stack, before ++ .tag head inside :: after⟩ n.id =
        some ⟨(n.id, before.length + (after.length + 1)) :: stack,
          before ++ .tag head (inside ++ [before.length + (after.length + 1)]) ::
            (after ++ [n.content.draft])⟩ := by
      simp [add, hrow, hcontent]
    rw [List.map_cons, List.foldlM_cons, hadd, Option.bind_eq_bind, Option.bind_some,
      ih hrest]
    simp [entries, List.zipIdx_cons, List.range'_succ, Nat.add_assoc]

/-! ## Rounds -/

variable {row : Record} {id place : Nat} {stack : List (Nat × Nat)} {drafts : List Draft}

/-- A text that comes up is drafted already. -/
theorem step_text (hrow : document.records[id]? = some row) {value : Text} {position : Position}
    (hcontent : row.content = .text value position) :
    step document ⟨(id, place) :: stack, drafts⟩ = .running ⟨stack, drafts⟩ := by
  simp only [step, hrow, hcontent]

/-- What belongs to another node that comes up is drafted. -/
theorem step_of_draft (hrow : document.records[id]? = some row) {head : OutlineHead}
    {inside : List Nat} (hdraft : row.content.draft = .tag head inside) {next : Drafting}
    (hnext : row.children.foldlM (add document place) ⟨stack, drafts⟩ = some next) :
    step document ⟨(id, place) :: stack, drafts⟩ = .running next := by
  simp only [step, hrow, hnext]
  cases hcontent : row.content with
  | text => rw [hcontent] at hdraft; cases hdraft
  | document | tag => rfl

/-! ## Runs -/

/-- That the nodes of a row that are on the stack, the last one on top, with drafts behind all
others, come to depict their outlines. -/
def DraftsRow (document : Document) (nodes : List Node) : Prop :=
  ∀ before stack, ∃ drafted,
    Reaches document
      ⟨(entries before.length (nodes.filter Node.isAttached)).reverse ++ stack,
        before ++ (nodes.filter Node.isAttached).map fun n => n.content.draft⟩
      ⟨stack, before ++ drafted⟩ ∧
    Draft.DepictsAll (before ++ drafted) before.length
      (List.range' before.length (nodes.filter Node.isAttached).length)
      ((nodes.filter Node.isAttached).map Outline.ofNode)

theorem exists_row_of_mem (p : Nat) {nodes : List Node}
    (hlisted : ∀ r ∈ Node.recordsAll p nodes, document.records[r.id]? = some r) {n : Node}
    (hn : n ∈ nodes) : ∃ row, document.records[n.id]? = some row ∧ row.content = n.content := by
  obtain ⟨inside, hrecords⟩ := Node.exists_records_eq p n
  have hmem := Node.records_subset_recordsAll p hn (hrecords ▸ List.mem_cons_self)
  exact ⟨_, hlisted _ hmem, rfl⟩

/-- A tag that comes up, or the document, comes to depict what belongs to it. -/
theorem exists_reaches_of_draftsRow (p : Nat) {nodes : List Node}
    (hlisted : ∀ r ∈ Node.recordsAll p nodes, document.records[r.id]? = some r)
    (hinside : DraftsRow document nodes) (hrow : document.records[id]? = some row)
    {head : OutlineHead} (hdraft : row.content.draft = .tag head [])
    (hchildren : row.children = Node.members nodes) (before after : List Draft)
    (stack : List (Nat × Nat)) :
    ∃ own more,
      Reaches document ⟨(id, before.length) :: stack, before ++ .tag head [] :: after⟩
        ⟨stack, before ++ own :: (after ++ more)⟩ ∧
      Draft.Depicts (before ++ own :: (after ++ more)) (before.length + 1) before.length
        (.tag head ((nodes.filter Node.isAttached).map Outline.ofNode)) := by
  have hnodes : ∀ n ∈ nodes.filter Node.isAttached,
      ∃ row, document.records[n.id]? = some row ∧ row.content = n.content :=
    fun n hn => exists_row_of_mem p hlisted (List.mem_of_mem_filter hn)
  have hnext := foldlM_add before head hnodes [] after stack
  rw [← Node.members, ← hchildren] at hnext
  let own := Draft.tag head (List.range' (before.length + (after.length + 1))
    (nodes.filter Node.isAttached).length)
  have hlength : (before ++ own :: after).length = before.length + (after.length + 1) := by
    rw [List.length_append, List.length_cons]
  obtain ⟨drafted, hreaches, hdepicts⟩ := hinside (before ++ own :: after) stack
  rw [hlength, List.append_assoc, List.append_assoc, List.cons_append, List.cons_append]
    at hreaches
  rw [hlength, List.append_assoc, List.cons_append] at hdepicts
  refine ⟨own, drafted, .head (step_of_draft hrow hdraft hnext) hreaches,
    .tag (Draft.getElem?_own before own _) ?_⟩
  exact hdepicts.mono (by omega) (Draft.kept_refl _ _)

mutual

/-- A node that comes up comes to depict its outline. -/
theorem exists_reaches_node (p : Nat) : ∀ (n : Node),
    (∀ r ∈ n.records p, document.records[r.id]? = some r) →
    ∀ (before after : List Draft) (stack : List (Nat × Nat)), ∃ own more,
      Reaches document ⟨(n.id, before.length) :: stack, before ++ n.content.draft :: after⟩
        ⟨stack, before ++ own :: (after ++ more)⟩ ∧
      Draft.Depicts (before ++ own :: (after ++ more)) (before.length + 1) before.length
        (Outline.ofNode n)
  | .text id value position attached, hlisted, before, after, stack => by
    have hrow := hlisted _ List.mem_cons_self
    refine ⟨.text value, [], ?_, .text (Draft.getElem?_own before _ _)⟩
    rw [List.append_nil]
    exact .head (step_text hrow rfl) .refl
  | .tag id head closing children, hlisted, before, after, stack => by
    have hrow := hlisted _ List.mem_cons_self
    have hchildren : ∀ r ∈ Node.recordsAll id children, document.records[r.id]? = some r :=
      fun r hr => hlisted r (List.mem_cons_of_mem _ hr)
    rw [Outline.ofNode_eq]
    exact exists_reaches_of_draftsRow id hchildren (draftsRow id children hchildren) hrow rfl rfl
      before after stack

/-- **A row that comes up comes to depict its outlines.** -/
theorem draftsRow (p : Nat) : ∀ (nodes : List Node),
    (∀ r ∈ Node.recordsAll p nodes, document.records[r.id]? = some r) → DraftsRow document nodes
  | [], _, before, stack => ⟨[], by simpa [entries] using .refl, .nil⟩
  | n :: rest, hlisted, before, stack => by
    have hrest := draftsRow p rest fun r hr => hlisted r (List.mem_append_right _ hr)
    by_cases hn : n.isAttached = true
    · rw [List.filter_cons_of_pos hn]
      obtain ⟨drafted, hlater, hdepicts⟩ :=
        hrest (before ++ [n.content.draft]) ((n.id, before.length) :: stack)
      obtain ⟨own, more, hown, hdepicts'⟩ := exists_reaches_node p n
        (fun r hr => hlisted r (List.mem_append_left _ hr)) before drafted stack
      -- the others come up first; their drafts are behind that of the node, and are kept
      have hlength : (before ++ [n.content.draft]).length = before.length + 1 := by
        rw [List.length_append, List.length_singleton]
      rw [hlength, List.append_assoc, List.append_assoc, List.singleton_append,
        List.singleton_append] at hlater
      rw [hlength, List.append_assoc, List.singleton_append] at hdepicts
      refine ⟨own :: (drafted ++ more), ?_, ?_⟩
      · have hstack : (entries before.length (n :: rest.filter Node.isAttached)).reverse ++ stack =
            (entries (before.length + 1) (rest.filter Node.isAttached)).reverse ++
              (n.id, before.length) :: stack := by
          simp [entries, List.zipIdx_cons]
        rw [hstack]
        exact hlater.trans hown
      · have hfirst := hdepicts'.mono (Nat.le_succ _) (Draft.kept_refl _ _) fun _ h => h
        have hothers :=
          hdepicts.mono (Nat.le_succ _) (Draft.kept_replace before _ own drafted more)
        exact .cons (Nat.le_refl _) hfirst hothers
    · rw [List.filter_cons_of_neg hn]
      exact hrest before stack

end

/-- **The loop drafts the outline of a row of the table.** -/
theorem exists_reaches_start (harena : document.Arena) {r : Record} {nodes : List Node}
    (h : document.Inside r nodes) :
    ∃ drafts, Reaches document (start r) ⟨[], drafts⟩ ∧
      Draft.Depicts drafts 1 0
        (r.content.outline ((nodes.filter Node.isAttached).map Outline.ofNode)) := by
  have hrow : document.records[r.id]? = some r :=
    harena.getElem?_id (h.listed.subset List.mem_cons_self)
  have hlisted : ∀ q ∈ Node.recordsAll r.id nodes, document.records[q.id]? = some q :=
    fun q hq => harena.getElem?_id (h.listed.subset (List.mem_cons_of_mem _ hq))
  have hinside := draftsRow r.id nodes hlisted
  cases hcontent : r.content with
  | text value position =>
    refine ⟨[.text value], ?_, .text rfl⟩
    rw [start, hcontent]
    exact .head (step_text hrow hcontent) .refl
  | document | tag =>
    obtain ⟨own, more, hreaches, hdepicts⟩ := exists_reaches_of_draftsRow r.id hlisted hinside hrow
      (congrArg Content.draft hcontent) h.children [] [] []
    refine ⟨_, ?_, hdepicts⟩
    rw [start, hcontent]
    exact hreaches

/-- Wherever the loop has got to, it gets to its end. -/
theorem reaches_of_ended {s t last : Drafting} (hlast : Reaches document s last)
    (hended : last.step document = .ended) (h : Reaches document s t) :
    Reaches document t last := by
  have hunique : Relator.RightUnique fun s t : Drafting => s.step document = .running t :=
    fun s t u ht hu => Progress.running.inj (ht.symm.trans hu)
  rcases Relation.ReflTransGen.total_of_right_unique hunique h hlast with hreaches | hreaches
  · exact hreaches
  · -- nothing comes behind the end
    rcases Relation.ReflTransGen.cases_head hreaches with rfl | ⟨u, hstep, -⟩
    · exact .refl
    · rw [hended] at hstep
      cases hstep

/-- What the loop over the table makes of a row, `outline` being what it has drafted at `last`. -/
structure Finishes (document : Document) (r : Record) (outline : Outline) (last : Drafting) :
    Prop where
  /-- Wherever the loop has got to, it gets to its end. -/
  terminates : ∀ s, Reaches document (start r) s → Reaches document s last
  ended : last.step document = .ended
  /-- There the first draft, that of the row, depicts the outline. -/
  drafted : Draft.Depicts last.drafts 1 0 outline
  shown : document.outlineOf? r.id = some outline
  /-- The outline is what is shown of the row itself, with the outlines of what belongs to it, in
  its order, inside. -/
  recursion : ∃ inside,
    List.Forall₂ (fun c o => document.outlineOf? (c : Nat) = some o) r.children inside ∧
      outline = r.content.outline inside
  /-- Read from the front, the outline shows the nodes that the walk comes by. These are the rows
  that belong to the row, directly or not: each of them once, in the order of the numbers, and at
  its depth. -/
  flattened : ∃ rows : List (Nat × Record),
    outline.flatten 0 = rows.map (fun e => (e.1, e.2.content.outline [])) ∧
    document.walkFrom? r.id = some (rows.map fun e => (e.2.id, e.2.content)) ∧
    (rows.map fun e => e.2.id).Pairwise (· < ·) ∧
    ∀ depth q, (depth, q) ∈ rows ↔ r.Descends document.records depth q

/-- **The loop over the table computes what the recursion does**, for every row of the table of a
document that is built. -/
theorem exists_finishes {families : List Family} {segments : List Segment}
    (h : Document.ofSegments families segments = .ok document) {r : Record}
    (hr : r ∈ document.records) : ∃ outline last, Finishes document r outline last := by
  have harena : document.Arena := by
    have hlinked := Table.linked_of_ofSegments h
    obtain ⟨items, rfl, -, rfl⟩ := Document.exists_items_of_ofSegments h
    exact Document.arena_of_arranged (Item.arranged_nodes 1 0 false items) hlinked
  obtain ⟨nodes, hnodes⟩ := harena.exists_inside hr
  obtain ⟨drafts, hreaches, hdepicts⟩ := exists_reaches_start harena hnodes
  exact ⟨_, ⟨[], drafts⟩, {
    terminates := fun s => reaches_of_ended hreaches rfl
    ended := rfl
    drafted := hdepicts
    shown := hnodes.shown
    recursion := ⟨_, hnodes.forall₂_outlineOf? harena, rfl⟩
    flattened := ⟨Document.lineage r nodes, hnodes.flatten_outline, hnodes.walkFrom?_eq,
      hnodes.increasing_lineage harena, fun depth q => hnodes.mem_lineage_iff harena⟩ }⟩

/-- The outline of a document with a conditional, a text in it, and the alternative; the whitespace
between them is not shown. -/
theorem exists_finishes_separated :
    ∃ document, Document.ofSegments Standard.families Document.separated = .ok document ∧
      ∃ r ∈ document.records, r.id = 0 ∧ ∃ outline last, Finishes document r outline last ∧
        (outline.flatten 0).map Prod.fst = [0, 1, 2, 1] := by
  have hshape : (Document.ofSegments Standard.families Document.separated).map (fun document =>
      (document.outline.flatten 0).map Prod.fst) = .ok [0, 1, 2, 1] := by
    cbv
  cases hbuilt : Document.ofSegments Standard.families Document.separated with
  | error fault => simp [hbuilt, Except.map] at hshape
  | ok document =>
    simp only [hbuilt, Except.map, Except.ok.injEq] at hshape
    have hr : ⟨0, none, .document, document.roots.map Node.id⟩ ∈ document.records :=
      List.mem_cons_self
    obtain ⟨outline, last, hfinishes⟩ := exists_finishes hbuilt hr
    have hshown : document.outline = outline := Option.some.inj hfinishes.shown
    exact ⟨document, rfl, _, hr, rfl, outline, last, hfinishes, hshown ▸ hshape⟩

end Drafting

end Stencil
