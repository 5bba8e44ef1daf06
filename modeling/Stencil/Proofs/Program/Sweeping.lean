import Mathlib.Logic.Function.Basic
import Mathlib.Logic.Relation
import Stencil.Proofs.Document.Postorder
import Stencil.Proofs.Program.Generation

/-! # Generating a document by sweeping over its table

A document becomes a fragment without recursion, too: by a loop over the table of its nodes
(`Sweep.step`).  A stack holds the numbers of the nodes still to be dealt with.  A tag comes up
twice: the first time what belongs to it is put on the stack in front of it, and the second time
what that gave is taken out of the table of fragments, joined, and handed to the handler.

The loop computes what the recursion over the nodes does (`Sweep.exists_completes`).  The invariant
is that a node that comes up leaves the stack behind it and all fragments made so far as they are,
and adds one fragment, its own; a row of nodes adds one for each member (`Sweep.reaches_apply`,
`Sweep.reaches_applyAll`).  So a tag that comes up again finds what belongs to it, and taking that
out leaves the table of fragments as it was when the tag came up first.  This needs that every
number stands for one node and that a node belongs to one row only, which is so in the table of a
document (`Document.Arena`).  A node that fails stops the loop right there, so what has been handled
are the tags in front of it in post-order (`Sweep.exists_stops_of_apply`,
`Sweep.exists_stops_of_applyAll`).
-/

namespace Stencil
namespace Program

/-- Fragments by the numbers of the nodes that gave them. -/
abbrev Made := Nat → Option Fragment

/-- Where the loop stands. -/
structure Sweep where
  /-- The numbers of the nodes still to be dealt with, each with whether what belongs to the node
  has been dealt with. -/
  stack : List (Nat × Bool)
  /-- The fragments that have not been joined yet. -/
  made : Made
  /-- The tags whose handlers have given a fragment, the latest first. -/
  handled : List Nat

namespace Sweep

/-- What comes of one round of the loop. -/
inductive Progress where
  | running (next : Sweep)
  | ended (outcome : Except CompileFault Fragment)
  /-- Something is looked up that is not there. -/
  | lost

/-- At first there is the document itself to be dealt with. -/
def start : Sweep := ⟨[(0, false)], fun _ => none, []⟩

/-- Takes the fragments of nodes out, in order. -/
def takeOut (made : Made) : List Nat → Option (List Fragment × Made)
  | [] => some ([], made)
  | id :: ids =>
    match made id with
    | none => none
    | some f =>
      match takeOut (Function.update made id none) ids with
      | none => none
      | some (fs, left) => some (f :: fs, left)

/-- The fragment of a node, from those of what belongs to it.  The document has no handler. -/
def finish (registry : Registry) (segments : List Segment) (content : Content)
    (fragments : List Fragment) : Except CompileFault Fragment :=
  match joinAll fragments with
  | .error fault => .error fault
  | .ok inner =>
    match content with
    | .tag head closing => ofTag registry ⟨head, Document.enclosed segments head closing⟩ inner
    | _ => .ok inner

/-- One round of the loop. -/
def step (registry : Registry) (document : Document) (s : Sweep) : Progress :=
  match s.stack with
  | [] =>
    match s.made 0 with
    | some body => .ended (.ok body)
    | none => .lost
  | (id, expanded) :: stack =>
    match document.records[id]? with
    | none => .lost
    | some row =>
      match row.content with
      | .text t _ => .running ⟨stack, Function.update s.made id (some [.literal t]), s.handled⟩
      | content =>
        if expanded then
          match takeOut s.made row.children with
          | none => .lost
          | some (fragments, left) =>
            match finish registry document.segments content fragments with
            | .error fault => .ended (.error fault)
            | .ok f => .running ⟨stack, Function.update left id (some f),
                if content.isTag then id :: s.handled else s.handled⟩
        else .running ⟨row.children.map (·, false) ++ (id, true) :: stack, s.made, s.handled⟩

/-- That the loop gets from one place to another. -/
def Reaches (registry : Registry) (document : Document) : Sweep → Sweep → Prop :=
  Relation.ReflTransGen fun s t => s.step registry document = .running t

section
variable {registry : Registry} {document : Document} {s t u : Sweep}

theorem Reaches.head (h : s.step registry document = .running t)
    (hrest : Reaches registry document t u) : Reaches registry document s u :=
  Relation.ReflTransGen.head h hrest

theorem Reaches.tail (h : Reaches registry document s t)
    (hlast : t.step registry document = .running u) : Reaches registry document s u :=
  Relation.ReflTransGen.tail h hlast

end

/-! ## The table of fragments -/

/-- A table with one more fragment for each of a row of numbers. -/
def fill (made : Made) : List Nat → List Fragment → Made
  | id :: ids, f :: fs => fill (Function.update made id (some f)) ids fs
  | _, _ => made

section
variable {made : Made} {id : Nat} {ids : List Nat}

theorem fill_apply_of_notMem (hid : id ∉ ids) (fs : List Fragment) :
    fill made ids fs id = made id := by
  induction ids generalizing made fs with
  | nil => rfl
  | cons first ids ih =>
    cases fs with
    | nil => rfl
    | cons f fs =>
      rw [fill, ih (List.not_mem_of_not_mem_cons hid),
        Function.update_of_ne (List.ne_of_not_mem_cons hid)]

theorem update_fill_of_notMem (hid : id ∉ ids) (fs : List Fragment) (o : Option Fragment) :
    Function.update (fill made ids fs) id o = fill (Function.update made id o) ids fs := by
  induction ids generalizing made fs with
  | nil => rfl
  | cons first ids ih =>
    cases fs with
    | nil => rfl
    | cons f fs =>
      rw [fill, fill, ih (List.not_mem_of_not_mem_cons hid),
        Function.update_comm (List.ne_of_not_mem_cons hid)]

/-- **What was put into a table is taken out again**, and leaves the table as it was. -/
theorem takeOut_fill (hdistinct : ids.Nodup) (hfree : ∀ id ∈ ids, made id = none)
    {fs : List Fragment} (hlength : fs.length = ids.length) :
    takeOut (fill made ids fs) ids = some (fs, made) := by
  induction ids generalizing made fs with
  | nil =>
    obtain rfl := List.eq_nil_of_length_eq_zero hlength
    rfl
  | cons id ids ih =>
    obtain ⟨f, fs, rfl⟩ := List.exists_cons_of_length_eq_add_one hlength
    obtain ⟨hid, hdistinct⟩ := List.nodup_cons.mp hdistinct
    obtain ⟨hnone, hfree⟩ := List.forall_mem_cons.mp hfree
    have hleft : Function.update (fill (Function.update made id (some f)) ids fs) id none =
        fill made ids fs := by
      rw [update_fill_of_notMem hid, Function.update_idem, ← hnone, Function.update_eq_self]
    rw [fill, takeOut, fill_apply_of_notMem hid, Function.update_self]
    simp only [hleft, ih hdistinct hfree (Nat.succ.inj hlength)]

end

/-! ## Rows of the table that nothing has been made of -/

/-- Rows of the table of a document for which no fragment has been made. -/
structure Fresh (document : Document) (made : Made) (rows : List Record) : Prop where
  listed : ∀ r ∈ rows, document.records[r.id]? = some r
  distinct : (rows.map Record.id).Nodup
  free : ∀ r ∈ rows, made r.id = none

section
variable {document : Document} {made : Made} {a b rows : List Record}

theorem Fresh.left (h : Fresh document made (a ++ b)) : Fresh document made a where
  listed r hr := h.listed r (List.mem_append_left b hr)
  distinct := (List.map_append ▸ h.distinct).of_append_left
  free r hr := h.free r (List.mem_append_left b hr)

theorem Fresh.right (h : Fresh document made (a ++ b)) : Fresh document made b where
  listed r hr := h.listed r (List.mem_append_right a hr)
  distinct := (List.map_append ▸ h.distinct).of_append_right
  free r hr := h.free r (List.mem_append_right a hr)

theorem Fresh.tail {r : Record} (h : Fresh document made (r :: rows)) : Fresh document made rows :=
  Fresh.right (a := [r]) h

/-- Rows stay fresh if a fragment is made for another one. -/
theorem Fresh.update (h : Fresh document made rows) {id : Nat} (hid : id ∉ rows.map Record.id)
    (o : Option Fragment) : Fresh document (Function.update made id o) rows where
  listed := h.listed
  distinct := h.distinct
  free r hr := by
    have hne : r.id ≠ id := fun heq => hid (heq ▸ List.mem_map_of_mem hr)
    rw [Function.update_of_ne hne]
    exact h.free r hr

/-- Two fresh rows one after the other have no number in common. -/
theorem Fresh.notMem_right (h : Fresh document made (a ++ b)) {id : Nat}
    (hid : id ∈ a.map Record.id) : id ∉ b.map Record.id := by
  intro hb
  have hdistinct := h.distinct
  rw [List.map_append] at hdistinct
  exact (List.nodup_append.mp hdistinct).2.2 id hid id hb rfl

end

/-! ## Rounds -/

section
variable {registry : Registry} {document : Document} {made left : Made} {row : Record} {id : Nat}
  {stack : List (Nat × Bool)} {handled : List Nat} {fragments : List Fragment}

theorem finish_tag (segments : List Segment) (head : TagHead) (closing : Option Nat)
    (fragments : List Fragment) :
    finish registry segments (.tag head closing) fragments =
      (rule registry segments).tag head closing fragments := by
  simp only [finish, rule]
  cases joinAll fragments <;> rfl

theorem finish_document (segments : List Segment) (fragments : List Fragment) :
    finish registry segments .document fragments = joinAll fragments := by
  rw [finish]
  cases joinAll fragments <;> rfl

/-- A text that comes up gives its literal. -/
theorem step_text (hrow : document.records[id]? = some row) {t : Text} {position : Position}
    (hcontent : row.content = .text t position) (expanded : Bool) :
    step registry document ⟨(id, expanded) :: stack, made, handled⟩ =
      .running ⟨stack, Function.update made id (some [.literal t]), handled⟩ := by
  simp only [step, hrow, hcontent]

/-- What belongs to a tag that comes up first is dealt with before it. -/
theorem step_expand (hrow : document.records[id]? = some row)
    (hcontent : ∀ t position, row.content ≠ .text t position) :
    step registry document ⟨(id, false) :: stack, made, handled⟩ =
      .running ⟨row.children.map (·, false) ++ (id, true) :: stack, made, handled⟩ := by
  simp only [step, hrow]
  cases hkind : row.content with
  | text t position => exact absurd hkind (hcontent t position)
  | document | tag => rfl

/-- A tag that comes up again gets its fragment from those of what belongs to it. -/
theorem step_finish (hrow : document.records[id]? = some row)
    (hcontent : ∀ t position, row.content ≠ .text t position)
    (htake : takeOut made row.children = some (fragments, left)) :
    step registry document ⟨(id, true) :: stack, made, handled⟩ =
      match finish registry document.segments row.content fragments with
      | .error fault => .ended (.error fault)
      | .ok f => .running ⟨stack, Function.update left id (some f),
          if row.content.isTag then id :: handled else handled⟩ := by
  simp only [step, hrow, htake]
  cases hkind : row.content with
  | text t position => exact absurd hkind (hcontent t position)
  | document | tag => rfl

/-- What the members of a row have given can be taken out. -/
theorem Fresh.takeOut {p : Nat} {nodes : List Node}
    (h : Fresh document made (Node.recordsAll p nodes))
    (hall : (rule registry document.segments).applyAll nodes = .ok fragments) :
    takeOut (fill made (Node.members nodes) fragments) (Node.members nodes) =
      some (fragments, made) := by
  have hsublist := Node.members_sublist p nodes
  refine takeOut_fill (h.distinct.sublist hsublist) (fun id hid => ?_) ?_
  · obtain ⟨r, hr, rfl⟩ := List.mem_map.mp (hsublist.subset hid)
    exact h.free r hr
  · rw [Rule.length_of_applyAll _ hall, Node.members, List.length_map]

end

/-! ## Runs -/

section
variable {registry : Registry} {document : Document}

mutual

/-- A node that comes up adds its fragment to those made so far. -/
theorem reaches_apply (p : Nat) (stack : List (Nat × Bool)) (handled : List Nat) :
    ∀ {n : Node} {f : Fragment} {made : Made}, Fresh document made (n.records p) →
    (rule registry document.segments).apply n = .ok f →
    Reaches registry document ⟨(n.id, false) :: stack, made, handled⟩
      ⟨stack, Function.update made n.id (some f), (Node.tags n.postorder).reverse ++ handled⟩
  | .text id t position attached, f, made, hfresh, h => by
    obtain rfl := Except.ok.inj h
    exact Reaches.head (step_text (hfresh.listed _ List.mem_cons_self) rfl false) .refl
  | .tag id head closing children, f, made, hfresh, h => by
    obtain ⟨results, hresults, htag⟩ := Rule.apply_tag_eq_ok _ h
    have hrow := hfresh.listed _ List.mem_cons_self
    have hinside := reaches_applyAll id ((id, true) :: stack) handled hfresh.tail hresults
    refine (Reaches.head (step_expand hrow nofun) hinside).tail ?_
    -- the row inside is all that was added, and all that is taken out again
    rw [step_finish hrow nofun (hfresh.tail.takeOut hresults), finish_tag, htag, Node.postorder,
      Node.tags_append, List.reverse_append]
    rfl

/-- **A row that comes up** adds a fragment for each member to those made so far. -/
theorem reaches_applyAll (p : Nat) (stack : List (Nat × Bool)) (handled : List Nat) :
    ∀ {nodes : List Node} {fragments : List Fragment} {made : Made},
    Fresh document made (Node.recordsAll p nodes) →
    (rule registry document.segments).applyAll nodes = .ok fragments →
    Reaches registry document
      ⟨(Node.members nodes).map (·, false) ++ stack, made, handled⟩
      ⟨stack, fill made (Node.members nodes) fragments,
        (Node.tags (Node.postorderAll nodes)).reverse ++ handled⟩
  | [], fragments, made, _, h => by
    obtain rfl := Except.ok.inj h
    exact .refl
  | n :: rest, fragments, made, hfresh, h => by
    rw [Node.members, Node.postorderAll]
    by_cases hn : n.isAttached = true
    · obtain ⟨f, more, hf, hmore, rfl⟩ := Rule.applyAll_cons_eq_ok _ hn h
      have hfirst := reaches_apply p ((Node.members rest).map (·, false) ++ stack) handled
        hfresh.left hf
      -- the fragment of the first node stays in the table while the others come up
      have hrest := reaches_applyAll p stack ((Node.tags n.postorder).reverse ++ handled)
        (hfresh.right.update (hfresh.notMem_right (n.id_mem_records p)) (some f)) hmore
      rw [List.filter_cons_of_pos hn, if_pos hn, Node.tags_append, List.reverse_append,
        List.append_assoc]
      exact hfirst.trans hrest
    · rw [Rule.applyAll, if_neg hn] at h
      rw [List.filter_cons_of_neg hn, if_neg hn]
      exact reaches_applyAll p stack handled hfresh.right h

end

/-- That the loop, where it is to go through the nodes `order` next, ends with a fault of one of
them and has handled the tags in front of this one. -/
structure Stops (registry : Registry) (document : Document) (s : Sweep) (order before : List Node)
    (n : Node) (fault : CompileFault) (last : Sweep) : Prop where
  first : (rule registry document.segments).FirstFault order before n fault
  reached : Reaches registry document s last
  ended : last.step registry document = .ended (.error fault)
  handled : last.handled = (Node.tags before).reverse ++ s.handled

theorem Stops.append_right {s last : Sweep} {order before : List Node} {n : Node}
    {fault : CompileFault} (h : Stops registry document s order before n fault last)
    (more : List Node) : Stops registry document s (order ++ more) before n fault last where
  first := h.first.append_right more
  reached := h.reached
  ended := h.ended
  handled := h.handled

/-- The loop stops later if it goes through other nodes first. -/
theorem Stops.append_left {s t last : Sweep} {order before : List Node} {n : Node}
    {fault : CompileFault} (done : List Node) (hreached : Reaches registry document s t)
    (hdone : ∀ m ∈ done, ∃ f, (rule registry document.segments).apply m = .ok f)
    (hhandled : t.handled = (Node.tags done).reverse ++ s.handled)
    (h : Stops registry document t order before n fault last) :
    Stops registry document s (done ++ order) (done ++ before) n fault last where
  first := h.first.append_left hdone
  reached := hreached.trans h.reached
  ended := h.ended
  handled := by
    rw [h.handled, hhandled, Node.tags_append, List.reverse_append, List.append_assoc]

mutual

/-- A node that fails stops the loop. -/
theorem exists_stops_of_apply (p : Nat) (stack : List (Nat × Bool)) (handled : List Nat) :
    ∀ {n : Node} {fault : CompileFault} {made : Made}, Fresh document made (n.records p) →
    (rule registry document.segments).apply n = .error fault →
    ∃ before m last, Stops registry document ⟨(n.id, false) :: stack, made, handled⟩ n.postorder
      before m fault last
  | .text id t position attached, fault, made, hfresh, h => by cases h
  | .tag id head closing children, fault, made, hfresh, h => by
    have hrow := hfresh.listed _ List.mem_cons_self
    have hexpand : Reaches registry document ⟨(id, false) :: stack, made, handled⟩
        ⟨(Node.members children).map (·, false) ++ (id, true) :: stack, made, handled⟩ :=
      Reaches.head (step_expand hrow nofun) .refl
    rw [Rule.apply] at h
    cases hall : (rule registry document.segments).applyAll children with
    | error inner =>
      simp only [hall, Except.error.injEq] at h
      obtain ⟨before, m, last, hstops⟩ :=
        exists_stops_of_applyAll id ((id, true) :: stack) handled hfresh.tail (h ▸ hall)
      exact ⟨before, m, last, (hstops.append_left [] hexpand nofun rfl).append_right _⟩
    | ok results =>
      simp only [hall] at h
      have hinside := reaches_applyAll id ((id, true) :: stack) handled hfresh.tail hall
      -- here the tag itself fails, behind everything that belongs to it
      refine ⟨_, _, _, ⟨⟨[], rfl⟩, Rule.succeeds_of_applyAll _ hall, .tag hall h⟩,
        hexpand.trans hinside, ?_, rfl⟩
      rw [step_finish hrow nofun (hfresh.tail.takeOut hall), finish_tag, h]

/-- **A row that fails** stops the loop at the first node that fails. -/
theorem exists_stops_of_applyAll (p : Nat) (stack : List (Nat × Bool)) (handled : List Nat) :
    ∀ {nodes : List Node} {fault : CompileFault} {made : Made},
    Fresh document made (Node.recordsAll p nodes) →
    (rule registry document.segments).applyAll nodes = .error fault →
    ∃ before m last, Stops registry document
      ⟨(Node.members nodes).map (·, false) ++ stack, made, handled⟩ (Node.postorderAll nodes)
      before m fault last
  | [], fault, made, _, h => by cases h
  | n :: rest, fault, made, hfresh, h => by
    rw [Rule.applyAll] at h
    rw [Node.members, Node.postorderAll]
    by_cases hn : n.isAttached = true
    · rw [if_pos hn] at h
      rw [List.filter_cons_of_pos hn, if_pos hn]
      cases hf : (rule registry document.segments).apply n with
      | error first =>
        simp only [hf, Except.error.injEq] at h
        obtain ⟨before, m, last, hstops⟩ := exists_stops_of_apply p
          ((Node.members rest).map (·, false) ++ stack) handled hfresh.left (h ▸ hf)
        exact ⟨before, m, last, hstops.append_right _⟩
      | ok f =>
        cases hmore : (rule registry document.segments).applyAll rest with
        | ok more => simp [hf, hmore] at h
        | error later =>
          simp only [hf, hmore, Except.error.injEq] at h
          obtain ⟨before, m, last, hstops⟩ := exists_stops_of_applyAll p stack
            ((Node.tags n.postorder).reverse ++ handled)
            (hfresh.right.update (hfresh.notMem_right (n.id_mem_records p)) (some f)) (h ▸ hmore)
          have hfirst := reaches_apply p ((Node.members rest).map (·, false) ++ stack) handled
            hfresh.left hf
          exact ⟨_, m, last, hstops.append_left _ hfirst (Rule.succeeds_of_apply _ hf) rfl⟩
    · rw [if_neg hn] at h
      rw [List.filter_cons_of_neg hn, if_neg hn]
      exact exists_stops_of_applyAll p stack handled hfresh.right h

end

/-! ## The whole loop -/

/-- What a round does to the stack. -/
theorem stack_of_step {s t : Sweep} (h : s.step registry document = .running t) :
    ∃ e stack row, s.stack = e :: stack ∧ document.records[e.1]? = some row ∧
      (t.stack = stack ∨ t.stack = row.children.map (·, false) ++ (e.1, true) :: stack) := by
  rw [step] at h
  split at h
  · -- with nothing on the stack the loop ends, or has lost something
    split at h <;> cases h
  · rename_i id expanded stack hstack
    split at h
    · cases h
    · rename_i row hrow
      refine ⟨(id, expanded), stack, row, hstack, hrow, ?_⟩
      split at h
      · cases h
        exact Or.inl rfl
      · split at h
        · split at h
          · cases h
          · split at h
            · cases h
            · cases h
              exact Or.inl rfl
        · cases h
          exact Or.inr rfl

/-- **Nodes that belong to nothing never come up.** -/
theorem ne_of_mem_stack (harena : document.Arena) {r : Record} (hr : r ∈ document.records)
    (hid : r.id ≠ 0) (hdetached : r.parent = none) {s : Sweep}
    (h : Reaches registry document start s) : ∀ e ∈ s.stack, e.1 ≠ r.id := by
  have hnowhere : ∀ row ∈ document.records, r.id ∉ row.children := by
    rcases harena.placed r hr hid with hattached | hdetached'
    · obtain ⟨q, -, hparent, -⟩ := hattached.parent
      cases hdetached.symm.trans hparent
    · exact hdetached'.nowhere
  induction h with
  | refl =>
    intro e he
    obtain rfl := List.mem_singleton.mp he
    exact hid.symm
  | @tail s t hreached hstep ih =>
    obtain ⟨top, stack, row, hstack, hrow, hnext⟩ := stack_of_step hstep
    rw [hstack] at ih
    obtain ⟨htop, hbelow⟩ := List.forall_mem_cons.mp ih
    rcases hnext with hnext | hnext
    · rw [hnext]
      exact hbelow
    · rw [hnext]
      intro e he
      rcases List.mem_append.mp he with he | he
      · obtain ⟨c, hc, rfl⟩ := List.mem_map.mp he
        intro heq
        exact hnowhere row (List.mem_of_getElem? hrow) (heq ▸ hc)
      · rcases List.mem_cons.mp he with rfl | he
        · exact htop
        · exact hbelow e he

/-- Wherever the loop has got to, it gets to its end. -/
theorem reaches_of_ended {s last : Sweep} {outcome : Except CompileFault Fragment}
    (hlast : Reaches registry document start last)
    (hended : last.step registry document = .ended outcome)
    (h : Reaches registry document start s) : Reaches registry document s last := by
  have hunique : Relator.RightUnique fun s t : Sweep => s.step registry document = .running t :=
    fun s t u ht hu => Progress.running.inj (ht.symm.trans hu)
  rcases Relation.ReflTransGen.total_of_right_unique hunique h hlast with hreaches | hreaches
  · exact hreaches
  · -- nothing comes behind the end
    rcases Relation.ReflTransGen.cases_head hreaches with rfl | ⟨t, hstep, -⟩
    · exact .refl
    · rw [hended] at hstep
      cases hstep

/-- That the loop over the table of a document computes the fragment of the document, and ends at
`last`. -/
structure Completes (registry : Registry) (document : Document) (last : Sweep) : Prop where
  /-- The fragment of a document is given by recursion. -/
  recursion : generate registry document =
    match (rule registry document.segments).applyAll document.children with
    | .ok fragments => joinAll fragments
    | .error fault => .error fault
  /-- Wherever the loop has got to, it gets to its end. -/
  terminates : ∀ s, Reaches registry document start s → Reaches registry document s last
  /-- There it has computed the fragment, or the fault. -/
  ended : last.step registry document = .ended (generate registry document)
  /-- For a fragment all tags have been handled, from the left to the right and each behind what
  belongs to it. -/
  inOrder : ∀ body, generate registry document = .ok body →
    last.handled.reverse = Node.tags (Node.postorderAll document.children)
  /-- Every tag that belongs to something has been handled once. -/
  once : ∀ body, generate registry document = .ok body → ∀ r ∈ document.records,
    last.handled.count r.id = if r.parent.isSome && r.content.isTag then 1 else 0
  /-- A fault is that of the first node in post-order that fails, or of the document itself behind
  all its nodes; the tags before it have been handled. -/
  first : ∀ fault, generate registry document = .error fault →
    (∃ before n, (rule registry document.segments).FirstFault
        (Node.postorderAll document.children) before n fault ∧
      last.handled.reverse = Node.tags before) ∨
    ∃ fragments, (rule registry document.segments).applyAll document.children = .ok fragments ∧
      joinAll fragments = .error fault ∧
      last.handled.reverse = Node.tags (Node.postorderAll document.children)
  /-- A node that belongs to nothing never comes up. -/
  detached : ∀ r ∈ document.records, r.id ≠ 0 → r.parent = none →
    ∀ s, Reaches registry document start s → ∀ e ∈ s.stack, e.1 ≠ r.id

/-- Where the loop ends, the tags in front of the first fault have been handled, or all of them. -/
theorem completes_of_ended (harena : document.Arena) {last : Sweep}
    (hreached : Reaches registry document start last)
    (hended : last.step registry document = .ended (generate registry document))
    (hhandled :
      (∃ before n fault, generate registry document = .error fault ∧
        (rule registry document.segments).FirstFault (Node.postorderAll document.children)
          before n fault ∧ last.handled.reverse = Node.tags before) ∨
      ∃ fragments, (rule registry document.segments).applyAll document.children = .ok fragments ∧
        last.handled.reverse = Node.tags (Node.postorderAll document.children)) :
    Completes registry document last := by
  have hinOrder : ∀ body, generate registry document = .ok body →
      last.handled.reverse = Node.tags (Node.postorderAll document.children) := by
    intro body hbody
    rcases hhandled with ⟨before, n, fault, hfault, -⟩ | ⟨fragments, -, hall⟩
    · cases hfault.symm.trans hbody
    · exact hall
  refine ⟨generate_eq registry document, fun s => reaches_of_ended hreached hended, hended,
    hinOrder, ?_, ?_, fun r hr hid hparent s => ne_of_mem_stack harena hr hid hparent⟩
  · intro body hbody r hr
    rw [← List.count_reverse, hinOrder body hbody, harena.count_tags hr]
  · intro fault hfault
    rcases hhandled with ⟨before, n, first, hfirst, hstops, hbefore⟩ | ⟨fragments, hall, hlog⟩
    · obtain rfl := Except.error.inj (hfirst.symm.trans hfault)
      exact Or.inl ⟨before, n, hstops, hbefore⟩
    · rw [generate_eq, hall] at hfault
      exact Or.inr ⟨fragments, hall, hfault, hlog⟩

/-- **The loop over the table of a document computes what the recursion over its nodes does**, for
every document that is built and whatever the handlers of the registry are. -/
theorem exists_completes {families : List Family} {segments : List Segment}
    (h : Document.ofSegments families segments = .ok document) (registry : Registry) :
    ∃ last, Completes registry document last := by
  have harena : document.Arena := by
    have hlinked := Table.linked_of_ofSegments h
    obtain ⟨items, rfl, -, rfl⟩ := Document.exists_items_of_ofSegments h
    exact Document.arena_of_arranged (Item.arranged_nodes 1 0 false items) hlinked
  have hroot : document.records[0]? =
      some ⟨0, none, .document, Node.members document.children⟩ := rfl
  have hfresh : Fresh document (fun _ => none) (Node.recordsAll 0 document.children) :=
    ⟨fun r hr => harena.getElem?_id (List.mem_cons_of_mem _ hr),
      (List.nodup_cons.mp harena.nodup_ids).2, fun _ _ => rfl⟩
  have hexpand : Reaches registry document start
      ⟨(Node.members document.children).map (·, false) ++ [(0, true)], fun _ => none, []⟩ :=
    Reaches.head (step_expand hroot nofun) .refl
  cases hall : (rule registry document.segments).applyAll document.children with
  | error fault =>
    obtain ⟨before, n, last, hstops⟩ := exists_stops_of_applyAll 0 [(0, true)] [] hfresh hall
    have hfault : generate registry document = .error fault := by rw [generate_eq, hall]
    refine ⟨last, completes_of_ended harena (hexpand.trans hstops.reached) ?_
      (Or.inl ⟨before, n, fault, hfault, hstops.first, ?_⟩)⟩
    · rw [hstops.ended, hfault]
    · rw [hstops.handled, List.append_nil, List.reverse_reverse]
  | ok fragments =>
    have hlog : ((Node.tags (Node.postorderAll document.children)).reverse ++ []).reverse =
        Node.tags (Node.postorderAll document.children) := by
      rw [List.append_nil, List.reverse_reverse]
    have hreached := hexpand.trans (reaches_applyAll 0 [(0, true)] [] hfresh hall)
    have hgenerate : generate registry document = joinAll fragments := by rw [generate_eq, hall]
    cases hjoin : joinAll fragments with
    | error fault =>
      refine ⟨_, completes_of_ended harena hreached ?_ (Or.inr ⟨fragments, hall, hlog⟩)⟩
      rw [step_finish hroot nofun (hfresh.takeOut hall), finish_document, hgenerate, hjoin]
    | ok body =>
      refine ⟨⟨[], Function.update (fun _ => none) 0 (some body),
          (Node.tags (Node.postorderAll document.children)).reverse ++ []⟩,
        completes_of_ended harena (hreached.tail ?_) ?_ (Or.inr ⟨fragments, hall, hlog⟩)⟩
      · rw [step_finish hroot nofun (hfresh.takeOut hall), finish_document, hjoin]
        rfl
      · simp only [step, Function.update_self, hgenerate, hjoin]

end

attribute [local instance] Host.usual

/-- A conditional and its alternative are handled one after the other; the whitespace between them
comes up nowhere. -/
theorem exists_completes_separated :
    ∃ document, Document.ofSegments Standard.families Document.separated = .ok document ∧
      ∃ last, Completes Standard.registry document last ∧ last.handled.reverse = [1, 4] := by
  have hshape : (Document.ofSegments Standard.families Document.separated).map (fun document =>
      ((generate Standard.registry document).toBool,
        Node.tags (Node.postorderAll document.children))) = .ok (true, [1, 4]) := by
    cbv
  cases hbuilt : Document.ofSegments Standard.families Document.separated with
  | error fault => simp [hbuilt, Except.map] at hshape
  | ok document =>
    simp only [hbuilt, Except.map, Except.ok.injEq, Prod.mk.injEq] at hshape
    obtain ⟨last, hlast⟩ := exists_completes hbuilt Standard.registry
    cases hgenerate : generate Standard.registry document with
    | error fault => simp [hgenerate, Except.toBool] at hshape
    | ok body => exact ⟨document, rfl, last, hlast, (hlast.inOrder body hgenerate).trans hshape.2⟩

end Sweep
end Program
end Stencil
