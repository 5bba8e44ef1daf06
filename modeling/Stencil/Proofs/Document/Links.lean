import Mathlib.Data.List.Basic
import Stencil.Document.Table

/-! # The links of a table

The parent of a row is told in the row itself, and what belongs to it in that of its parent.  Still
the two agree (`Table.Linked`): what a row lists says that it belongs there, and what says so is
listed.  Adding a node, detaching the last one that belongs to another, and noting that a tag is
closed each keep this (`Table.Linked.add`, `Table.Linked.removeLastChild`, `Table.Linked.close`).

That a row stands where its number says it does is part of what is kept, so that a change of the row
with a number hits the row that is meant (`Table.update_eq`).
-/

namespace Stencil

/-- The name in a content, if there is one. -/
def Content.name? : Content → Option Text
  | .tag head _ => head.name
  | _ => none

/-- Other nodes may belong to the node of a row: it is the document, or a tag with a name. -/
def Record.Holds (r : Record) : Prop := r.id = 0 ∨ ∃ name, r.content.name? = some name

/-- The node of a row is whitespace and belongs to nothing. -/
def Record.Loose (r : Record) : Prop :=
  r.parent = none ∧ ∃ t position, r.content = .text t position ∧ Text.allBlank t = true

namespace Table

variable {t : Table}

/-- A table in which parents and children agree. -/
structure Linked (t : Table) : Prop where
  /-- A row stands where its number says. -/
  numbered : ∀ {k : Nat} {r : Record}, t.rows[k]? = some r → r.id = k
  /-- What a row lists says that it belongs there. -/
  listed : ∀ {p c : Nat} {q : Record}, t.rows[p]? = some q → c ∈ q.children →
    ∃ r, t.rows[c]? = some r ∧ r.parent = some p
  /-- What belongs somewhere is listed there; what does not is whitespace. -/
  placed : ∀ {k : Nat} {r : Record}, t.rows[k]? = some r → k ≠ 0 →
    (∃ p q, r.parent = some p ∧ t.rows[p]? = some q ∧ k ∈ q.children) ∨ r.Loose
  increasing : ∀ {p : Nat} {q : Record}, t.rows[p]? = some q → (p :: q.children).Pairwise (· < ·)
  holding : ∀ {p : Nat} {q : Record}, t.rows[p]? = some q → q.children ≠ [] → q.Holds

theorem of_getElem?_empty {k : Nat} {r : Record} (h : empty.rows[k]? = some r) :
    k = 0 ∧ r = ⟨0, none, .document, []⟩ := by
  cases k with
  | zero => exact ⟨rfl, (Option.some.inj h).symm⟩
  | succ k => cases h

theorem linked_empty : empty.Linked where
  numbered h := by
    obtain ⟨rfl, rfl⟩ := of_getElem?_empty h
    rfl
  listed h hc := by
    obtain ⟨rfl, rfl⟩ := of_getElem?_empty h
    cases hc
  placed h hk := absurd (of_getElem?_empty h).1 hk
  increasing h := by
    obtain ⟨rfl, rfl⟩ := of_getElem?_empty h
    exact List.pairwise_singleton _ _
  holding h _ := by
    obtain ⟨rfl, rfl⟩ := of_getElem?_empty h
    exact Or.inl rfl

theorem lt_length_of_getElem? {k : Nat} {r : Record} (h : t.rows[k]? = some r) :
    k < t.rows.length :=
  (List.getElem?_eq_some_iff.mp h).1

theorem getElem?_update (t : Table) (id k : Nat) (f : Record → Record) :
    (t.update id f).rows[k]? = (t.rows[k]?).map fun r => if id = k then f r else r :=
  List.getElem?_modify f id t.rows k

/-! ## Adding a node -/

section
variable {parent : Nat} {content : Content}

/-- A row after a node has been added: it has the same number, parent and content, and lists the
node if that belongs to it. -/
theorem getElem?_add {k : Nat} {r : Record} (h : t.rows[k]? = some r) :
    (t.add parent content).rows[k]? =
      some (if parent = k then { r with children := r.children ++ [t.rows.length] } else r) := by
  rw [add, getElem?_update, List.getElem?_append_left (lt_length_of_getElem? h), h]
  rfl

/-- The row of the node that has been added. -/
theorem getElem?_add_length (h : parent < t.rows.length) :
    (t.add parent content).rows[t.rows.length]? =
      some ⟨t.rows.length, some parent, content, []⟩ := by
  rw [add, getElem?_update, List.getElem?_concat_length, Option.map_some, if_neg (Nat.ne_of_lt h)]

theorem length_add : (t.add parent content).rows.length = t.rows.length + 1 := by
  rw [add, update, List.length_modify, List.length_append, List.length_singleton]

/-- A row of a table with a new node is that of the node, or was there. -/
theorem of_getElem?_add {k : Nat} {r : Record} (hparent : parent < t.rows.length)
    (h : (t.add parent content).rows[k]? = some r) :
    k = t.rows.length ∧ r = ⟨t.rows.length, some parent, content, []⟩ ∨
      ∃ old, t.rows[k]? = some old ∧
        r = if parent = k then { old with children := old.children ++ [t.rows.length] }
          else old := by
  have hlt : k < t.rows.length + 1 := length_add ▸ lt_length_of_getElem? h
  rcases Nat.lt_succ_iff_lt_or_eq.mp hlt with hlt | rfl
  · obtain ⟨old, hold⟩ : ∃ old, t.rows[k]? = some old := ⟨_, List.getElem?_eq_getElem hlt⟩
    exact Or.inr ⟨old, hold, Option.some.inj (h.symm.trans (getElem?_add hold))⟩
  · exact Or.inl ⟨rfl, Option.some.inj (h.symm.trans (getElem?_add_length hparent))⟩

/-- **Adding a node keeps the links.** -/
theorem Linked.add (h : t.Linked) {q : Record} (hq : t.rows[parent]? = some q) (hholds : q.Holds) :
    (t.add parent content).Linked := by
  have hparent := lt_length_of_getElem? hq
  -- a row that was there says where it belongs as before, and lists what it did
  have hkept {k : Nat} {r : Record} (hr : t.rows[k]? = some r) :
      ∃ r', (t.add parent content).rows[k]? = some r' ∧ r'.parent = r.parent ∧
        r.children ⊆ r'.children := by
    refine ⟨_, getElem?_add hr, ?_⟩
    split
    · exact ⟨rfl, List.subset_append_left _ _⟩
    · exact ⟨rfl, List.Subset.refl _⟩
  refine ⟨fun {k r} hr => ?_, fun {p c r} hr hc => ?_, fun {k r} hr hk => ?_, fun {p r} hr => ?_,
    fun {p r} hr hne => ?_⟩
  · rcases of_getElem?_add hparent hr with ⟨rfl, rfl⟩ | ⟨old, hold, rfl⟩
    · rfl
    · have hid := h.numbered hold
      split <;> exact hid
  · rcases of_getElem?_add hparent hr with ⟨rfl, rfl⟩ | ⟨old, hold, rfl⟩
    · cases hc
    · have hbefore (hc : c ∈ old.children) :
          ∃ r, (t.add parent content).rows[c]? = some r ∧ r.parent = some p := by
        obtain ⟨child, hchild, hbelongs⟩ := h.listed hold hc
        obtain ⟨r', hr', heq, -⟩ := hkept hchild
        exact ⟨r', hr', heq.trans hbelongs⟩
      split at hc
      · rename_i heq
        subst heq
        rcases List.mem_append.mp hc with hc | hc
        · exact hbefore hc
        · obtain rfl := List.mem_singleton.mp hc
          exact ⟨_, getElem?_add_length hparent, rfl⟩
      · exact hbefore hc
  · rcases of_getElem?_add hparent hr with ⟨rfl, rfl⟩ | ⟨old, hold, rfl⟩
    · refine Or.inl ⟨parent, _, rfl, getElem?_add hq, ?_⟩
      rw [if_pos rfl]
      exact List.mem_append_right _ List.mem_cons_self
    · rcases h.placed hold hk with ⟨p, holder, hbelongs, hholder, hmem⟩ | hloose
      · obtain ⟨r', hr', -, hsub⟩ := hkept hholder
        refine Or.inl ⟨p, r', ?_, hr', hsub hmem⟩
        split <;> exact hbelongs
      · refine Or.inr ?_
        split <;> exact hloose
  · rcases of_getElem?_add hparent hr with ⟨rfl, rfl⟩ | ⟨old, hold, rfl⟩
    · exact List.pairwise_singleton _ _
    · have hbefore := h.increasing hold
      split
      · rename_i heq
        subst heq
        -- the numbers that are listed are those of rows above the new one
        refine List.pairwise_append.mpr ⟨hbefore, List.pairwise_singleton _ _, fun c hc n hn => ?_⟩
        obtain rfl := List.mem_singleton.mp hn
        rcases List.mem_cons.mp hc with rfl | hc
        · exact hparent
        · obtain ⟨child, hchild, -⟩ := h.listed hold hc
          exact lt_length_of_getElem? hchild
      · exact hbefore
  · rcases of_getElem?_add hparent hr with ⟨rfl, rfl⟩ | ⟨old, hold, rfl⟩
    · exact absurd rfl hne
    · split at hne
      · rename_i heq
        subst heq
        obtain rfl := Option.some.inj (hq.symm.trans hold)
        rw [if_pos rfl]
        exact hholds
      · rename_i hneq
        rw [if_neg hneq]
        exact h.holding hold hne

end

/-! ## Detaching the last child -/

theorem exists_of_lastChild? {parent : Nat} {child : Record} (h : t.Linked)
    (hlast : t.lastChild? parent = some child) :
    ∃ q, t.rows[parent]? = some q ∧ q.children.getLast? = some child.id ∧
      t.rows[child.id]? = some child ∧ child.parent = some parent := by
  simp only [lastChild?, Option.bind_eq_bind, Option.bind_eq_some_iff] at hlast
  obtain ⟨q, hq, c, hc, hchild⟩ := hlast
  obtain rfl := h.numbered hchild
  obtain ⟨r, hr, hbelongs⟩ := h.listed hq (List.mem_of_getLast? hc)
  obtain rfl := Option.some.inj (hr.symm.trans hchild)
  exact ⟨q, hq, hc, hchild, hbelongs⟩

section
variable {parent : Nat} {child : Record} (hlast : t.lastChild? parent = some child)
include hlast

/-- A row after the last child of one has been detached: the child belongs to nothing, and the row
that it belonged to does not list it. -/
theorem getElem?_removeLastChild {k : Nat} {r : Record} (h : t.rows[k]? = some r) :
    (t.removeLastChild parent).rows[k]? = some { r with
      parent := if child.id = k then none else r.parent
      children := if parent = k then r.children.dropLast else r.children } := by
  rw [removeLastChild, hlast, getElem?_update, getElem?_update, h, Option.map_some, Option.map_some]
  split <;> split <;> rfl

theorem of_getElem?_removeLastChild {k : Nat} {r : Record}
    (h : (t.removeLastChild parent).rows[k]? = some r) :
    ∃ old, t.rows[k]? = some old ∧ r.id = old.id ∧ r.content = old.content ∧
      r.parent = (if child.id = k then none else old.parent) ∧
      r.children = if parent = k then old.children.dropLast else old.children := by
  cases hold : t.rows[k]? with
  | none =>
    rw [removeLastChild, hlast, getElem?_update, getElem?_update, hold] at h
    cases h
  | some old =>
    obtain rfl := Option.some.inj (h.symm.trans (getElem?_removeLastChild hlast hold))
    exact ⟨old, rfl, rfl, rfl, rfl, rfl⟩

/-- **Detaching the last child of a row keeps the links**, if it is whitespace. -/
theorem Linked.removeLastChild (h : t.Linked) {value : Text} {position : Position}
    (hcontent : child.content = .text value position) (hblank : Text.allBlank value = true) :
    (t.removeLastChild parent).Linked := by
  obtain ⟨q, hq, hgetLast, hchild, hbelongs⟩ := exists_of_lastChild? h hlast
  have hchildren : q.children.dropLast ++ [child.id] = q.children :=
    List.dropLast_append_getLast? _ hgetLast
  have hsublist (k : Nat) (r : Record) :
      (if parent = k then r.children.dropLast else r.children).Sublist r.children := by
    split
    · exact List.dropLast_sublist _
    · exact List.Sublist.refl _
  refine ⟨fun {k r} hr => ?_, fun {p c r} hr hc => ?_, fun {k r} hr hk => ?_, fun {p r} hr => ?_,
    fun {p r} hr hne => ?_⟩ <;>
    obtain ⟨old, hold, hid, hsame, hparent, hrow⟩ := of_getElem?_removeLastChild hlast hr
  · exact hid.trans (h.numbered hold)
  · rw [hrow] at hc
    obtain ⟨row, hc', hbelongs'⟩ := h.listed hold ((hsublist p old).subset hc)
    -- the child is listed by its parent only, and there only once
    have hother : child.id ≠ c := by
      rintro rfl
      obtain rfl := Option.some.inj (hchild.symm.trans hc')
      obtain rfl := Option.some.inj (hbelongs.symm.trans hbelongs')
      obtain rfl := Option.some.inj (hq.symm.trans hold)
      have hincreasing := (List.pairwise_cons.mp (h.increasing hq)).2
      rw [← hchildren] at hincreasing
      rw [if_pos rfl] at hc
      exact Nat.lt_irrefl _
        ((List.pairwise_append.mp hincreasing).2.2 _ hc _ List.mem_cons_self)
    exact ⟨_, getElem?_removeLastChild hlast hc', (if_neg hother).trans hbelongs'⟩
  · by_cases hk' : child.id = k
    · subst hk'
      obtain rfl := Option.some.inj (hchild.symm.trans hold)
      rw [if_pos rfl] at hparent
      exact Or.inr ⟨hparent, value, position, hsame.trans hcontent, hblank⟩
    · rw [if_neg hk'] at hparent
      rcases h.placed hold hk with ⟨p, holder, hheld, hholder, hmem⟩ | ⟨hnone, hblank⟩
      · refine Or.inl ⟨p, _, hparent.trans hheld, getElem?_removeLastChild hlast hholder, ?_⟩
        show k ∈ if parent = p then holder.children.dropLast else holder.children
        split
        · rename_i heq
          subst heq
          obtain rfl := Option.some.inj (hq.symm.trans hholder)
          rw [← hchildren] at hmem
          exact (List.mem_append.mp hmem).resolve_right fun hmem =>
            hk' (List.mem_singleton.mp hmem).symm
        · exact hmem
      · exact Or.inr ⟨hparent.trans hnone, hsame ▸ hblank⟩
  · rw [hrow]
    exact (h.increasing hold).sublist ((hsublist p old).cons_cons p)
  · have hholds : old.Holds := h.holding hold fun hnil => hne <| by
      rw [hrow]
      exact List.sublist_nil.mp (hnil ▸ hsublist p old)
    rw [Record.Holds, hid, hsame]
    exact hholds

end

theorem length_removeLastChild (t : Table) (parent : Nat) :
    (t.removeLastChild parent).rows.length = t.rows.length := by
  rw [removeLastChild]
  split
  · rw [update, update, List.length_modify, List.length_modify]
  · rfl

/-! ## Closing a tag -/

theorem getElem?_close (t : Table) (id index k : Nat) :
    (t.close id index).rows[k]? = (t.rows[k]?).map fun r =>
      { r with content := if id = k then r.content.closedBy index else r.content } := by
  rw [close, getElem?_update]
  refine congrArg (Option.map · _) (funext fun r => ?_)
  split <;> rfl

/-- **Noting that a tag is closed keeps the links.** -/
theorem Linked.close (h : t.Linked) (id index : Nat) : (t.close id index).Linked := by
  have hkept {k : Nat} {r : Record} (hr : t.rows[k]? = some r) :
      (t.close id index).rows[k]? = some { r with
        content := if id = k then r.content.closedBy index else r.content } := by
    rw [getElem?_close, hr, Option.map_some]
  refine ⟨fun {k r} hr => ?_, fun {p c r} hr hc => ?_, fun {k r} hr hk => ?_, fun {p r} hr => ?_,
    fun {p r} hr hne => ?_⟩ <;> rw [getElem?_close] at hr <;>
    obtain ⟨old, hold, rfl⟩ := Option.map_eq_some_iff.mp hr
  · have hid := h.numbered hold
    exact hid
  · obtain ⟨row, hrow, hbelongs⟩ := h.listed hold hc
    exact ⟨_, hkept hrow, hbelongs⟩
  · rcases h.placed hold hk with ⟨p, holder, hheld, hholder, hmem⟩ |
      ⟨hnone, value, position, htext, hblank⟩
    · exact Or.inl ⟨p, _, hheld, hkept hholder, hmem⟩
    · refine Or.inr ⟨hnone, value, position, ?_, hblank⟩
      dsimp only
      rw [htext]
      split <;> rfl
  · have hincreasing := h.increasing hold
    exact hincreasing
  · have hholds : old.Holds := h.holding hold hne
    refine hholds.imp_right fun ⟨name, hname⟩ => ⟨name, ?_⟩
    dsimp only
    cases hcontent : old.content <;> rw [hcontent] at hname <;> split <;> exact hname

/-! ## Rows by number -/

/-- A row stands at its number. -/
theorem Linked.length_eq (h : t.Linked) {a b : List Record} {r : Record}
    (hrows : t.rows = a ++ r :: b) : a.length = r.id := by
  refine (h.numbered ?_).symm
  rw [hrows, List.getElem?_append_right (Nat.le_refl _), Nat.sub_self]
  rfl

theorem Linked.getElem?_id (h : t.Linked) {a b : List Record} {r : Record}
    (hrows : t.rows = a ++ r :: b) : t.rows[r.id]? = some r := by
  rw [← h.length_eq hrows, hrows, List.getElem?_append_right (Nat.le_refl _), Nat.sub_self]
  rfl

/-- Changing the row with a number changes the row that stands there. -/
theorem update_eq {a b : List Record} {r : Record} {id : Nat} (hrows : t.rows = a ++ r :: b)
    (hlength : a.length = id) (f : Record → Record) : t.update id f = ⟨a ++ f r :: b⟩ := by
  subst hlength
  rw [update, hrows]
  refine congrArg mk ?_
  clear hrows
  induction a with
  | nil => rfl
  | cons first a ih => exact congrArg (first :: ·) ih

end Table

end Stencil
