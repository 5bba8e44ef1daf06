import Stencil.Proofs.Document.Arena
import Stencil.Proofs.Document.Folding

/-! # The order in which a rule meets the nodes

A rule computes what belongs to a tag before the tag, and nodes that stand side by side from the
left to the right: in **post-order** (`Node.postorderAll`).  This is the walk through the document
in another order (`Document.postorder_perm_walk`).  So the tags among its nodes are the tags of the
table that belong to something, each of them once (`Document.Arena.count_tags`).

A rule that gives the results of a row has given one of every node in this order
(`Rule.succeeds_of_applyAll`).  A rule that fails does so at one node itself, and has given results
of all nodes before it (`Rule.FirstFault`).
-/

namespace Stencil

/-- Whether a content is that of a tag. -/
def Content.isTag : Content → Bool
  | .tag _ _ => true
  | _ => false

namespace Node

mutual

/-- A node behind everything that belongs to it. -/
def postorder : Node → List Node
  | .text id t position attached => [.text id t position attached]
  | .tag id head closing children => postorderAll children ++ [.tag id head closing children]

/-- The nodes of a row that belong to something, each behind everything that belongs to it. -/
def postorderAll : List Node → List Node
  | [] => []
  | n :: rest => if n.isAttached then postorder n ++ postorderAll rest else postorderAll rest

end

/-- The numbers of the tags among nodes. -/
def tags (nodes : List Node) : List Nat := (nodes.filter fun n => n.content.isTag).map id

theorem tags_append (a b : List Node) : tags (a ++ b) = tags a ++ tags b := by
  rw [tags, List.filter_append, List.map_append]
  rfl

mutual

/-- Visiting a node is going through what belongs to it, in another order. -/
theorem visit_perm (stack : List Node) : ∀ n : Node,
    (visit (n :: stack)).Perm (postorder n ++ visit stack)
  | .text id t position attached => by
    rw [visit]
    exact List.Perm.refl _
  | .tag id head closing children => by
    rw [visit, postorder, List.append_assoc]
    exact ((visitAll_perm stack children).cons _).trans List.perm_middle.symm

/-- **Visiting a row** is going through it in another order. -/
theorem visitAll_perm (stack : List Node) : ∀ nodes : List Node,
    (visit (nodes.filter isAttached ++ stack)).Perm (postorderAll nodes ++ visit stack)
  | [] => List.Perm.refl _
  | n :: rest => by
    rw [postorderAll]
    by_cases hn : n.isAttached = true
    · rw [List.filter_cons_of_pos hn, if_pos hn, List.append_assoc]
      exact (visit_perm _ n).trans ((visitAll_perm stack rest).append_left _)
    · rw [List.filter_cons_of_neg hn, if_neg hn]
      exact visitAll_perm stack rest

end

end Node

namespace Document

/-- The nodes that belong to something in post-order are those of the walk. -/
theorem postorder_perm_walk (document : Document) :
    (Node.postorderAll document.children).Perm document.walk := by
  have hvisit := Node.visitAll_perm [] document.children
  rw [List.append_nil, Node.visit, List.append_nil] at hvisit
  exact hvisit.symm

variable {document : Document}

theorem Arena.nodup_ids (h : document.Arena) : (document.records.map Record.id).Nodup :=
  h.numbered ▸ List.nodup_range

/-- There is one row only with a number. -/
theorem Arena.eq_of_id_eq (h : document.Arena) {q r : Record} (hq : q ∈ document.records)
    (hr : r ∈ document.records) (hid : q.id = r.id) : q = r :=
  List.inj_on_of_nodup_map h.nodup_ids hq hr hid

/-- A row stands in the table where its number says. -/
theorem Arena.getElem?_id (h : document.Arena) {r : Record} (hr : r ∈ document.records) :
    document.records[r.id]? = some r := by
  obtain ⟨k, hk, rfl⟩ := List.getElem_of_mem hr
  have hid : (document.records[k]).id = k := by
    have hmap : (document.records.map Record.id)[k]? = some (document.records[k]).id := by
      rw [List.getElem?_map, List.getElem?_eq_getElem hk]
      rfl
    rw [h.numbered] at hmap
    exact (List.getElem?_eq_some_iff.mp hmap).2.symm.trans (List.getElem_range _)
  rw [hid]
  exact List.getElem?_eq_getElem hk

/-- The tags of the walk are the tags of the table that belong to something. -/
theorem Arena.tags_walk (h : document.Arena) :
    Node.tags document.walk =
      (document.records.filter fun r => r.parent.isSome && r.content.isTag).map Record.id := by
  have htags := congrArg (fun l => (l.filter fun e => e.2.isTag).map Prod.fst) h.walked
  simpa only [List.filter_map, List.map_map, Function.comp_def, List.filter_filter, Bool.and_comm,
    Node.tags] using htags

/-- **Every tag that belongs to something comes once in post-order**, and nothing else does. -/
theorem Arena.count_tags (h : document.Arena) {r : Record} (hr : r ∈ document.records) :
    (Node.tags (Node.postorderAll document.children)).count r.id =
      if r.parent.isSome && r.content.isTag then 1 else 0 := by
  have hperm : (Node.tags (Node.postorderAll document.children)).Perm
      ((document.records.filter fun r => r.parent.isSome && r.content.isTag).map Record.id) :=
    h.tags_walk ▸ (document.postorder_perm_walk.filter _).map _
  rw [hperm.count_eq]
  split
  · rename_i htag
    refine List.count_eq_one_of_mem ?_ ?_
    · exact h.nodup_ids.sublist (List.filter_sublist.map Record.id)
    · exact List.mem_map_of_mem (List.mem_filter.mpr ⟨hr, htag⟩)
  · rename_i htag
    refine List.count_eq_zero_of_not_mem fun hmem => ?_
    obtain ⟨q, hq, hid⟩ := List.mem_map.mp hmem
    obtain ⟨hq, hqtag⟩ := List.mem_filter.mp hq
    exact htag (h.eq_of_id_eq hq hr hid ▸ hqtag)

end Document

namespace Rule

variable {ε β : Type} (rule : Rule ε β)

/-- A node at which a rule itself fails: it has given results of all that belongs to the node. -/
inductive FailsAt (fault : ε) : Node → Prop
  | text {id : Nat} {t : Text} {position : Position} {attached : Bool}
      (h : rule.text t position = .error fault) : FailsAt fault (.text id t position attached)
  | tag {id : Nat} {head : TagHead} {closing : Option Nat} {children : List Node}
      {results : List β} (hresults : rule.applyAll children = .ok results)
      (h : rule.tag head closing results = .error fault) :
      FailsAt fault (.tag id head closing children)

/-- The first of the nodes `order` at which a rule fails, with those `before` it. -/
structure FirstFault (order before : List Node) (n : Node) (fault : ε) : Prop where
  stands : ∃ after, order = before ++ n :: after
  succeeds : ∀ m ∈ before, ∃ result, rule.apply m = .ok result
  fails : rule.FailsAt fault n

variable {rule}

theorem FirstFault.append_right {order before : List Node} {n : Node} {fault : ε}
    (h : rule.FirstFault order before n fault) (more : List Node) :
    rule.FirstFault (order ++ more) before n fault := by
  obtain ⟨after, hafter⟩ := h.stands
  refine ⟨⟨after ++ more, ?_⟩, h.succeeds, h.fails⟩
  rw [hafter, List.append_assoc, List.cons_append]

theorem FirstFault.append_left {order before first : List Node} {n : Node} {fault : ε}
    (hfirst : ∀ m ∈ first, ∃ result, rule.apply m = .ok result)
    (h : rule.FirstFault order before n fault) :
    rule.FirstFault (first ++ order) (first ++ before) n fault := by
  obtain ⟨after, hafter⟩ := h.stands
  refine ⟨⟨after, ?_⟩, fun m hm => ?_, h.fails⟩
  · rw [hafter, List.append_assoc]
  · exact (List.mem_append.mp hm).elim (hfirst m) (h.succeeds m)

variable (rule)

mutual

/-- A rule that gives a result of a node has given one of everything that belongs to it. -/
theorem succeeds_of_apply : ∀ {n : Node} {result : β}, rule.apply n = .ok result →
    ∀ m ∈ n.postorder, ∃ result, rule.apply m = .ok result
  | .text _ _ _ _, result, h, m, hm => by
    obtain rfl := List.mem_singleton.mp hm
    exact ⟨result, h⟩
  | .tag _ _ _ children, result, h, m, hm => by
    obtain ⟨results, hresults, -⟩ := rule.apply_tag_eq_ok h
    rcases List.mem_append.mp hm with hm | hm
    · exact succeeds_of_applyAll hresults m hm
    · obtain rfl := List.mem_singleton.mp hm
      exact ⟨result, h⟩

/-- **A rule that gives the results of a row** has given one of everything that belongs to it. -/
theorem succeeds_of_applyAll : ∀ {nodes : List Node} {results : List β},
    rule.applyAll nodes = .ok results →
    ∀ m ∈ Node.postorderAll nodes, ∃ result, rule.apply m = .ok result
  | [], _, _, m, hm => absurd hm List.not_mem_nil
  | n :: rest, results, h, m, hm => by
    rw [Node.postorderAll] at hm
    by_cases hn : n.isAttached = true
    · rw [if_pos hn] at hm
      obtain ⟨result, more, hresult, hmore, -⟩ := rule.applyAll_cons_eq_ok hn h
      rcases List.mem_append.mp hm with hm | hm
      · exact succeeds_of_apply hresult m hm
      · exact succeeds_of_applyAll hmore m hm
    · rw [if_neg hn] at hm
      rw [applyAll, if_neg hn] at h
      exact succeeds_of_applyAll h m hm

end

end Rule
end Stencil
