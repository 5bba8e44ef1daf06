import Stencil.Document.Folding

/-! # Folding with a list of tasks is folding by recursion

`Rule.run` keeps the work still to be done on a list: nodes to go through, and tags to finish from
the latest results.  A node on the list ends up as one more result on top of those before it, and a
row of nodes as as many results as it has nodes that belong somewhere (`work_visit`,
`work_visits`); so a tag finds exactly the results of its own nodes there when it is finished.
Hence the list of tasks computes what the recursion `Rule.applyAll` does, the first fault included
(`run_filter`).
-/

namespace Stencil

/-- What is inside a node belongs to it. -/
theorem Node.isAttached_of_mem_children (n : Node) {m : Node} (hm : m ∈ n.children) :
    m.isAttached = true := by
  cases n with
  | text id t position attached => exact absurd hm List.not_mem_nil
  | tag id head closing children => exact (List.mem_filter.mp hm).2

namespace Rule

variable {ε β : Type} (rule : Rule ε β)

/-- Nodes that belong to nothing give nothing. -/
theorem applyAll_filter (nodes : List Node) :
    rule.applyAll (nodes.filter Node.isAttached) = rule.applyAll nodes := by
  induction nodes with
  | nil => rfl
  | cons n rest ih =>
    by_cases hn : n.isAttached = true
    · rw [List.filter_cons_of_pos hn, applyAll, applyAll, ih]
    · rw [List.filter_cons_of_neg hn, ih, applyAll, if_neg hn]

/-- A row that begins with a node of its own gives a result of the node and those of the rest. -/
theorem applyAll_cons_eq_ok {n : Node} {rest : List Node} {results : List β}
    (hn : n.isAttached = true) (h : rule.applyAll (n :: rest) = .ok results) :
    ∃ result more, rule.apply n = .ok result ∧ rule.applyAll rest = .ok more ∧
      results = result :: more := by
  rw [applyAll, if_pos hn] at h
  cases hr : rule.apply n with
  | error fault => simp [hr] at h
  | ok result =>
    cases hm : rule.applyAll rest with
    | error fault => simp [hr, hm] at h
    | ok more =>
      simp only [hr, hm, Except.ok.injEq] at h
      exact ⟨result, more, rfl, rfl, h.symm⟩

/-- **Two rows one after the other** give their results one after the other, and the first fault. -/
theorem applyAll_append_eq (x y : List Node) :
    rule.applyAll (x ++ y) =
      match rule.applyAll x with
      | .error fault => .error fault
      | .ok rx => (rule.applyAll y).map (rx ++ ·) := by
  induction x with
  | nil =>
    rw [List.nil_append]
    cases rule.applyAll y <;> rfl
  | cons n rest ih =>
    rw [List.cons_append, applyAll, applyAll, ih]
    by_cases hn : n.isAttached = true
    · rw [if_pos hn, if_pos hn]
      cases rule.apply n with
      | error fault => rfl
      | ok result =>
        cases rule.applyAll rest with
        | error fault => rfl
        | ok more => cases rule.applyAll y <;> rfl
    · rw [if_neg hn, if_neg hn]

/-- Two rows one after the other give their results one after the other. -/
theorem applyAll_append {x y : List Node} {rx ry : List β} (hx : rule.applyAll x = .ok rx)
    (hy : rule.applyAll y = .ok ry) : rule.applyAll (x ++ y) = .ok (rx ++ ry) := by
  rw [applyAll_append_eq, hx, hy]
  rfl

/-- The results of two rows one after the other are those of each. -/
theorem applyAll_append_eq_ok {x y : List Node} {results : List β}
    (h : rule.applyAll (x ++ y) = .ok results) :
    ∃ rx ry, rule.applyAll x = .ok rx ∧ rule.applyAll y = .ok ry ∧ results = rx ++ ry := by
  rw [applyAll_append_eq] at h
  cases hx : rule.applyAll x with
  | error fault => simp [hx] at h
  | ok rx =>
    cases hy : rule.applyAll y with
    | error fault => simp [hx, hy, Except.map] at h
    | ok ry => exact ⟨rx, ry, rfl, rfl, by simpa [hx, hy, Except.map, eq_comm] using h⟩

/-- A tag gives what the rule makes of the results of its nodes. -/
theorem apply_tag_eq_ok {id : Nat} {head : TagHead} {closing : Option Nat} {children : List Node}
    {result : β} (h : rule.apply (.tag id head closing children) = .ok result) :
    ∃ results, rule.applyAll children = .ok results ∧
      rule.tag head closing results = .ok result := by
  rw [apply] at h
  cases hr : rule.applyAll children with
  | error fault => simp [hr] at h
  | ok results => exact ⟨results, rfl, by simpa only [hr] using h⟩

mutual

/-- What the rule gives of a node has a property if what it gives of texts does, and of tags whose
nodes have results with it.  Something that is known of the node may be used, if it passes on to the
nodes inside. -/
theorem apply_induction (known : Node → Prop) {P : β → Prop}
    (inside : ∀ {id head closing children}, known (.tag id head closing children) →
      ∀ m ∈ children, known m)
    (text : ∀ {t position result}, rule.text t position = .ok result → P result)
    (tag : ∀ {id head closing children results result}, known (.tag id head closing children) →
      (∀ r ∈ results, P r) → rule.tag head closing results = .ok result → P result) :
    ∀ {n : Node} {result : β}, known n → rule.apply n = .ok result → P result
  | .text _ _ _ _, _, _, h => text h
  | .tag _ _ _ children, _, hn, h => by
    obtain ⟨results, hresults, hresult⟩ := rule.apply_tag_eq_ok h
    exact tag hn (applyAll_induction known inside text tag (inside hn) hresults) hresult

/-- **What the rule gives of the nodes of a row** has a property if what it gives of texts does, and
of tags whose nodes have results with it. -/
theorem applyAll_induction (known : Node → Prop) {P : β → Prop}
    (inside : ∀ {id head closing children}, known (.tag id head closing children) →
      ∀ m ∈ children, known m)
    (text : ∀ {t position result}, rule.text t position = .ok result → P result)
    (tag : ∀ {id head closing children results result}, known (.tag id head closing children) →
      (∀ r ∈ results, P r) → rule.tag head closing results = .ok result → P result) :
    ∀ {nodes : List Node} {results : List β}, (∀ n ∈ nodes, known n) →
      rule.applyAll nodes = .ok results → ∀ r ∈ results, P r
  | [], results, _, h, r, hr => by
    obtain rfl := Except.ok.inj h
    exact absurd hr List.not_mem_nil
  | n :: rest, results, hnodes, h, r, hr => by
    obtain ⟨hn, hrest⟩ := List.forall_mem_cons.mp hnodes
    by_cases hattached : n.isAttached = true
    · obtain ⟨result, more, hresult, hmore, rfl⟩ := rule.applyAll_cons_eq_ok hattached h
      rcases List.mem_cons.mp hr with rfl | hr
      · exact apply_induction known inside text tag hn hresult
      · exact applyAll_induction known inside text tag hrest hmore r hr
    · rw [applyAll, if_neg hattached] at h
      exact applyAll_induction known inside text tag hrest h r hr

end

/-- There is a result for each node that belongs to the row. -/
theorem length_of_applyAll {nodes : List Node} {results : List β}
    (h : rule.applyAll nodes = .ok results) :
    results.length = (nodes.filter Node.isAttached).length := by
  induction nodes generalizing results with
  | nil =>
    simp only [applyAll, Except.ok.injEq] at h
    rw [← h]
    rfl
  | cons n rest ih =>
    by_cases hn : n.isAttached = true
    · obtain ⟨result, more, -, hm, rfl⟩ := rule.applyAll_cons_eq_ok hn h
      rw [List.filter_cons_of_pos hn, List.length_cons, List.length_cons, ih hm]
    · rw [applyAll, if_neg hn] at h
      rw [List.filter_cons_of_neg hn, ih h]

/-- The tasks of a tag, of which the nodes are finished first. -/
theorem work_visit_tag (id : Nat) (head : TagHead) (closing : Option Nat) (children : List Node)
    (tasks : List Task) (results : List β) :
    rule.work (.visit (.tag id head closing children) :: tasks) results =
      rule.work ((children.filter Node.isAttached).map .visit ++
        .finish head closing (children.filter Node.isAttached).length :: tasks) results := by
  rw [work]
  rfl

mutual

/-- A node to go through becomes its result, on top of the results so far. -/
theorem work_visit (tasks : List Task) (results : List β) : ∀ n : Node,
    rule.work (.visit n :: tasks) results =
      match rule.apply n with
      | .ok result => rule.work tasks (result :: results)
      | .error fault => .error fault
  | .text id value position attached => by
    cases ht : rule.text value position with
    | error fault => simp only [work, apply, ht]
    | ok result => simp only [work, apply, ht]
  | .tag id head closing children => by
    rw [work_visit_tag, work_visits, apply]
    cases hr : rule.applyAll children with
    | error fault => rfl
    | ok own =>
      -- the latest results are those of the tag's own nodes
      have hlen : own.reverse.length = (children.filter Node.isAttached).length := by
        rw [List.length_reverse, rule.length_of_applyAll hr]
      cases htag : rule.tag head closing own <;>
        simp only [work, ← hlen, List.take_left, List.drop_left, List.reverse_reverse, htag]

/-- A row of nodes becomes its results, the last one on top. -/
theorem work_visits (tasks : List Task) (results : List β) : ∀ nodes : List Node,
    rule.work ((nodes.filter Node.isAttached).map .visit ++ tasks) results =
      match rule.applyAll nodes with
      | .ok own => rule.work tasks (own.reverse ++ results)
      | .error fault => .error fault
  | [] => rfl
  | n :: rest => by
    by_cases hn : n.isAttached = true
    · rw [List.filter_cons_of_pos hn, List.map_cons, List.cons_append, work_visit, applyAll,
        if_pos hn]
      cases hr : rule.apply n with
      | error fault => rfl
      | ok result =>
        simp only [work_visits tasks (result :: results) rest]
        cases rule.applyAll rest with
        | error fault => rfl
        | ok own => simp
    · rw [List.filter_cons_of_neg hn, applyAll, if_neg hn, work_visits tasks results rest]

end

/-- **Working through the tasks computes the recursion**, with the same results in the same order
and the same first fault. -/
theorem run_filter (nodes : List Node) :
    rule.run (nodes.filter Node.isAttached) = rule.applyAll nodes := by
  have h := rule.work_visits [] [] nodes
  rw [List.append_nil] at h
  rw [run, h]
  cases rule.applyAll nodes with
  | error fault => rfl
  | ok own => simp [work, Except.map]

end Rule
end Stencil
