import Stencil.Program.Generation
import Stencil.Proofs.Document.Folding
import Stencil.Proofs.Document.Steps
import Stencil.Proofs.Program.Joining

/-! # What a row of nodes comes to

All that a tag or a document uses of the nodes inside is what their fragments are when they are
joined (`Program.gist`): a literal that was cut in two, a node that gives nothing and a node that
belongs to nothing leave no trace in it.  The gist of a row is made from that of the row without its
newest node (`Program.gist_cons`), a tag is made from the gist of its nodes (`Program.apply_tag`),
and the fragment of a row of segments from the gist of the nodes that are built of them
(`Program.ofSegments_eq`).

The numbers of nodes and the places of tags among the segments do not matter either, if no handler
asks for them (`Registry.Unplaced`).
-/

namespace Stencil

/-- No handler of a registry asks where a tag stands among the segments, or which ones it
encloses. -/
def Registry.Unplaced (registry : Registry) : Prop :=
  ∀ (head : TagHead) (enclosed enclosed' : List Segment) (index : Nat) (inner : Fragment),
    Program.ofTag registry ⟨{ head with segment := index }, enclosed⟩ inner =
      Program.ofTag registry ⟨head, enclosed'⟩ inner

namespace Program
open Fragment

variable {registry : Registry}

/-- The fragment of a row of segments. -/
def ofSegments (registry : Registry) (segments : List Segment) : Except CompileFault Fragment :=
  match Document.ofSegments registry.ordered segments with
  | .ok document => generate registry document
  | .error fault => .error (.unbuilt fault)

/-- Nodes compile in the same way whatever the segments of their document are. -/
theorem rule_congr (h : registry.Unplaced) (segments segments' : List Segment) :
    rule registry segments = rule registry segments' := by
  simp only [rule, Rule.mk.injEq, true_and]
  funext head closing fragments
  cases joinAll fragments with
  | error fault => rfl
  | ok inner => exact h head _ _ head.segment inner

/-! ## Joined fragments -/

/-- A joined fragment, unless a chain is broken in it. -/
def whole (fragment : Fragment) : Except CompileFault Fragment :=
  match broken? fragment with
  | some fault => .error (.brokenChain fault)
  | none => .ok fragment

theorem joinAll_eq (fragments : List Fragment) : joinAll fragments = whole (join fragments) := by
  rw [joinAll, joinChecked, whole]
  cases broken? (join fragments) <;> rfl

/-- What a row of nodes, the newest first, comes to. -/
def gist (registry : Registry) (nodes : List Node) : Except CompileFault Fragment :=
  ((rule registry []).applyAll nodes.reverse).map join

theorem gist_nil : gist registry [] = .ok [] := rfl

/-- What a row comes to does not depend on nodes that belong to nothing. -/
theorem gist_cons_detached {n : Node} (hn : n.isAttached = false) (nodes : List Node) :
    gist registry (n :: nodes) = gist registry nodes := by
  have hnone : (rule registry []).applyAll [n] = .ok [] := by
    rw [Rule.applyAll, if_neg (by simp [hn]), Rule.applyAll]
  rw [gist, gist, List.reverse_cons, Rule.applyAll_append_eq, hnone]
  cases (rule registry []).applyAll nodes.reverse with
  | error fault => rfl
  | ok results => simp [Except.map]

/-- **A further node** adds its fragment to what the row comes to. -/
theorem gist_cons {n : Node} (hn : n.isAttached = true) (nodes : List Node) :
    gist registry (n :: nodes) =
      match gist registry nodes with
      | .error fault => .error fault
      | .ok f => ((rule registry []).apply n).map fun g => merge (f ++ g) := by
  have hone : (rule registry []).applyAll [n] = ((rule registry []).apply n).map ([·]) := by
    rw [Rule.applyAll, if_pos hn, Rule.applyAll]
    cases (rule registry []).apply n <;> rfl
  rw [gist, gist, List.reverse_cons, Rule.applyAll_append_eq, hone]
  cases (rule registry []).applyAll nodes.reverse with
  | error fault => rfl
  | ok results =>
    cases (rule registry []).apply n with
    | error fault => rfl
    | ok g =>
      have hjoin : join (results ++ [g]) = merge (join results ++ g) := by
        rw [join, join, List.flatten_append, List.flatten_singleton, merge_merge_append]
      exact congrArg Except.ok hjoin

/-- A node that gives nothing but empty texts adds nothing to what a row comes to. -/
theorem gist_cons_silent {n : Node} {g : Fragment} (happly : (rule registry []).apply n = .ok g)
    (hg : merge g = []) (nodes : List Node) : gist registry (n :: nodes) = gist registry nodes := by
  by_cases hn : n.isAttached = true
  · rw [gist_cons hn, happly, gist]
    cases (rule registry []).applyAll nodes.reverse with
    | error fault => rfl
    | ok results =>
      have hsilent : merge (join results ++ g) = join results := by
        rw [merge_append, hg, List.append_nil, merge_merge, join, merge_merge]
      exact congrArg Except.ok hsilent
  · exact gist_cons_detached (eq_false_of_ne_true hn) nodes

/-- **A tag** is made from what the nodes inside come to. -/
theorem apply_tag (id : Nat) (head : TagHead) (closing : Option Nat) (nodes : List Node) :
    (rule registry []).apply (.tag id head closing nodes.reverse) =
      match gist registry nodes with
      | .error fault => .error fault
      | .ok f =>
        match whole f with
        | .error fault => .error fault
        | .ok inner => ofTag registry ⟨head, Document.enclosed [] head closing⟩ inner := by
  rw [Rule.apply, gist]
  cases (rule registry []).applyAll nodes.reverse with
  | error fault => rfl
  | ok results =>
    simp only [rule, joinAll_eq, Except.map]
    cases whole (join results) <;> rfl

/-- **The fragment of a row of segments** is made from what the nodes that are built of them come
to. -/
theorem ofSegments_eq (h : registry.Unplaced) (segments : List Segment) :
    ofSegments registry segments =
      match Building.empty.addAll registry.ordered 0 segments with
      | .error fault => .error (.unbuilt fault)
      | .ok b =>
        match b.stack with
        | t :: _ => .error (.unbuilt (.neverClosed t.name t.head.position))
        | [] =>
          match gist registry b.top with
          | .error fault => .error fault
          | .ok f => whole f := by
  rw [ofSegments, Document.ofSegments]
  cases Building.empty.addAll registry.ordered 0 segments with
  | error fault => rfl
  | ok b =>
    cases hstack : b.stack with
    | cons t outer => simp [Building.finish, hstack, Except.map]
    | nil =>
      simp only [Building.finish, hstack, Except.map, generate, Document.roots, Rule.run_filter,
        rule_congr h segments [], gist]
      cases (rule registry []).applyAll b.top.reverse with
      | error fault => rfl
      | ok results => exact joinAll_eq results

end Program
end Stencil
