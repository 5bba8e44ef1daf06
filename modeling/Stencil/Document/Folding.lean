import Stencil.Document.Node

/-!
# Folding a document from the leaves up

Whatever is computed from a document node by node, children before parents and left to right, is
given by a `Rule`: what a text gives, and what a tag gives whose children have given their
results. Either may fail, and the first failure is the result.

`Rule.apply` is the plain recursion. `Rule.run` computes the same with the work still to be done on
an explicit list, so that it goes to any depth.
-/

namespace Stencil

/-- What the nodes of a document give. -/
structure Rule (ε β : Type) where
  text : Text → Position → Except ε β
  tag : TagHead → Option Nat → List β → Except ε β

namespace Rule

variable {ε β : Type} (rule : Rule ε β)

mutual

/-- The result of a node by recursion. -/
def apply : Node → Except ε β
  | .text _ value position _ => rule.text value position
  | .tag _ head closing children =>
    match applyAll children with
    | .ok results => rule.tag head closing results
    | .error fault => .error fault

/-- The results of the nodes of a row that belong somewhere, by recursion. -/
def applyAll : List Node → Except ε (List β)
  | [] => .ok []
  | n :: rest =>
    if n.isAttached then
      match apply n with
      | .error fault => .error fault
      | .ok result =>
        match applyAll rest with
        | .ok results => .ok (result :: results)
        | .error fault => .error fault
    else applyAll rest

end

/-- A piece of work: a node to go through, or a tag to finish from the latest results. -/
inductive Task where
  | visit (n : Node)
  | finish (head : TagHead) (closing : Option Nat) (count : Nat)

/-- The work in a task, counted in steps. -/
def Task.size : Task → Nat
  | .visit n => 2 * n.count
  | .finish _ _ _ => 1

/-- The work in a list of tasks. -/
def workload : List Task → Nat
  | [] => 0
  | task :: rest => task.size + workload rest

theorem workload_visits (nodes : List Node) (rest : List Task) :
    workload (nodes.map Task.visit ++ rest) = 2 * Node.countAll nodes + workload rest := by
  induction nodes with
  | nil => simp [Node.countAll]
  | cons n nodes ih =>
    simp only [List.map_cons, List.cons_append, workload, Task.size, ih, Node.countAll]
    omega

/-- Works through tasks, with the results so far, the newest first. -/
def work : List Task → List β → Except ε (List β)
  | [], results => .ok results
  | .visit (.text _ value position _) :: rest, results =>
    match rule.text value position with
    | .ok result => work rest (result :: results)
    | .error fault => .error fault
  | .visit (.tag id head closing children) :: rest, results =>
    let inside := Node.children (.tag id head closing children)
    work (inside.map .visit ++ .finish head closing inside.length :: rest) results
  | .finish head closing count :: rest, results =>
    match rule.tag head closing (results.take count).reverse with
    | .ok result => work rest (result :: results.drop count)
    | .error fault => .error fault
  termination_by tasks => workload tasks
  decreasing_by
    · simp only [workload, Task.size]
      have := Node.count_pos (.text ‹_› value position ‹_›)
      omega
    · have := Node.countAll_children_lt (.tag id head closing children)
      simp only [workload_visits, workload, Task.size]
      omega
    · simp only [workload, Task.size]
      omega

/-- The results of the nodes that belong to a row, without recursion into them. -/
def run (nodes : List Node) : Except ε (List β) :=
  (work rule (nodes.map .visit) []).map List.reverse

end Rule
end Stencil
