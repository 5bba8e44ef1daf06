import Stencil.Proofs.Execution.Blocks
import Stencil.Proofs.Standard.Grammar

/-! # What a document means

A document of the standard grammar has a meaning of its own, without instructions: it is filled by
recursion over its nodes, from left to right.  Every node has a `Role`, by its construct and what
its text spells.  A conditional stands for the whole chain that begins with it: `chain` takes off
the front of the nodes after it what still belongs to the chain, as far as it goes, and the chain
writes the nodes inside its first member whose condition holds (`fillFirst`).  Between members there
may be comments and literals without anything inside; such a node is silent and separates nothing.

The meaning is total.  A member that continues no chain, and a tag that is no construct, are faults
here; a template that compiles has none.
-/

namespace Stencil
namespace Standard
open Semantics

/-- What a node is in the row of its neighbours. -/
inductive Role where
  /-- A node that writes nothing and separates nothing. -/
  | silent
  | text (t : Text)
  | output (e : Expression) (position : Position)
  /-- The first member of a chain. -/
  | opening (condition : Expression) (position : Position)
  /-- A further member of a chain. -/
  | alternative (condition : Expression) (position : Position)
  /-- The member of a chain that needs no condition, the last one. -/
  | otherwise
  | loop (target : Text) (collection : Expression) (mode : LoopMode) (position : Position)
  /-- A node that belongs to no template. -/
  | foreign

/-- The text of a node that is one. -/
def textOf : Node → Text
  | .text _ t _ _ => t
  | .tag _ _ _ _ => []

variable [Host]

/-- The expression that a text spells, whitespace around it aside. -/
def spelled? (t : Text) : Option Expression :=
  match Expression.read Host.reading (Text.trim t) with
  | .ok e => some e
  | .error _ => none

/-- The role of a tag with the given nodes inside. -/
def tagRole (head : TagHead) (inside : List Node) : Role :=
  match construct? head.family head.name with
  | some .comment => .silent
  | some .literal => if inside.isEmpty then .silent else .text (inside.flatMap textOf)
  | some .output =>
    match spelled? head.raw with
    | some e => .output e head.position
    | none => .foreign
  | some .conditional =>
    match spelled? head.raw with
    | some e => .opening e head.position
    | none => .foreign
  | some .alternative =>
    match spelled? head.raw with
    | some e => .alternative e head.position
    | none => .foreign
  | some .otherwise => .otherwise
  | some (.loop mode) =>
    match (argument? head "element").bind target?, (argument? head "object").bind spelled? with
    | some target, some e => .loop target e mode head.position
    | _, _ => .foreign
  | none => .foreign

/-- The role of a node. -/
def role (n : Node) : Role :=
  match n with
  | .text _ t _ _ => .text t
  | .tag _ head _ _ => tagRole head n.children

/-- The members that continue a chain at the front of some nodes, as many as there are, and the
nodes after the chain. -/
def chain : List Node → List Node × List Node
  | [] => ([], [])
  | n :: rest =>
    match role n with
    | .silent => chain rest
    | .alternative _ _ => (n :: (chain rest).1, (chain rest).2)
    | .otherwise => ([n], rest)
    | _ => ([], n :: rest)

/-- A chain consists of nodes, and so does what is after it. -/
theorem countAll_chain_le (nodes : List Node) :
    Node.countAll (chain nodes).1 ≤ Node.countAll nodes ∧
      Node.countAll (chain nodes).2 ≤ Node.countAll nodes := by
  induction nodes with
  | nil => exact ⟨Nat.le_refl _, Nat.le_refl _⟩
  | cons n rest ih =>
    obtain ⟨hmembers, hafter⟩ := ih
    rw [chain]
    split
    all_goals
      simp only [Node.countAll]
      omega

mutual

/-- Fills a node that is no member of a chain. -/
def fillNode (scope : Scope) (store : Store) (n : Node) : Outcome Text :=
  match role n with
  | .silent => .ok ([], store)
  | .text t => .ok (t, store)
  | .output e position =>
    match scope.evaluateAt e (some position) with
    | .error fault => .error fault
    | .ok v => (RunFault.written scope.room v).map fun t => (t, store)
  | .loop target collection mode position =>
    match scope.evaluateAt collection (some position) with
    | .error fault => .error fault
    | .ok v =>
      match Pairs.of mode collection (some position) v with
      | .error fault => .error fault
      | .ok pairs =>
        iterate target
          (fun bindings store => fillAll (scope.extend bindings) store n.children)
          pairs.bound pairs store
  | _ => .error (.render .unsupported)
  termination_by (n.count, 0)
  decreasing_by
    have := Node.countAll_children_lt n
    exact Prod.Lex.left _ _ (by omega)

/-- Fills the first member of a chain whose condition holds. -/
def fillFirst (scope : Scope) (store : Store) : List Node → Outcome Text
  | [] => .ok ([], store)
  | n :: more =>
    match role n with
    | .opening condition position | .alternative condition position =>
      match scope.evaluateAt condition (some position) with
      | .error fault => .error fault
      | .ok v =>
        if v.truthy then fillAll scope store n.children else fillFirst scope store more
    | .otherwise => fillAll scope store n.children
    | _ => .error (.render .unsupported)
  termination_by members => (Node.countAll members, 1)
  decreasing_by
    all_goals
      have := Node.countAll_children_lt n
      have := Node.count_pos n
      refine Prod.Lex.left _ _ ?_
      simp only [Node.countAll]
      omega

/-- Fills nodes one after the other. -/
def fillAll (scope : Scope) (store : Store) : List Node → Outcome Text
  | [] => .ok ([], store)
  | n :: rest =>
    match role n with
    | .opening _ _ =>
      followedBy (fillFirst scope store (n :: (chain rest).1))
        (fun store => fillAll scope store (chain rest).2)
    | _ => followedBy (fillNode scope store n) (fun store => fillAll scope store rest)
  termination_by nodes => (Node.countAll nodes, 2)
  decreasing_by
    · have := countAll_chain_le rest
      simp only [Node.countAll]
      rcases Nat.lt_or_ge (Node.countAll (chain rest).1) (Node.countAll rest) with h | h
      · exact Prod.Lex.left _ _ (by omega)
      · rw [show Node.countAll (chain rest).1 = Node.countAll rest by omega]
        exact Prod.Lex.right _ (by omega)
    · have := countAll_chain_le rest
      have := Node.count_pos n
      refine Prod.Lex.left _ _ ?_
      simp only [Node.countAll]
      omega
    · simp only [Node.countAll]
      rcases Nat.eq_zero_or_pos (Node.countAll rest) with h | h
      · rw [h, Nat.add_zero]
        exact Prod.Lex.right _ (by omega)
      · exact Prod.Lex.left _ _ (by omega)
    · have := Node.count_pos n
      refine Prod.Lex.left _ _ ?_
      simp only [Node.countAll]
      omega

end

/-- The text of a document filled with data. -/
def fill (document : Document) (data : Value) : Except RunFault Text :=
  match fillAll (Scope.ofData data) [] document.roots with
  | .ok (t, _) => .ok t
  | .error fault => .error fault.atTop

end Standard
end Stencil
