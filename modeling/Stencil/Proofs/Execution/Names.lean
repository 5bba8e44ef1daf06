import Stencil.Execution.Semantics
import Stencil.Proofs.Program.Shape

/-! # The names that a fragment depends on

An expression looks up the heads of its paths (`Expression.heads`), and so a fragment depends on
the heads of the paths in it that no loop around them binds (`Fragment.free`).  A loop binds two
names in its body, one for the item and one for the index; its collection stands outside.

In two scopes that have the same values for these names, or lack the same, and have the same room, a
fragment without calls runs the same way: to the same text, the same fault and the same streams
(`Semantics.run_congr`).  The induction is on the fragment.  In the body of a loop both scopes have
the same two bindings in front, so that they agree on what is free in the body if they agree on what
is free in the loop (`Agree.extend`).  A call is left out, as its routine sees all names of the
scope.
-/

namespace Stencil

namespace Expression

/-- The names that an expression looks up. -/
def heads : Expression → List Text
  | .literal _ => []
  | .path head _ => [head]
  | .compare _ l r => l.heads ++ r.heads
  | .both l r => l.heads ++ r.heads
  | .either l r => l.heads ++ r.heads
  | .negation e => e.heads
  | .group e => e.heads

end Expression

/-- Whether a loop with a target binds a name in its body. -/
def LoopMode.binds (target name : Text) : Bool := name == target || name == target ++ ['_', 'i']

mutual

/-- The names that an instruction depends on. -/
def Instruction.free : Instruction → List Text
  | .literal _ => []
  | .expression e _ _ => e.heads
  | .branch condition body _ _ => condition.heads ++ Fragment.free body
  | .elseBranch condition body _ _ => condition.heads ++ Fragment.free body
  | .otherwise body _ => Fragment.free body
  | .loop target collection body _ _ _ =>
    collection.heads ++ (Fragment.free body).filter fun name => !LoopMode.binds target name
  | .call _ body _ _ => Fragment.free body
  | .unknown => []

/-- The names that a fragment depends on. -/
def Fragment.free : Fragment → List Text
  | [] => []
  | i :: rest => i.free ++ Fragment.free rest

end

/-! ## Scopes that agree -/

/-- Two scopes that have the same values for some names, or lack the same of them. -/
def Scope.Agree (names : List Text) (s s' : Scope) : Prop :=
  ∀ name ∈ names, Expression.lookup s name = Expression.lookup s' name

namespace Scope
variable {names more : List Text} {s s' : Scope}

theorem Agree.left (h : Agree (names ++ more) s s') : Agree names s s' :=
  fun name hname => h name (List.mem_append_left _ hname)

theorem Agree.right (h : Agree (names ++ more) s s') : Agree more s s' :=
  fun name hname => h name (List.mem_append_right _ hname)

/-- What a loop binds for a pair is found first; all other names are found as before. -/
theorem lookup_extend_bindings (s : Scope) (target : Text) (pair : Value × Value) (name : Text) :
    Expression.lookup (s.extend (Pairs.bindings target pair)) name =
      if name = target then .ok pair.2
      else if name = target ++ ['_', 'i'] then .ok pair.1
      else Expression.lookup s name := by
  rw [Expression.lookup, extend, Pairs.bindings, List.cons_append, List.cons_append,
    List.nil_append, List.lookup_cons, List.lookup_cons]
  by_cases htarget : name = target
  · simp [htarget]
  · have hfirst : (name == target) = false := by simpa using htarget
    by_cases hindex : name = target ++ ['_', 'i']
    · have hsecond : (name == target ++ ['_', 'i']) = true := by simpa using hindex
      simp only [hfirst, hsecond, if_neg htarget, if_pos hindex]
    · have hsecond : (name == target ++ ['_', 'i']) = false := by simpa using hindex
      simp only [hfirst, hsecond, if_neg htarget, if_neg hindex]
      rfl

/-- **With the bindings of a loop in front of them** two scopes agree on the names that are free in
the body. -/
theorem Agree.extend {target : Text} (pair : Value × Value)
    (h : Agree (names.filter fun name => !LoopMode.binds target name) s s') :
    Agree names (s.extend (Pairs.bindings target pair)) (s'.extend (Pairs.bindings target pair)) := by
  intro name hname
  rw [lookup_extend_bindings, lookup_extend_bindings]
  split
  · rfl
  · rename_i htarget
    split
    · rfl
    · rename_i hindex
      exact h name (List.mem_filter.mpr ⟨hname, by simp [LoopMode.binds, htarget, hindex]⟩)

end Scope

/-! ## Expressions -/

namespace Expression
variable [Host] {s s' : Scope}

theorem value_congr {e : Expression} (h : Scope.Agree e.heads s s') (room : Nat) :
    value s room e = value s' room e := by
  induction e generalizing room with
  | literal l => cases room <;> rfl
  | path head steps =>
    cases room with
    | zero => rfl
    | succ room => rw [value, value, h head List.mem_cons_self]
  | group e ih =>
    cases room with
    | zero => rfl
    | succ room => exact ih h room
  | negation e ih =>
    cases room with
    | zero => rfl
    | succ room => rw [value, value, ih h]
  | both l r ihl ihr | either l r ihl ihr | compare c l r ihl ihr =>
    cases room with
    | zero => rfl
    | succ room => rw [value, value, ihl h.left, ihr h.right]

theorem evaluateAt_congr {e : Expression} (h : Scope.Agree e.heads s s') (hroom : s.room = s'.room)
    (position : Option Position) : s.evaluateAt e position = s'.evaluateAt e position := by
  rw [Scope.evaluateAt, Scope.evaluateAt, evaluate, evaluate, value_congr h, hroom]

end Expression

/-! ## Fragments -/

namespace Semantics
open Fragment

/-- A loop depends on its body only through what the body does for pairs. -/
theorem iterate_congr {target : Text} {body body' : List (Text × Value) → Store → Outcome Text}
    (h : ∀ pair store, body (Pairs.bindings target pair) store =
      body' (Pairs.bindings target pair) store) (fuel : Nat) (pairs : Pairs) (store : Store) :
    iterate target body fuel pairs store = iterate target body' fuel pairs store := by
  induction fuel generalizing pairs store with
  | zero => rfl
  | succ fuel ih =>
    rw [iterate, iterate]
    split
    · rfl
    · simp only [h, ih]

variable [Host]

/-- An instruction that calls nothing. -/
def IsPlain : Instruction → Prop
  | .call _ _ _ _ => False
  | _ => True

mutual

/-- An instruction runs the same way in scopes that agree on what it depends on. -/
theorem runOne_congr {s s' : Scope} (hroom : s.room = s'.room) (chain : Option Bool)
    (store : Store) : ∀ i : Instruction, IsPlain i → Every IsPlain (Machine.body? i) →
    Scope.Agree i.free s s' → runOne s chain store i = runOne s' chain store i
  | .literal _, _, _, _ => rfl
  | .expression e _ position, _, _, h => by
    rw [runOne, runOne, Expression.evaluateAt_congr h hroom, hroom]
  | .branch condition body _ position, _, hbody, h => by
    rw [Instruction.free] at h
    have hrun := run_congr hroom none store body hbody h.right
    rw [runOne, runOne, Expression.evaluateAt_congr h.left hroom]
    simp only [hrun]
  | .elseBranch condition body _ position, _, hbody, h => by
    rw [Instruction.free] at h
    have hrun := run_congr hroom none store body hbody h.right
    rw [runOne, runOne, Expression.evaluateAt_congr h.left hroom]
    simp only [hrun]
  | .otherwise body _, _, hbody, h => by
    rw [Instruction.free] at h
    have hrun := run_congr hroom none store body hbody h
    rw [runOne, runOne]
    simp only [hrun]
  | .loop target collection body mode _ position, _, hbody, h => by
    rw [Instruction.free] at h
    have hextend : ∀ bindings, (s.extend bindings).room = (s'.extend bindings).room := fun _ => hroom
    have hround : ∀ pair store, run (s.extend (Pairs.bindings target pair)) none store body =
        run (s'.extend (Pairs.bindings target pair)) none store body :=
      fun pair store => run_congr (hextend _) none store body hbody (h.right.extend pair)
    have hiterate : ∀ pairs : Pairs,
        iterate target (fun bindings store => run (s.extend bindings) none store body)
            pairs.bound pairs store =
          iterate target (fun bindings store => run (s'.extend bindings) none store body)
            pairs.bound pairs store :=
      fun pairs => iterate_congr hround pairs.bound pairs store
    rw [runOne, runOne, Expression.evaluateAt_congr h.left hroom]
    simp only [hiterate]
  | .call _ _ _ _, hplain, _, _ => hplain.elim
  | .unknown, _, _, _ => rfl

/-- **A fragment without calls runs the same way** in scopes that agree on the names that it depends
on. -/
theorem run_congr {s s' : Scope} (hroom : s.room = s'.room) (chain : Option Bool)
    (store : Store) : ∀ f : Fragment,
    Every IsPlain f → Scope.Agree f.free s s' → run s chain store f = run s' chain store f
  | [], _, _ => rfl
  | i :: rest, hplain, h => by
    rw [Fragment.free] at h
    have hi := hplain.mem List.mem_cons_self
    have hbody := hplain.body List.mem_cons_self
    rw [run, run, runOne_congr hroom chain store i hi hbody h.left]
    split
    · rfl
    · rw [run_congr hroom _ _ rest hplain.tail h.right]

end

end Semantics
end Stencil
