import Stencil.Execution.Semantics
import Stencil.Proofs.Program.Joining

/-! # Running blocks

How a block runs when it is put together from others.  A block that breaks no chain on its own does
not feel how the chain before it stands (`run_congr_chain`), so that two blocks one after the other
run one after the other (`run_append`), and merging the literals of a block changes nothing
(`run_merge`): a literal that vanishes ends a chain, but what follows it then does not ask.
-/

namespace Stencil
namespace Semantics
open Fragment

/-- One outcome after another: the second goes on from where the first has left the streams, and its
text comes after the text of the first. -/
def followedBy (first : Outcome Text) (second : Store → Outcome Text) : Outcome Text :=
  match first with
  | .error fault => .error fault
  | .ok (t, store) =>
    match second store with
    | .error fault => .error fault
    | .ok (u, store) => .ok (t ++ u, store)

@[simp] theorem followedBy_nil (store : Store) (second : Store → Outcome Text) :
    followedBy (.ok ([], store)) second = second store := by
  rw [followedBy]
  cases second store <;> rfl

theorem followedBy_assoc (first : Outcome Text) (second third : Store → Outcome Text) :
    followedBy (followedBy first second) third =
      followedBy first (fun store => followedBy (second store) third) := by
  cases first with
  | error fault => rfl
  | ok r =>
    obtain ⟨t, store⟩ := r
    simp only [followedBy]
    cases second store with
    | error fault => rfl
    | ok r =>
      obtain ⟨u, store⟩ := r
      simp only
      cases third store with
      | error fault => rfl
      | ok r => simp

variable [Host] (scope : Scope) (chain : Option Bool) (store : Store)

/-- A text in front of a block ends the chain before it. -/
theorem run_literal (t : Text) (rest : Fragment) :
    run scope chain store (.literal t :: rest) =
      followedBy (.ok (t, store)) (fun store => run scope none store rest) := rfl

/-- What follows an instruction feels of it the chain and the streams. -/
theorem run_cons (i : Instruction) (rest : Fragment) :
    run scope chain store (i :: rest) =
      match runOne scope chain store i with
      | .error fault => .error fault
      | .ok ((t, chain), store) =>
        followedBy (.ok (t, store)) (fun store => run scope chain store rest) := by
  rw [run]
  rcases runOne scope chain store i with fault | ⟨⟨t, chain⟩, store⟩ <;> rfl

/-- An instruction that starts something of its own does not feel the chain before it. -/
theorem runOne_congr_chain {i : Instruction} (hi : isSuccessor i = false) (c : Option Bool) :
    runOne scope chain store i = runOne scope c store i := by
  cases i with
  | elseBranch | otherwise => simp [isSuccessor] at hi
  | _ => simp only [runOne]

/-- A block that breaks no chain after an instruction that ends all chains does not feel the chain
before it. -/
theorem run_congr_chain {f : Fragment} {p : Option Instruction} (hp : continues p = false)
    (hf : brokenAfter? p f = none) (c : Option Bool) :
    run scope chain store f = run scope c store f := by
  cases f with
  | nil => rfl
  | cons i rest =>
    have hi : isSuccessor i = false := by
      cases h : isSuccessor i with
      | false => rfl
      | true => simpa [hp] using ((brokenAfter?_cons p i rest).mp hf).1 h
    rw [run_cons, run_cons, runOne_congr_chain scope chain store hi c]

/-- A text put in front of a block that breaks no chain after it is written before the block. -/
theorem run_glue {t : Text} {f : Fragment} (hf : brokenAfter? (some (.literal t)) f = none) :
    run scope chain store (glue t f) = run scope chain store (.literal t :: f) := by
  cases f with
  | nil => cases t <;> rfl
  | cons i f =>
    by_cases hi : isLiteral i = true
    · obtain ⟨u, rfl⟩ := eq_literal_of_isLiteral hi
      rw [glue_literal, run_literal, run_literal]
      simp only [followedBy, run_literal]
      cases run scope none store f with
      | error fault => rfl
      | ok r => simp
    · rw [glue_cons (by simpa using hi)]
      split
      · -- the text vanishes, and with it the end of the chain, for which the block does not ask
        rename_i ht
        rw [List.isEmpty_iff.mp ht, run_literal, followedBy_nil]
        exact run_congr_chain scope chain store rfl hf none
      · rfl

/-- **Merging keeps the meaning of a block whose chains are whole.**  Empty literals and literals in
a row may stand anywhere but inside a chain. -/
theorem run_merge {f : Fragment} {p : Option Instruction} (hf : brokenAfter? p f = none) :
    run scope chain store (merge f) = run scope chain store f := by
  induction f generalizing p chain store with
  | nil => rfl
  | cons i rest ih =>
    obtain ⟨-, hrest⟩ := (brokenAfter?_cons p i rest).mp hf
    by_cases hi : isLiteral i = true
    · obtain ⟨t, rfl⟩ := eq_literal_of_isLiteral hi
      rw [merge_literal, run_glue scope chain store (brokenAfter?_merge_eq_none hrest), run_literal,
        run_literal]
      simp only [followedBy, ih none store hrest]
    · rw [merge_cons (by simpa using hi), run_cons, run_cons]
      rcases runOne scope chain store i with fault | ⟨⟨t, c⟩, s⟩
      · rfl
      · simp only [ih _ _ hrest]

/-- **Two blocks one after the other run one after the other**, if the second breaks no chain on its
own. -/
theorem run_append {a b : Fragment} (hb : broken? b = none) :
    run scope chain store (a ++ b) =
      followedBy (run scope chain store a) (fun store => run scope none store b) := by
  induction a generalizing chain store with
  | nil =>
    rw [List.nil_append, run, followedBy_nil]
    exact run_congr_chain scope chain store (p := none) rfl hb none
  | cons i rest ih =>
    rw [List.cons_append, run_cons, run_cons]
    rcases runOne scope chain store i with fault | ⟨⟨t, c⟩, s⟩
    · rfl
    · simp only [ih, followedBy_assoc]

end Semantics
end Stencil
