import Stencil.Proofs.Program.Shape

/-! # Joined fragments are normal forms

What joining keeps of a fragment is its view (`Fragment.view`): the text before the first
instruction that is no literal, and each such instruction with the text behind it.  What it changes
is how these texts are cut into literals, of which there is at most one for each, and none if it is
empty.  So a merged fragment is written down from its view alone (`merge_eq_ofView`), and two lists
of fragments are joined to the same if and only if they look the same.

Joining is a loop that goes through the fragments from the left and looks at the last instruction
that it has put down (`push`), while merging puts literals in front of what comes after them.  Both
come to the same: an instruction put behind a merged fragment is merged with it (`push_merge`).
-/

namespace Stencil
namespace Fragment

/-! ## The loop -/

/-- A fragment with an instruction put behind it: a literal goes on with a literal that stands at
the end, and otherwise vanishes if it is empty. -/
def push (f : Fragment) (i : Instruction) : Fragment :=
  match i with
  | .literal t =>
    match f.getLast? with
    | some (.literal u) => f.dropLast ++ [.literal (u ++ t)]
    | _ => if t.isEmpty then f else f ++ [.literal t]
  | _ => f ++ [i]

theorem push_of_not_isLiteral {i : Instruction} (hi : isLiteral i = false) (f : Fragment) :
    push f i = f ++ [i] := by
  cases i with
  | literal t => cases hi
  | _ => rfl

/-- What stands in front of the last instruction of a fragment is left alone. -/
theorem push_cons_cons (first second : Instruction) (rest : Fragment) (i : Instruction) :
    push (first :: second :: rest) i = first :: push (second :: rest) i := by
  by_cases hi : isLiteral i = true
  · obtain ⟨t, rfl⟩ := eq_literal_of_isLiteral hi
    rw [push, push, List.getLast?_cons_cons, List.dropLast_cons_cons]
    split
    · rfl
    · split <;> rfl
  · have hi : isLiteral i = false := by simpa using hi
    rw [push_of_not_isLiteral hi, push_of_not_isLiteral hi, List.cons_append]

/-- An instruction that is no literal is left alone, too. -/
theorem push_cons {first : Instruction} (hfirst : isLiteral first = false) (rest : Fragment)
    (i : Instruction) : push (first :: rest) i = first :: push rest i := by
  cases rest with
  | cons second rest => exact push_cons_cons first second rest i
  | nil =>
    by_cases hi : isLiteral i = true
    · obtain ⟨t, rfl⟩ := eq_literal_of_isLiteral hi
      cases first with
      | literal u => cases hfirst
      | _ => cases t <;> rfl
    · have hi : isLiteral i = false := by simpa using hi
      rw [push_of_not_isLiteral hi, push_of_not_isLiteral hi, List.cons_append]

/-- A text in front and an instruction behind do not get in each other's way. -/
theorem push_glue (t : Text) (f : Fragment) (i : Instruction) :
    push (glue t f) i = glue t (push f i) := by
  by_cases ht : t = []
  · rw [ht, glue_nil_left, glue_nil_left]
  have hempty : t.isEmpty = false := by simpa using ht
  cases f with
  | nil =>
    -- here the instruction is put directly behind the text
    cases i with
    | literal u => by_cases hu : u = [] <;> simp [push, glue, hempty, hu]
    | _ => simp [push, glue, hempty]
  | cons first rest =>
    by_cases hfirst : isLiteral first = true
    · obtain ⟨u, rfl⟩ := eq_literal_of_isLiteral hfirst
      rw [glue_literal]
      cases rest with
      | nil =>
        cases i with
        | literal w => simp [push, glue]
        | _ => rfl
      | cons second rest => rw [push_cons_cons, push_cons_cons, glue_literal]
    · have hfirst : isLiteral first = false := by simpa using hfirst
      rw [glue_cons hfirst, hempty, push_cons hfirst, glue_cons hfirst, hempty]
      exact (push_cons_cons _ _ _ _).trans (congrArg _ (push_cons hfirst rest i))

/-- **An instruction put behind a merged fragment is merged with it.** -/
theorem push_merge (f : Fragment) (i : Instruction) : push (merge f) i = merge (f ++ [i]) := by
  induction f with
  | nil =>
    cases i with
    | literal t => cases t <;> rfl
    | _ => rfl
  | cons first rest ih =>
    by_cases hfirst : isLiteral first = true
    · obtain ⟨t, rfl⟩ := eq_literal_of_isLiteral hfirst
      rw [List.cons_append, merge_literal, merge_literal, push_glue, ih]
    · have hfirst : isLiteral first = false := by simpa using hfirst
      rw [List.cons_append, merge_cons hfirst, merge_cons hfirst, push_cons hfirst, ih]

/-- Going on with a merged fragment is merging what comes with it. -/
theorem foldl_push_merge (f g : Fragment) : g.foldl push (merge f) = merge (f ++ g) := by
  induction g generalizing f with
  | nil => rw [List.foldl_nil, List.append_nil]
  | cons i rest ih => rw [List.foldl_cons, push_merge, ih, List.append_assoc, List.singleton_append]

/-- **Joining is a loop over the instructions of the fragments.** -/
theorem join_eq_foldl (fragments : List Fragment) :
    join fragments = fragments.foldl (fun done f => f.foldl push done) [] := by
  rw [← List.foldl_flatten, join]
  exact (foldl_push_merge [] fragments.flatten).symm

/-! ## The view -/

/-- A fragment as a text, and instructions that are no literals, each with the text behind it. -/
def view : Fragment → Text × List (Instruction × Text)
  | [] => ([], [])
  | .literal t :: rest => (t ++ (view rest).1, (view rest).2)
  | i :: rest => ([], (i, (view rest).1) :: (view rest).2)

theorem view_cons {i : Instruction} (hi : isLiteral i = false) (rest : Fragment) :
    view (i :: rest) = ([], (i, (view rest).1) :: (view rest).2) := by
  cases i with
  | literal t => cases hi
  | _ => rfl

/-- A text in front is the first text of the view. -/
theorem view_glue (t : Text) (f : Fragment) : view (glue t f) = (t ++ (view f).1, (view f).2) := by
  by_cases ht : t = []
  · rw [ht, glue_nil_left, List.nil_append]
  have hempty : t.isEmpty = false := by simpa using ht
  cases f with
  | nil => simp [glue, hempty, view]
  | cons i rest =>
    by_cases hi : isLiteral i = true
    · obtain ⟨u, rfl⟩ := eq_literal_of_isLiteral hi
      rw [glue_literal, view, view, List.append_assoc]
    · rw [glue_cons (by simpa using hi), hempty]
      rfl

/-- **Merging leaves the view as it is.** -/
theorem view_merge (f : Fragment) : view (merge f) = view f := by
  induction f with
  | nil => rfl
  | cons i rest ih =>
    by_cases hi : isLiteral i = true
    · obtain ⟨t, rfl⟩ := eq_literal_of_isLiteral hi
      rw [merge_literal, view_glue, ih, view]
    · have hi : isLiteral i = false := by simpa using hi
      rw [merge_cons hi, view_cons hi, view_cons hi, ih]

/-- The fragment with a view that has literals only where they are needed. -/
def ofView (t : Text) : List (Instruction × Text) → Fragment
  | [] => glue t []
  | (i, u) :: rest => glue t (i :: ofView u rest)

theorem glue_ofView (t u : Text) (rest : List (Instruction × Text)) :
    glue t (ofView u rest) = ofView (t ++ u) rest := by
  cases rest with
  | nil => rw [ofView, ofView, glue_glue]
  | cons entry rest => rw [ofView, ofView, glue_glue]

/-- **A merged fragment is the one with its view.** -/
theorem merge_eq_ofView (f : Fragment) : merge f = ofView (view f).1 (view f).2 := by
  induction f with
  | nil => rfl
  | cons i rest ih =>
    by_cases hi : isLiteral i = true
    · obtain ⟨t, rfl⟩ := eq_literal_of_isLiteral hi
      rw [merge_literal, ih, glue_ofView, view]
    · have hi : isLiteral i = false := by simpa using hi
      rw [merge_cons hi, ih, view_cons hi, ofView, glue_nil_left]

/-- The instructions of a view are those of the fragment that are no literals, in their order. -/
theorem map_fst_view (f : Fragment) :
    (view f).2.map Prod.fst = f.filter fun i => !isLiteral i := by
  induction f with
  | nil => rfl
  | cons i rest ih =>
    by_cases hi : isLiteral i = true
    · obtain ⟨t, rfl⟩ := eq_literal_of_isLiteral hi
      exact ih
    · have hi : isLiteral i = false := by simpa using hi
      rw [view_cons hi, List.map_cons, ih, List.filter_cons_of_pos (by simp [hi])]

/-! ## The laws of joining -/

/-- **Joining is the loop that goes through all instructions from the left, and gives the normal
form of the fragments put one after the other.**  Where these are divided does not matter, and they
may be joined in parts beforehand; joining a second time changes nothing.  The joined fragment has
no empty literal and no two literals in a row, the same instructions that are no literals in the same
order, and the same texts between them; and two lists of fragments are joined to the same fragment
exactly if they agree in these instructions and texts. -/
theorem join_laws (xs ys : List Fragment) :
    join xs = xs.foldl (fun done f => f.foldl push done) [] ∧
    join xs = join [xs.flatten] ∧
    join (xs ++ ys) = join [join xs, join ys] ∧
    join [join xs] = join xs ∧
    Clean (join xs) ∧ (join xs).IsChain Apart ∧
    (join xs).filter (fun i => !isLiteral i) = xs.flatten.filter (fun i => !isLiteral i) ∧
    view (join xs) = view xs.flatten ∧
    (join xs = join ys ↔ view xs.flatten = view ys.flatten) := by
  have hview : ∀ fragments : List Fragment, view (join fragments) = view fragments.flatten :=
    fun fragments => view_merge fragments.flatten
  refine ⟨join_eq_foldl xs, ?_, ?_, ?_, clean_merge _, isChain_merge _, ?_, hview xs, ?_, ?_⟩
  · rw [join, join, List.flatten_singleton]
  · have hsplit : [join xs, join ys].flatten = join xs ++ join ys := by simp
    rw [join, List.flatten_append, merge_append, join, hsplit, join, join]
  · rw [join, List.flatten_singleton, join, merge_merge]
  · rw [← map_fst_view, ← map_fst_view, hview]
  · intro hjoin
    rw [← hview, ← hview, hjoin]
  · intro hviews
    rw [join, join, merge_eq_ofView, merge_eq_ofView, hviews]

/-- Empty literals vanish wherever they stand, and those in a row become one. -/
example : join [[.literal [], .literal ['a']], [], [.literal ['b']], [.unknown, .literal []]] =
    [.literal ['a', 'b'], .unknown] := rfl

end Fragment
end Stencil
