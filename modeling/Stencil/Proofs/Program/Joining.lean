import Stencil.Program.Instruction

/-! # Joining fragments

Merging goes through a fragment from its end and puts each literal in front of what has been merged
so far: next to a literal the two become one, and an empty literal vanishes (`glue`).  Putting two
texts in front one after the other is putting their concatenation in front (`glue_glue`), and from
this merging is idempotent (`merge_merge`) and may be done piece by piece (`merge_append`).

Whether a chain is broken depends on the instruction before a fragment only through whether that one
can be followed by a further member of its chain (`brokenAfter?_congr`).  In a fragment without
empty literals, such as a merged one (`clean_merge`), merging breaks no chain and mends none
(`brokenAfter?_merge`); with empty ones it can mend a chain, but still breaks none.
-/

namespace Stencil
namespace Fragment

/-- Whether an instruction is a literal. -/
def isLiteral : Instruction → Bool
  | .literal _ => true
  | _ => false

/-- Whether an instruction is a member of a chain that needs a predecessor. -/
def isSuccessor : Instruction → Bool
  | .elseBranch _ _ _ _ => true
  | .otherwise _ _ => true
  | _ => false

/-- A fragment without empty literals. -/
def Clean (f : Fragment) : Prop := ∀ t, Instruction.literal t ∈ f → t ≠ []

theorem clean_nil : Clean [] := fun _ h => absurd h List.not_mem_nil

theorem Clean.of_cons {i : Instruction} {rest : Fragment} (h : Clean (i :: rest)) : Clean rest :=
  fun t ht => h t (List.mem_cons_of_mem i ht)

theorem Clean.append {a b : Fragment} (ha : Clean a) (hb : Clean b) : Clean (a ++ b) :=
  fun t ht => (List.mem_append.mp ht).elim (ha t) (hb t)

theorem eq_literal_of_isLiteral {i : Instruction} (h : isLiteral i = true) :
    ∃ t, i = .literal t := by
  cases i with
  | literal t => exact ⟨t, rfl⟩
  | _ => simp [isLiteral] at h

/-! ## Merging -/

/-- A merged fragment with a text put in front. -/
def glue (t : Text) : Fragment → Fragment
  | .literal u :: more => .literal (t ++ u) :: more
  | f => if t.isEmpty then f else .literal t :: f

theorem merge_literal (t : Text) (rest : Fragment) :
    merge (.literal t :: rest) = glue t (merge rest) := by
  rw [merge]
  split
  · rename_i h
    rw [h, glue]
  · rename_i h
    rw [glue]
    exact h

theorem merge_cons {i : Instruction} (hi : isLiteral i = false) (rest : Fragment) :
    merge (i :: rest) = i :: merge rest := by
  cases i with
  | literal t => simp [isLiteral] at hi
  | _ => rfl

/-- A text in front of a fragment that does not begin with a literal. -/
theorem glue_cons {i : Instruction} (hi : isLiteral i = false) (t : Text) (f : Fragment) :
    glue t (i :: f) = if t.isEmpty then i :: f else .literal t :: i :: f := by
  cases i with
  | literal t => simp [isLiteral] at hi
  | _ => rfl

theorem glue_literal (t u : Text) (f : Fragment) :
    glue t (.literal u :: f) = .literal (t ++ u) :: f := rfl

theorem glue_nil_left (f : Fragment) : glue [] f = f := by
  cases f with
  | nil => rfl
  | cons i f =>
    by_cases hi : isLiteral i = true
    · obtain ⟨t, rfl⟩ := eq_literal_of_isLiteral hi
      rfl
    · rw [glue_cons (by simpa using hi)]
      rfl

/-- **Two texts in front are one.** -/
theorem glue_glue (t u : Text) (f : Fragment) : glue t (glue u f) = glue (t ++ u) f := by
  -- an empty text vanishes, whatever it is put in front of
  by_cases hu : u = []
  · rw [hu, glue_nil_left, List.append_nil]
  have hempty : u.isEmpty = false := by simpa using hu
  have hboth : (t ++ u).isEmpty = false := by simp [hu]
  cases f with
  | nil => simp [glue, hempty, hboth]
  | cons i f =>
    by_cases hi : isLiteral i = true
    · obtain ⟨w, rfl⟩ := eq_literal_of_isLiteral hi
      simp [glue_literal]
    · have hi : isLiteral i = false := by simpa using hi
      simp [glue_cons hi, hempty, hboth, glue_literal]

theorem clean_glue {t : Text} {f : Fragment} (hf : Clean f) : Clean (glue t f) := by
  intro w hw
  cases f with
  | nil =>
    rw [glue] at hw
    · split at hw
      · exact absurd hw List.not_mem_nil
      · rename_i ht
        obtain rfl : w = t := by simpa using hw
        simpa using ht
    · simp
  | cons i f =>
    by_cases hi : isLiteral i = true
    · obtain ⟨u, rfl⟩ := eq_literal_of_isLiteral hi
      rw [glue_literal] at hw
      rcases List.mem_cons.mp hw with h | h
      · obtain rfl : w = t ++ u := by simpa using h
        simp [hf u List.mem_cons_self]
      · exact hf w (List.mem_cons_of_mem _ h)
    · rw [glue_cons (by simpa using hi)] at hw
      split at hw
      · exact hf w hw
      · rename_i ht
        rcases List.mem_cons.mp hw with h | h
        · obtain rfl : w = t := by simpa using h
          simpa using ht
        · exact hf w h

/-- A merged fragment has no empty literals. -/
theorem clean_merge (f : Fragment) : Clean (merge f) := by
  induction f with
  | nil => exact clean_nil
  | cons i rest ih =>
    by_cases hi : isLiteral i = true
    · obtain ⟨t, rfl⟩ := eq_literal_of_isLiteral hi
      rw [merge_literal]
      exact clean_glue ih
    · rw [merge_cons (by simpa using hi)]
      intro t ht
      rcases List.mem_cons.mp ht with h | h
      · rw [← h] at hi
        exact absurd rfl hi
      · exact ih t h

theorem merge_glue (t : Text) (f : Fragment) : merge (glue t f) = glue t (merge f) := by
  cases f with
  | nil => cases t <;> rfl
  | cons i f =>
    by_cases hi : isLiteral i = true
    · obtain ⟨u, rfl⟩ := eq_literal_of_isLiteral hi
      rw [glue_literal, merge_literal, merge_literal, glue_glue]
    · have hi : isLiteral i = false := by simpa using hi
      rw [glue_cons hi]
      split
      · rename_i ht
        rw [List.isEmpty_iff.mp ht, glue_nil_left]
      · rw [merge_literal]

/-- Merging a second time changes nothing. -/
theorem merge_merge (f : Fragment) : merge (merge f) = merge f := by
  induction f with
  | nil => rfl
  | cons i rest ih =>
    by_cases hi : isLiteral i = true
    · obtain ⟨t, rfl⟩ := eq_literal_of_isLiteral hi
      rw [merge_literal, merge_glue, ih]
    · have hi : isLiteral i = false := by simpa using hi
      rw [merge_cons hi, merge_cons hi, ih]

theorem merge_append_merge (a b : Fragment) : merge (a ++ merge b) = merge (a ++ b) := by
  induction a with
  | nil => exact merge_merge b
  | cons i rest ih =>
    by_cases hi : isLiteral i = true
    · obtain ⟨t, rfl⟩ := eq_literal_of_isLiteral hi
      rw [List.cons_append, List.cons_append, merge_literal, merge_literal, ih]
    · have hi : isLiteral i = false := by simpa using hi
      rw [List.cons_append, List.cons_append, merge_cons hi, merge_cons hi, ih]

theorem merge_glue_append (t : Text) (a b : Fragment) :
    merge (glue t a ++ b) = glue t (merge (a ++ b)) := by
  cases a with
  | nil =>
    cases t with
    | nil => rw [glue_nil_left, glue_nil_left]
    | cons c t => exact merge_literal (c :: t) b
  | cons i a =>
    by_cases hi : isLiteral i = true
    · obtain ⟨u, rfl⟩ := eq_literal_of_isLiteral hi
      rw [glue_literal, List.cons_append, List.cons_append, merge_literal, merge_literal, glue_glue]
    · have hi : isLiteral i = false := by simpa using hi
      rw [glue_cons hi]
      split
      · rename_i ht
        rw [List.isEmpty_iff.mp ht, glue_nil_left]
      · rw [List.cons_append, merge_literal]

theorem merge_merge_append (a b : Fragment) : merge (merge a ++ b) = merge (a ++ b) := by
  induction a with
  | nil => rfl
  | cons i rest ih =>
    by_cases hi : isLiteral i = true
    · obtain ⟨t, rfl⟩ := eq_literal_of_isLiteral hi
      rw [List.cons_append, merge_literal, merge_literal, merge_glue_append, ih]
    · have hi : isLiteral i = false := by simpa using hi
      rw [merge_cons hi, List.cons_append, List.cons_append, merge_cons hi, merge_cons hi, ih]

/-- **Merging may be done piece by piece.** -/
theorem merge_append (a b : Fragment) : merge (a ++ b) = merge (merge a ++ merge b) := by
  rw [merge_merge_append, merge_append_merge]

/-! ## Chains -/

theorem brokenAfter?_cons (previous : Option Instruction) (i : Instruction) (rest : Fragment) :
    brokenAfter? previous (i :: rest) = none ↔
      (isSuccessor i = true → continues previous = true) ∧ brokenAfter? (some i) rest = none := by
  cases i <;> cases h : continues previous <;> simp [brokenAfter?, isSuccessor, h]

/-- What a fragment makes of the instruction before it depends on whether that one continues. -/
theorem brokenAfter?_congr {p q : Option Instruction} (h : continues p = continues q)
    (f : Fragment) : brokenAfter? p f = brokenAfter? q f := by
  cases f with
  | nil => rfl
  | cons i rest => cases i <;> simp only [brokenAfter?, h]

/-- A fragment that breaks no chain after an instruction that ends all chains breaks none after any
other. -/
theorem brokenAfter?_of_ended {q : Option Instruction} {f : Fragment} (hq : continues q = false)
    (h : brokenAfter? q f = none) (p : Option Instruction) : brokenAfter? p f = none := by
  cases f with
  | nil => rfl
  | cons i rest =>
    obtain ⟨hi, hrest⟩ := (brokenAfter?_cons q i rest).mp h
    exact (brokenAfter?_cons p i rest).mpr ⟨fun hs => absurd (hi hs) (by simp [hq]), hrest⟩

theorem brokenAfter?_append {p : Option Instruction} {a b : Fragment}
    (ha : brokenAfter? p a = none) (hb : broken? b = none) : brokenAfter? p (a ++ b) = none := by
  induction a generalizing p with
  | nil => exact brokenAfter?_of_ended (q := none) rfl hb p
  | cons i rest ih =>
    obtain ⟨hi, hrest⟩ := (brokenAfter?_cons p i rest).mp ha
    exact (brokenAfter?_cons p i (rest ++ b)).mpr ⟨hi, ih hrest⟩

/-- A text in front of a fragment separates it from what comes before. -/
theorem brokenAfter?_glue {t : Text} (ht : t ≠ []) (p : Option Instruction) (f : Fragment) :
    brokenAfter? p (glue t f) = brokenAfter? (some (.literal t)) f := by
  have hempty : t.isEmpty = false := by simpa using ht
  cases f with
  | nil => simp [glue, hempty, brokenAfter?]
  | cons i f =>
    by_cases hi : isLiteral i = true
    · obtain ⟨u, rfl⟩ := eq_literal_of_isLiteral hi
      simp only [glue_literal, brokenAfter?]
      exact brokenAfter?_congr (show continues (some (.literal (t ++ u))) = false from rfl) f
    · rw [glue_cons (by simpa using hi), hempty]
      rfl

/-- **Merging a fragment without empty literals breaks no chain and mends none.** -/
theorem brokenAfter?_merge {f : Fragment} (hf : Clean f) (p : Option Instruction) :
    brokenAfter? p (merge f) = brokenAfter? p f := by
  induction f generalizing p with
  | nil => rfl
  | cons i rest ih =>
    by_cases hi : isLiteral i = true
    · obtain ⟨t, rfl⟩ := eq_literal_of_isLiteral hi
      rw [merge_literal, brokenAfter?_glue (hf t List.mem_cons_self), ih hf.of_cons]
      rfl
    · rw [merge_cons (by simpa using hi)]
      cases i with
      | literal t => exact absurd rfl hi
      | elseBranch | otherwise => simp only [brokenAfter?, ih hf.of_cons]
      | _ => simp only [brokenAfter?, ih hf.of_cons]

/-- Merging breaks no chain, even if it takes out what separates two instructions. -/
theorem brokenAfter?_merge_eq_none {f : Fragment} {p : Option Instruction}
    (h : brokenAfter? p f = none) : brokenAfter? p (merge f) = none := by
  induction f generalizing p with
  | nil => rfl
  | cons i rest ih =>
    obtain ⟨hi, hrest⟩ := (brokenAfter?_cons p i rest).mp h
    by_cases hl : isLiteral i = true
    · obtain ⟨t, rfl⟩ := eq_literal_of_isLiteral hl
      rw [merge_literal]
      by_cases ht : t = []
      · -- what follows a literal asks for no predecessor, so the literal may vanish
        rw [ht, glue_nil_left]
        exact brokenAfter?_of_ended rfl (ih hrest) p
      · rw [brokenAfter?_glue ht]
        exact ih hrest
    · rw [merge_cons (by simpa using hl)]
      exact (brokenAfter?_cons p i (merge rest)).mpr ⟨hi, ih hrest⟩

/-- A joined fragment is what its pieces merge to, with all chains whole. -/
theorem joinChecked_eq_ok {fragments : List Fragment} {body : Fragment}
    (h : joinChecked fragments = .ok body) :
    body = merge fragments.flatten ∧ broken? body = none := by
  rw [joinChecked, join] at h
  cases hb : broken? (merge fragments.flatten) with
  | some fault => simp [hb] at h
  | none =>
    simp only [hb, Except.ok.injEq] at h
    exact ⟨h.symm, h ▸ hb⟩

end Fragment
end Stencil
