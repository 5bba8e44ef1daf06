import Mathlib.Data.List.Chain
import Stencil.Execution.Machine
import Stencil.Proofs.Program.Generation

/-! # The shape of compiled blocks

A fragment is a block, and so is the body of each instruction in it, at any depth
(`Fragment.Block`).  A tidy block has no empty literals and no two literals in a row, and each
member of a chain that needs a predecessor stands directly behind one (`Fragment.Tidy`).

Blocks are tidied only where the fragments of the nodes in a tag are joined; what a handler makes of
the joined fragment is put in order by the tag around it.  So a handler may put empty literals and
halves of chains wherever it likes, and even the fragment twice, as long as it takes the bodies of
its instructions from the fragment that it is given (`Handler.BuildsFromInner`).  Then every block of
what a source compiles to is tidy (`Program.tidy_of_compile`), by induction on the document: below
its top level the fragment of each node has tidy blocks only (`Fragment.TidyInside`).
-/

namespace Stencil

namespace Fragment
open Machine (body?)

/-- A block of a fragment: the fragment itself, or the body of an instruction in one of its
blocks. -/
inductive Block (fragment : Fragment) : Fragment → Prop
  | whole : Block fragment fragment
  | body {block : Fragment} {i : Instruction} (hblock : Block fragment block) (hi : i ∈ block) :
      Block fragment (body? i)

theorem Block.trans {a b c : Fragment} (hab : Block a b) (hbc : Block b c) : Block a c := by
  induction hbc with
  | whole => exact hab
  | body hblock hi ih => exact ih.body hi

/-- Below its top level a fragment has the blocks of the bodies of its instructions. -/
theorem Block.cases_top {fragment block : Fragment} (h : Block fragment block) :
    block = fragment ∨ ∃ i ∈ fragment, Block (body? i) block := by
  induction h with
  | whole => exact Or.inl rfl
  | body hblock hi ih =>
    rcases ih with rfl | ⟨top, htop, hinside⟩
    · exact Or.inr ⟨_, hi, .whole⟩
    · exact Or.inr ⟨top, htop, hinside.body hi⟩

theorem eq_nil_of_block_nil {block : Fragment} (h : Block [] block) : block = [] := by
  rcases h.cases_top with rfl | ⟨i, hi, -⟩
  · rfl
  · exact absurd hi List.not_mem_nil

/-- A property that all instructions of a fragment have, at any depth. -/
def Every (P : Instruction → Prop) (f : Fragment) : Prop := ∀ block, Block f block → ∀ i ∈ block, P i

namespace Every
variable {P : Instruction → Prop} {f : Fragment}

theorem mem (h : Every P f) {i : Instruction} (hi : i ∈ f) : P i := h f .whole i hi

theorem body (h : Every P f) {i : Instruction} (hi : i ∈ f) : Every P (body? i) :=
  fun block hblock => h block ((Block.whole.body hi).trans hblock)

theorem of_mem (h : ∀ i ∈ f, P i ∧ Every P (body? i)) : Every P f := by
  intro block hblock j hj
  rcases hblock.cases_top with rfl | ⟨i, hi, hinside⟩
  · exact (h j hj).1
  · exact (h i hi).2 block hinside j hj

theorem nil : Every P [] := of_mem fun _ h => absurd h List.not_mem_nil

theorem tail {i : Instruction} (h : Every P (i :: f)) : Every P f :=
  of_mem fun _ hj => ⟨h.mem (List.mem_cons_of_mem i hj), h.body (List.mem_cons_of_mem i hj)⟩

theorem single {i : Instruction} (hi : P i) (hbody : Every P (body? i)) : Every P [i] :=
  of_mem fun j hj => by
    obtain rfl := List.mem_singleton.mp hj
    exact ⟨hi, hbody⟩

/-- Joining adds nothing but literals. -/
theorem joinAll {fragments : List Fragment} {inner : Fragment} (hliteral : ∀ t, P (.literal t))
    (h : ∀ f ∈ fragments, Every P f) (hjoin : Program.joinAll fragments = .ok inner) :
    Every P inner := by
  refine of_mem fun i hi => ?_
  rcases Program.mem_of_joinAll hjoin hi with hi | ⟨f, hf, hi⟩
  · obtain ⟨t, rfl⟩ := eq_literal_of_isLiteral hi
    exact ⟨hliteral t, nil⟩
  · exact ⟨(h f hf).mem hi, (h f hf).body hi⟩

theorem imp {Q : Instruction → Prop} (h : Every P f) (himp : ∀ i, P i → Q i) : Every Q f :=
  fun block hblock i hi => himp i (h block hblock i hi)

end Every

/-- **A tidy block**: no empty literals, no two literals in a row, and no member of a chain that
does not directly follow its chain. -/
structure Tidy (block : Fragment) : Prop where
  filled : ∀ t, Instruction.literal t ∈ block → t ≠ []
  apart : ∀ front t u back, block ≠ front ++ .literal t :: .literal u :: back
  follows : ∀ front i back, block = front ++ i :: back → isSuccessor i = true →
    ∃ before j, front = before ++ [j] ∧ continues (some j) = true

/-! ## Joined fragments -/

/-- A member of a chain in a fragment that breaks none directly follows its chain. -/
theorem follows_of_brokenAfter? {previous : Option Instruction} {f : Fragment}
    (h : brokenAfter? previous f = none) {front back : Fragment} {i : Instruction}
    (hsplit : f = front ++ i :: back) (hi : isSuccessor i = true) :
    continues (front.getLast?.or previous) = true := by
  induction front generalizing previous f with
  | nil =>
    subst hsplit
    exact ((brokenAfter?_cons previous i back).mp h).1 hi
  | cons first front ih =>
    subst hsplit
    obtain ⟨-, hrest⟩ := (brokenAfter?_cons previous first _).mp h
    have hlast := ih hrest rfl
    cases hfront : front.getLast? with
    | none =>
      obtain rfl := List.getLast?_eq_none_iff.mp hfront
      simpa using hlast
    | some last => simpa [List.getLast?_cons, hfront] using hlast

/-- Whether an instruction and the one after it are not both literals. -/
def Apart (i j : Instruction) : Prop := isLiteral i = true → isLiteral j = false

theorem isChain_glue {t : Text} {f : Fragment} (h : f.IsChain Apart) :
    (glue t f).IsChain Apart := by
  cases f with
  | nil => cases t <;> simp [glue]
  | cons i f =>
    by_cases hi : isLiteral i = true
    · obtain ⟨u, rfl⟩ := eq_literal_of_isLiteral hi
      rw [glue_literal]
      rw [List.isChain_cons] at h ⊢
      exact h
    · have hi : isLiteral i = false := by simpa using hi
      rw [glue_cons hi]
      split
      · exact h
      · exact List.isChain_cons_cons.mpr ⟨fun _ => hi, h⟩

/-- A merged fragment has no two literals in a row. -/
theorem isChain_merge (f : Fragment) : (merge f).IsChain Apart := by
  induction f with
  | nil => exact .nil
  | cons i rest ih =>
    by_cases hi : isLiteral i = true
    · obtain ⟨t, rfl⟩ := eq_literal_of_isLiteral hi
      rw [merge_literal]
      exact isChain_glue ih
    · rw [merge_cons (by simpa using hi), List.isChain_cons]
      exact ⟨fun _ _ h => absurd h hi, ih⟩

/-- **What has been joined is tidy.** -/
theorem tidy_of_joinChecked {fragments : List Fragment} {block : Fragment}
    (h : joinChecked fragments = .ok block) : Tidy block := by
  obtain ⟨hmerged, hwhole⟩ := joinChecked_eq_ok h
  refine ⟨fun t ht => clean_merge fragments.flatten t (hmerged ▸ ht), ?_, ?_⟩
  · rintro front t u back rfl
    have hchain := isChain_merge fragments.flatten
    rw [← hmerged] at hchain
    have hpair := (List.isChain_append_cons_cons.mp hchain).2.1
    exact absurd (hpair rfl) Bool.noConfusion
  · intro front i back hsplit hi
    have hlast := follows_of_brokenAfter? hwhole hsplit hi
    rw [Option.or_none] at hlast
    cases hfront : front.getLast? with
    | none => rw [hfront] at hlast; cases hlast
    | some j =>
      obtain ⟨before, rfl⟩ := List.getLast?_eq_some_iff.mp hfront
      rw [hfront] at hlast
      exact ⟨before, j, rfl, hlast⟩

/-! ## What nodes give -/

/-- A fragment of which all blocks are tidy, but perhaps not the fragment itself. -/
def TidyInside (f : Fragment) : Prop := ∀ i ∈ f, ∀ block, Block (body? i) block → Tidy block

theorem tidy_nil : Tidy [] where
  filled _ h := absurd h List.not_mem_nil
  apart := by simp
  follows := by simp

theorem tidyInside_literal (t : Text) : TidyInside [.literal t] := by
  intro i hi block hblock
  obtain rfl := List.mem_singleton.mp hi
  exact eq_nil_of_block_nil hblock ▸ tidy_nil

/-- **Joining** what is tidy inside leaves nothing untidy. -/
theorem tidy_of_joinAll {fragments : List Fragment} {inner : Fragment}
    (hfragments : ∀ f ∈ fragments, TidyInside f) (h : Program.joinAll fragments = .ok inner) :
    ∀ block, Block inner block → Tidy block := by
  intro block hblock
  rcases hblock.cases_top with rfl | ⟨i, hi, hinside⟩
  · exact tidy_of_joinChecked (Program.joinChecked_of_joinAll h)
  · rcases Program.mem_of_joinAll h hi with hliteral | ⟨f, hf, hif⟩
    · obtain ⟨t, rfl⟩ := eq_literal_of_isLiteral hliteral
      exact eq_nil_of_block_nil hinside ▸ tidy_nil
    · exact hfragments f hf i hif block hinside

end Fragment

/-! ## Handlers -/

/-- A handler that takes the bodies of its instructions from the fragment that it is given: each of
them is empty, or that fragment, or a block inside it. -/
def Handler.BuildsFromInner (handler : Handler) : Prop :=
  ∀ tag inner result, handler.apply tag inner = .ok result →
    ∀ i ∈ result, Machine.body? i = [] ∨ Fragment.Block inner (Machine.body? i)

namespace Handler
open Machine (body?)
open Fragment

/-- What such a handler makes of a tidy fragment is tidy inside. -/
theorem BuildsFromInner.tidyInside {handler : Handler} (h : handler.BuildsFromInner)
    {tag : Occurrence} {inner result : Fragment} (hinner : ∀ block, Block inner block → Tidy block)
    (happly : handler.apply tag inner = .ok result) : TidyInside result := by
  intro i hi block hblock
  rcases h tag inner result happly i hi with hnil | hbody
  · rw [hnil] at hblock
    exact eq_nil_of_block_nil hblock ▸ tidy_nil
  · exact hinner block (hbody.trans hblock)

end Handler

/-! ## What a source compiles to -/

namespace Program
open Fragment

/-- **Every block of what a source compiles to is tidy**, whatever the grammar, if its handlers take
the bodies of their instructions from the fragment that they are given. -/
theorem tidy_of_compile {registry : Registry}
    (hhandlers : ∀ entry ∈ registry.handlers, entry.2.BuildsFromInner) {source : Text}
    {fragment : Fragment} (h : compile registry source = .ok fragment) :
    ∀ block, Block fragment block → Tidy block := by
  obtain ⟨document, results, -, hresults, hjoin⟩ := exists_of_compile h
  have htidy : ∀ f ∈ results, TidyInside f := by
    refine forall_of_applyAll tidyInside_literal ?_ document.holds_of_mem_children hresults
    intro _ _ _ _ _ _ _ _ _ hall hjoin hhandler happly
    obtain ⟨entry, hentry, rfl⟩ := mem_handlers_of_handlerFor? hhandler
    exact (hhandlers entry hentry).tidyInside (tidy_of_joinAll hall hjoin) happly
  exact tidy_of_joinAll htidy hjoin

end Program
end Stencil
