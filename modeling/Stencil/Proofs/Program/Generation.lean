import Stencil.Program.Generation
import Stencil.Proofs.Document.Folding
import Stencil.Proofs.Document.Preservation
import Stencil.Proofs.Program.Joining

/-! # Generating fragments

What a source compiles to is joined from what its nodes give, and what a tag gives is made by its
handler of what is joined inside.  So what holds of the literals of texts, and of what handlers make
where it holds of what is inside, holds of everything that is joined in the end
(`Program.exists_of_compile`, `Program.forall_of_applyAll`).  Joining itself adds nothing but
literals (`Program.mem_of_joinAll`), and fails at an instruction of one of the fragments
(`Program.exists_of_joinAll_eq_error`).

A document that does not become a fragment fails at one of its tags
(`Document.exists_tag_of_applyAll`): where what is inside cannot be joined, or where the tag has no
handler, or by its handler (`Program.exists_tag_of_generate`).
-/

namespace Stencil

/-- The position of an instruction, if it has one. -/
def Instruction.position? : Instruction → Option Position
  | .literal _ => none
  | .expression _ _ position => position
  | .branch _ _ _ position => position
  | .elseBranch _ _ _ position => position
  | .otherwise _ position => position
  | .loop _ _ _ _ _ position => position
  | .call _ _ _ position => position
  | .unknown => none

namespace Document

mutual

/-- A node that fails has a tag in it at which it fails. -/
theorem exists_tag_of_apply {ε β : Type} {rule : Rule ε β} {document : Document} {fault : ε}
    (htext : ∀ t position, ∃ result, rule.text t position = .ok result) : ∀ n : Node,
    document.Holds n → rule.apply n = .error fault →
    ∃ id head closing children results, document.Holds (.tag id head closing children) ∧
      rule.applyAll children = .ok results ∧ rule.tag head closing results = .error fault
  | .text id t position attached, hn, h => by
    obtain ⟨result, hresult⟩ := htext t position
    rw [Rule.apply, hresult] at h
    cases h
  | .tag id head closing children, hn, h => by
    rw [Rule.apply] at h
    cases hall : rule.applyAll children with
    | ok results =>
      simp only [hall] at h
      exact ⟨id, head, closing, children, results, hn, hall, h⟩
    | error inner =>
      simp only [hall, Except.error.injEq] at h
      subst h
      exact exists_tag_of_applyAll htext children hn.inside hall

/-- **A row of nodes that fails has a tag in it at which it fails.** -/
theorem exists_tag_of_applyAll {ε β : Type} {rule : Rule ε β} {document : Document} {fault : ε}
    (htext : ∀ t position, ∃ result, rule.text t position = .ok result) : ∀ nodes : List Node,
    (∀ n ∈ nodes, document.Holds n) → rule.applyAll nodes = .error fault →
    ∃ id head closing children results, document.Holds (.tag id head closing children) ∧
      rule.applyAll children = .ok results ∧ rule.tag head closing results = .error fault
  | [], _, h => by cases h
  | n :: rest, hnodes, h => by
    obtain ⟨hn, hrest⟩ := List.forall_mem_cons.mp hnodes
    rw [Rule.applyAll] at h
    split at h
    · cases hresult : rule.apply n with
      | error first =>
        simp only [hresult, Except.error.injEq] at h
        exact exists_tag_of_apply htext n hn (h ▸ hresult)
      | ok result =>
        cases hmore : rule.applyAll rest with
        | ok results => simp [hresult, hmore] at h
        | error later =>
          simp only [hresult, hmore, Except.error.injEq] at h
          exact exists_tag_of_applyAll htext rest hrest (h ▸ hmore)
    · exact exists_tag_of_applyAll htext rest hrest h

end

end Document

namespace Fragment

theorem mem_glue {t : Text} {f : Fragment} {i : Instruction} (hi : i ∈ glue t f) :
    isLiteral i = true ∨ i ∈ f := by
  cases f with
  | nil =>
    cases t with
    | nil => exact absurd hi List.not_mem_nil
    | cons c t =>
      obtain rfl := List.mem_singleton.mp hi
      exact Or.inl rfl
  | cons first rest =>
    by_cases hfirst : isLiteral first = true
    · obtain ⟨u, rfl⟩ := eq_literal_of_isLiteral hfirst
      rw [glue_literal] at hi
      rcases List.mem_cons.mp hi with rfl | hi
      · exact Or.inl rfl
      · exact Or.inr (List.mem_cons_of_mem _ hi)
    · rw [glue_cons (by simpa using hfirst)] at hi
      split at hi
      · exact Or.inr hi
      · rcases List.mem_cons.mp hi with rfl | hi
        · exact Or.inl rfl
        · exact Or.inr hi

/-- Merging adds nothing but literals. -/
theorem mem_merge {f : Fragment} {i : Instruction} (hi : i ∈ merge f) :
    isLiteral i = true ∨ i ∈ f := by
  induction f with
  | nil => exact absurd hi List.not_mem_nil
  | cons first rest ih =>
    by_cases hfirst : isLiteral first = true
    · obtain ⟨t, rfl⟩ := eq_literal_of_isLiteral hfirst
      rw [merge_literal] at hi
      exact (mem_glue hi).elim Or.inl fun hrest => (ih hrest).imp_right (List.mem_cons_of_mem _)
    · rw [merge_cons (by simpa using hfirst)] at hi
      rcases List.mem_cons.mp hi with rfl | hrest
      · exact Or.inr List.mem_cons_self
      · exact (ih hrest).imp_right (List.mem_cons_of_mem _)

theorem not_isLiteral_of_isSuccessor {i : Instruction} (h : isSuccessor i = true) :
    isLiteral i ≠ true := by
  cases i with
  | elseBranch | otherwise => exact Bool.false_ne_true
  | _ => cases h

/-- A chain is broken by a member of it, which has the position of the fault. -/
theorem exists_of_brokenAfter? {previous : Option Instruction} {f : Fragment}
    {fault : BrokenChain} (h : brokenAfter? previous f = some fault) :
    ∃ i ∈ f, isSuccessor i = true ∧ i.position? = fault.position := by
  induction f generalizing previous with
  | nil => cases h
  | cons i rest ih =>
    have hlater : brokenAfter? (some i) rest = some fault →
        ∃ j ∈ i :: rest, isSuccessor j = true ∧ j.position? = fault.position := by
      intro hrest
      obtain ⟨j, hj, hfound⟩ := ih hrest
      exact ⟨j, List.mem_cons_of_mem i hj, hfound⟩
    cases i with
    | elseBranch | otherwise =>
      rw [brokenAfter?] at h
      split at h
      · exact hlater h
      · obtain rfl := Option.some.inj h
        exact ⟨_, List.mem_cons_self, rfl, rfl⟩
    | _ => exact hlater h

end Fragment

namespace Program
open Fragment

theorem joinChecked_of_joinAll {fragments : List Fragment} {inner : Fragment}
    (h : joinAll fragments = .ok inner) : joinChecked fragments = .ok inner := by
  rw [joinAll] at h
  cases hjoin : joinChecked fragments with
  | error fault => simp [hjoin, Except.mapError] at h
  | ok joined => simpa [hjoin, Except.mapError] using h

/-- An instruction of a joined fragment is a literal, or one of the fragments that were joined. -/
theorem mem_of_joinAll {fragments : List Fragment} {inner : Fragment}
    (h : joinAll fragments = .ok inner) {i : Instruction} (hi : i ∈ inner) :
    isLiteral i = true ∨ ∃ f ∈ fragments, i ∈ f := by
  obtain ⟨rfl, -⟩ := joinChecked_eq_ok (joinChecked_of_joinAll h)
  exact (mem_merge hi).imp_right List.mem_flatten.mp

/-- **Where fragments cannot be joined**, a member of a chain in one of them has the position of the
fault. -/
theorem exists_of_joinAll_eq_error {fragments : List Fragment} {fault : CompileFault}
    (h : joinAll fragments = .error fault) :
    ∃ broken, fault = .brokenChain broken ∧ ∃ f ∈ fragments, ∃ i ∈ f,
      isSuccessor i = true ∧ i.position? = broken.position := by
  rw [joinAll, joinChecked] at h
  cases hbroken : broken? (join fragments) with
  | none => simp [hbroken, Except.mapError] at h
  | some broken =>
    simp only [hbroken, Except.mapError, Except.error.injEq] at h
    obtain ⟨i, hi, hsuccessor, hposition⟩ := exists_of_brokenAfter? hbroken
    have hliteral : isLiteral i ≠ true := not_isLiteral_of_isSuccessor hsuccessor
    obtain ⟨f, hf, hif⟩ := List.mem_flatten.mp ((mem_merge hi).resolve_left hliteral)
    exact ⟨broken, h.symm, f, hf, i, hif, hsuccessor, hposition⟩

/-- A tag that gives a fragment has a handler, which makes it of what is joined inside. -/
theorem exists_handler_of_rule {registry : Registry} {segments : List Segment} {head : TagHead}
    {closing : Option Nat} {results : List Fragment} {f : Fragment}
    (h : (rule registry segments).tag head closing results = .ok f) :
    ∃ inner handler, joinAll results = .ok inner ∧
      registry.handlerFor? head.family head.name = some handler ∧
      handler.apply ⟨head, Document.enclosed segments head closing⟩ inner = .ok f := by
  rw [rule] at h
  cases hjoin : joinAll results with
  | error fault => simp [hjoin] at h
  | ok inner =>
    simp only [hjoin, ofTag] at h
    split at h
    · rename_i handler hhandler
      exact ⟨inner, handler, rfl, hhandler, h⟩
    · cases h

/-- The handler of a tag is one of the registry. -/
theorem mem_handlers_of_handlerFor? {registry : Registry} {family : Value} {name : Option Text}
    {handler : Handler} (h : registry.handlerFor? family name = some handler) :
    ∃ entry ∈ registry.handlers, entry.2 = handler := by
  obtain ⟨entry, hfound, rfl⟩ := Option.map_eq_some_iff.mp h
  exact ⟨entry, List.mem_of_find?_eq_some hfound, rfl⟩

/-- **What the nodes of a document give** has a property if the literals of texts have it, and what a
handler makes of a tag of the document where the fragments that are joined inside have it. -/
theorem forall_of_applyAll {registry : Registry} {document : Document} {P : Fragment → Prop}
    (text : ∀ t, P [.literal t])
    (tag : ∀ {id head closing children results inner handler f},
      document.Holds (.tag id head closing children) → (∀ r ∈ results, P r) →
      joinAll results = .ok inner → registry.handlerFor? head.family head.name = some handler →
      handler.apply ⟨head, Document.enclosed document.segments head closing⟩ inner = .ok f → P f)
    {nodes : List Node} {results : List Fragment} (hnodes : ∀ n ∈ nodes, document.Holds n)
    (h : (rule registry document.segments).applyAll nodes = .ok results) : ∀ r ∈ results, P r := by
  refine Rule.applyAll_induction _ document.Holds ?_ ?_ ?_ hnodes h
  · exact fun hholds => hholds.inside
  · intro t position result htext
    exact Except.ok.inj htext ▸ text t
  · intro id head closing children results result hholds hall htag
    obtain ⟨inner, handler, hjoin, hhandler, happly⟩ := exists_handler_of_rule htag
    exact tag hholds hall hjoin hhandler happly

/-- The fragment of a document by recursion: what its nodes give, joined. -/
theorem generate_eq (registry : Registry) (document : Document) :
    generate registry document =
      match (rule registry document.segments).applyAll document.children with
      | .ok fragments => joinAll fragments
      | .error fault => .error fault := by
  have hrun : (rule registry document.segments).run document.roots =
      (rule registry document.segments).applyAll document.children := Rule.run_filter _ _
  cases hall : (rule registry document.segments).applyAll document.children with
  | ok fragments => simp only [generate, hrun, hall]
  | error fault => simp only [generate, hrun, hall]

/-- **A document that becomes no fragment**, though no chain is broken, fails at one of its tags. -/
theorem exists_tag_of_generate {registry : Registry} {document : Document} {fault : CompileFault}
    (h : generate registry document = .error fault)
    (hchain : ∀ broken, fault ≠ .brokenChain broken) :
    ∃ id head closing children inner, document.Holds (.tag id head closing children) ∧
      ofTag registry ⟨head, Document.enclosed document.segments head closing⟩ inner =
        .error fault := by
  have hjoinable : ∀ fragments, joinAll fragments ≠ .error fault := fun fragments hjoin => by
    obtain ⟨broken, hbroken, -⟩ := exists_of_joinAll_eq_error hjoin
    exact hchain broken hbroken
  rw [generate_eq] at h
  cases hall : (rule registry document.segments).applyAll document.children with
  | ok fragments =>
    simp only [hall] at h
    exact absurd h (hjoinable fragments)
  | error tagFault =>
    simp only [hall, Except.error.injEq] at h
    subst h
    obtain ⟨id, head, closing, children, results, hholds, -, htag⟩ :=
      Document.exists_tag_of_applyAll (fun t _ => ⟨[.literal t], rfl⟩) _
        document.holds_of_mem_children hall
    simp only [rule] at htag
    cases hjoin : joinAll results with
    | error joinFault =>
      simp only [hjoin, Except.error.injEq] at htag
      exact absurd (htag ▸ hjoin) (hjoinable results)
    | ok inner =>
      simp only [hjoin] at htag
      exact ⟨id, head, closing, children, inner, hholds, htag⟩

/-- A source that compiles is parsed, and what its nodes give is joined. -/
theorem exists_of_compile {registry : Registry} {source : Text} {fragment : Fragment}
    (h : compile registry source = .ok fragment) :
    ∃ document results, parse registry source = .ok document ∧
      (rule registry document.segments).applyAll document.children = .ok results ∧
      joinAll results = .ok fragment := by
  rw [compile] at h
  cases hparse : parse registry source with
  | error fault => simp [hparse] at h
  | ok document =>
    simp only [hparse, generate_eq] at h
    cases hresults : (rule registry document.segments).applyAll document.children with
    | error fault => simp [hresults] at h
    | ok results => exact ⟨document, results, rfl, hresults, by simpa only [hresults] using h⟩

end Program
end Stencil
