import Mathlib
import Stencil.Proofs.Execution.Refinement
import Stencil.Proofs.Source.Tokenization
import Stencil.Proofs.Standard.Compilation

/-! # Filling a compiled template is filling its document

A fragment runs with a flag for the chain under way; a document is filled chain by chain.  A row of
nodes and the fragment that it compiles to agree (`Agrees`) if they write the same in each of three
situations: outside any chain; after a member of a chain that was taken, when the nodes go on after
the chain; and after members none of which was taken, when the rest of the chain comes first.  A
node in front of a row keeps this, by its role (`Compiles.agrees_cons`), and so a row agrees with
what it compiles to (`CompilesAll.agrees`), bodies included.
-/

namespace Stencil
namespace Standard
open Semantics Fragment

section

variable [Host]

/-- A row of nodes and a fragment write the same. -/
structure Agrees (nodes : List Node) (f : Fragment) : Prop where
  /-- No chain is under way. -/
  fresh : broken? f = none → ∀ scope c store, run scope c store f = fillAll scope store nodes
  /-- A member of the chain under way was taken. -/
  taken : ∀ {p : Option Instruction}, brokenAfter? p f = none → ∀ scope store,
    run scope (some true) store f = fillAll scope store (chain nodes).2
  /-- No member of the chain under way was taken. -/
  pending : ∀ {p : Option Instruction}, brokenAfter? p f = none → ∀ scope store,
    run scope (some false) store f =
      followedBy (fillFirst scope store (chain nodes).1)
        (fun store => fillAll scope store (chain nodes).2)

theorem fillAll_nil (scope : Scope) (store : Store) : fillAll scope store [] = .ok ([], store) := by
  rw [fillAll]

theorem fillFirst_nil (scope : Scope) (store : Store) :
    fillFirst scope store [] = .ok ([], store) := by
  rw [fillFirst]

theorem agrees_nil : Agrees [] [] where
  fresh _ scope c store := by rw [fillAll_nil, run]
  taken _ scope store := by rw [chain, fillAll_nil, run]
  pending _ scope store := by rw [chain, fillFirst_nil, followedBy_nil, fillAll_nil, run]

/-- A row that continues no chain agrees with a fragment that does not feel the chain before it. -/
theorem agrees_of_fresh {nodes : List Node} {i : Instruction} {f : Fragment}
    (hchain : chain nodes = ([], nodes))
    (h : brokenAfter? (some i) f = none → ∀ scope c store,
      run scope c store (i :: f) = fillAll scope store nodes) : Agrees nodes (i :: f) where
  fresh hf := h ((brokenAfter?_cons none i f).mp hf).2
  taken hf scope store := by
    rw [hchain]
    exact h ((brokenAfter?_cons _ i f).mp hf).2 scope _ store
  pending hf scope store := by
    rw [hchain, fillFirst_nil, followedBy_nil]
    exact h ((brokenAfter?_cons _ i f).mp hf).2 scope _ store

variable {n : Node} {rest : List Node} {f : Fragment}

/-- A silent node may stand anywhere. -/
theorem agrees_silent (hrole : role n = .silent) (h : Agrees rest f) : Agrees (n :: rest) f := by
  have hchain : chain (n :: rest) = chain rest := by rw [chain, hrole]
  refine ⟨fun hf scope c store => ?_, ?_, ?_⟩
  · rw [fillAll, hrole, h.fresh hf]
    simp only [fillNode, hrole, followedBy_nil]
  · rw [hchain]
    exact h.taken
  · rw [hchain]
    exact h.pending

/-- An instruction that runs as a node is filled, outside all chains, may stand in front. -/
theorem agrees_single {i : Instruction} (hcontinues : continues (some i) = false)
    (hchain : chain (n :: rest) = ([], n :: rest))
    (hfill : ∀ scope store, fillAll scope store (n :: rest) =
      followedBy (fillNode scope store n) (fun store => fillAll scope store rest))
    (hrun : ∀ scope c store, runOne scope c store i =
      (fillNode scope store n).map fun r => ((r.1, none), r.2))
    (h : Agrees rest f) : Agrees (n :: rest) (i :: f) := by
  refine agrees_of_fresh hchain fun hf scope c store => ?_
  have hwhole : broken? f = none :=
    (brokenAfter?_congr (show continues none = continues (some i) from hcontinues.symm) f).trans hf
  rw [run_cons, hrun, hfill]
  cases fillNode scope store n with
  | error fault => rfl
  | ok r => simp only [Except.map, h.fresh hwhole]

/-- A body that was joined is filled as the nodes that it was joined from. -/
theorem run_body {nodes : List Node} {body : Fragment} (hwhole : broken? body = none)
    (h : Agrees nodes body) (scope : Scope) (store : Store) :
    run scope none store (merge body) = fillAll scope store nodes := by
  rw [run_merge scope none store (p := none) hwhole, h.fresh hwhole]

/-- A text is written as it is. -/
theorem agrees_text {t : Text} (hrole : role n = .text t) (h : Agrees rest f) :
    Agrees (n :: rest) (.literal t :: f) := by
  refine agrees_single rfl (by rw [chain, hrole]) (fun _ _ => by rw [fillAll, hrole])
    (fun scope c store => ?_) h
  rw [fillNode, hrole]
  rfl

/-- An output writes the value of its expression. -/
theorem agrees_output {e : Expression} {position : Position} (source : Text)
    (hrole : role n = .output e position) (h : Agrees rest f) :
    Agrees (n :: rest) (.expression e source (some position) :: f) := by
  refine agrees_single rfl (by rw [chain, hrole]) (fun _ _ => by rw [fillAll, hrole])
    (fun scope c store => ?_) h
  rw [fillNode, hrole, runOne]
  cases hv : scope.evaluateAt e (some position) with
  | error fault => simp only [hv, Except.map]
  | ok v => cases ht : RunFault.written scope.room v <;> simp only [hv, ht, Except.map]

/-- A loop fills what is inside it for every pair. -/
theorem agrees_loop {target : Text} {collection : Expression} {mode : LoopMode}
    {position : Position} {body : Fragment} (source : Text)
    (hrole : role n = .loop target collection mode position) (hwhole : broken? body = none)
    (hbody : Agrees n.children body) (h : Agrees rest f) :
    Agrees (n :: rest) (.loop target collection (merge body) mode source (some position) :: f) := by
  refine agrees_single rfl (by rw [chain, hrole]) (fun _ _ => by rw [fillAll, hrole])
    (fun scope c store => ?_) h
  rw [fillNode, hrole, runOne]
  simp only [run_body hwhole hbody]
  cases hv : scope.evaluateAt collection (some position) with
  | error fault => rfl
  | ok v =>
    cases hpairs : Pairs.of mode collection (some position) v with
    | error fault => simp only [hpairs, Except.map]
    | ok pairs =>
      simp only [hpairs]
      generalize iterate target _ pairs.bound pairs store = outcome
      cases outcome <;> rfl

/-- A conditional stands for the chain that it starts. -/
theorem agrees_opening {condition : Expression} {position : Position} {body : Fragment}
    (source : Text) (hrole : role n = .opening condition position) (hwhole : broken? body = none)
    (hbody : Agrees n.children body) (h : Agrees rest f) :
    Agrees (n :: rest) (.branch condition (merge body) source (some position) :: f) := by
  refine agrees_of_fresh (by rw [chain, hrole]) fun hf scope c store => ?_
  rw [run_cons, runOne, fillAll, hrole]
  simp only [fillFirst, hrole]
  cases scope.evaluateAt condition (some position) with
  | error fault => rfl
  | ok v =>
    -- the flag tells the rest of the chain whether to be skipped or to go on
    by_cases hv : v.truthy = true
    · simp only [if_pos hv, run_body hwhole hbody]
      cases fillAll scope store n.children with
      | error fault => rfl
      | ok r => simp only [h.taken hf]
    · simp only [if_neg hv, h.pending hf, followedBy_nil]

/-- An alternative is the first member of what is left of a chain. -/
theorem agrees_alternative {condition : Expression} {position : Position} {body : Fragment}
    (source : Text) (hrole : role n = .alternative condition position)
    (hwhole : broken? body = none) (hbody : Agrees n.children body) (h : Agrees rest f) :
    Agrees (n :: rest) (.elseBranch condition (merge body) source (some position) :: f) := by
  have hchain : chain (n :: rest) = (n :: (chain rest).1, (chain rest).2) := by rw [chain, hrole]
  refine ⟨fun hf => ?_, fun hf scope store => ?_, fun hf scope store => ?_⟩
  · -- outside a chain there is no such member
    exact absurd (((brokenAfter?_cons none _ f).mp hf).1 rfl) Bool.false_ne_true
  · rw [run_cons, runOne, if_pos rfl, hchain]
    simp only [followedBy_nil, h.taken ((brokenAfter?_cons _ _ f).mp hf).2]
  · have hf := ((brokenAfter?_cons _ _ f).mp hf).2
    rw [run_cons, runOne, if_neg (by decide), hchain]
    simp only [fillFirst, hrole]
    cases scope.evaluateAt condition (some position) with
    | error fault => rfl
    | ok v =>
      by_cases hv : v.truthy = true
      · simp only [if_pos hv, run_body hwhole hbody]
        cases fillAll scope store n.children with
        | error fault => rfl
        | ok r => simp only [h.taken hf]
      · simp only [if_neg hv, h.pending hf, followedBy_nil]

/-- The member without condition is all that is left of a chain. -/
theorem agrees_otherwise {position : Option Position} {body : Fragment}
    (hrole : role n = .otherwise) (hwhole : broken? body = none) (hbody : Agrees n.children body)
    (h : Agrees rest f) : Agrees (n :: rest) (.otherwise (merge body) position :: f) := by
  have hchain : chain (n :: rest) = ([n], rest) := by rw [chain, hrole]
  -- nothing of the chain comes after this member
  have hend : ∀ {p : Option Instruction},
      brokenAfter? p (.otherwise (merge body) position :: f) = none → broken? f = none := by
    intro p hf
    have hends : continues none = continues (some (.otherwise (merge body) position)) := rfl
    rw [broken?, brokenAfter?_congr hends]
    exact ((brokenAfter?_cons p _ f).mp hf).2
  refine ⟨fun hf => ?_, fun hf scope store => ?_, fun hf scope store => ?_⟩
  · exact absurd (((brokenAfter?_cons none _ f).mp hf).1 rfl) Bool.false_ne_true
  · rw [run_cons, runOne, if_pos rfl, hchain]
    simp only [followedBy_nil, h.fresh (hend hf)]
  · rw [run_cons, runOne, if_neg (by decide), hchain]
    simp only [fillFirst, hrole, run_body hwhole hbody]
    cases fillAll scope store n.children with
    | error fault => rfl
    | ok r => simp only [h.fresh (hend hf)]

mutual

/-- **A node in front of a row agrees with its fragment in front of that of the row.** -/
theorem Compiles.agrees_cons : ∀ {n : Node} {i : Fragment}, Compiles n i →
    ∀ {rest : List Node} {f : Fragment}, Agrees rest f → Agrees (n :: rest) (i ++ f)
  | _, _, .silent hrole, _, _, h => agrees_silent hrole h
  | _, _, .text hrole _, _, _, h => agrees_text hrole h
  | _, _, .output source hrole, _, _, h => agrees_output source hrole h
  | _, _, .opening source hrole hbody hwhole, _, _, h =>
    agrees_opening source hrole hwhole hbody.agrees h
  | _, _, .alternative source hrole hbody hwhole, _, _, h =>
    agrees_alternative source hrole hwhole hbody.agrees h
  | _, _, .otherwise _ hrole hbody hwhole, _, _, h =>
    agrees_otherwise hrole hwhole hbody.agrees h
  | _, _, .loop source hrole hbody hwhole, _, _, h =>
    agrees_loop source hrole hwhole hbody.agrees h

/-- **A row of nodes agrees with what it compiles to.** -/
theorem CompilesAll.agrees : ∀ {nodes : List Node} {f : Fragment}, CompilesAll nodes f →
    Agrees nodes f
  | _, _, .nil => agrees_nil
  | _, _, .cons hnode hrest => hnode.agrees_cons hrest.agrees

end

/-! ## Templates -/

omit [Host] in
/-- The pieces of a template are not empty. -/
theorem raw_ne_nil_of_cut {families : List Family} {source : Text} {segments : List Segment}
    (h : Segment.cut families source = .ok segments) : ∀ s ∈ segments, s.raw ≠ [] := by
  have hlaid := Segment.describes_cut families source
  rw [h] at hlaid
  exact Segment.Laid.raw_ne_nil hlaid.2

/-- What it takes to compile a template. -/
theorem compile_eq_ok_iff {source : Text} {fragment : Fragment} :
    Program.compile registry source = .ok fragment ↔
      ∃ segments document results, Segment.cut families source = .ok segments ∧
        Document.ofSegments families segments = .ok document ∧
        (Program.rule registry document.segments).applyAll document.children = .ok results ∧
        Program.joinAll results = .ok fragment := by
  rw [Program.compile, Program.parse, registry_ordered]
  cases hcut : Segment.cut families source with
  | error fault => simp
  | ok segments =>
    cases hbuild : Document.ofSegments families segments with
    | error fault => simp [hbuild, Except.mapError]
    | ok document =>
      simp only [hbuild, Except.mapError, Program.generate, Document.roots, Rule.run_filter]
      cases hresults : (Program.rule registry document.segments).applyAll document.children with
      | error fault => simp [hbuild, hresults]
      | ok results => simp [hbuild, hresults]

/-- The fragment of a template is merged from what the nodes of its document compile to. -/
theorem compilesAll_of_template {source : Text} {segments : List Segment}
    {document : Document} {results : List Fragment} {fragment : Fragment}
    (hcut : Segment.cut families source = .ok segments)
    (hbuild : Document.ofSegments families segments = .ok document)
    (hresults : (Program.rule registry document.segments).applyAll document.children = .ok results)
    (hjoin : Program.joinAll results = .ok fragment) :
    CompilesAll document.roots results.flatten ∧ fragment = merge results.flatten ∧
      broken? results.flatten = none := by
  have hsound := Document.ofSegments_sound declaresVerbatim (raw_ne_nil_of_cut hcut) hbuild
  have hall := compilesAll_of_applyAll document.segments hsound hresults
  exact ⟨hall, joinAll_eq_ok hall.clean hjoin⟩

/-- **Filling a compiled template is filling its document.**  Whatever template of the standard
grammar compiles, and whatever the data, the machine that runs the compiled template gives the text
that the recursion over the document gives, or the fault that it meets first. -/
theorem render_compile {source : Text} {fragment : Fragment}
    (h : Program.compile registry source = .ok fragment) :
    ∃ document, Program.parse registry source = .ok document ∧
      ∀ data, Machine.render fragment data = fill document data := by
  obtain ⟨segments, document, results, hcut, hbuild, hresults, hjoin⟩ := compile_eq_ok_iff.mp h
  obtain ⟨hall, rfl, hwhole⟩ :=
    compilesAll_of_template hcut hbuild hresults hjoin
  refine ⟨document, ?_, fun data => ?_⟩
  · rw [Program.parse, registry_ordered, hcut]
    simp only [hbuild, Except.mapError]
  · rw [Machine.render_eq_semantics]
    cases hfill : fillAll (Scope.ofData data) [] document.roots <;>
      simp only [Semantics.render, run_body hwhole hall.agrees, fill, hfill]

end

attribute [local instance] Host.usual

/-- A chain with a comment between its members. -/
def sample : Text := Text.ofString "\x7bif $a\x7d+\x7b/if\x7d\x7b**\x7d\x7belse\x7d-\x7b/else\x7d"

/-- The sample compiles, and so filling it is filling its document. -/
theorem render_compile_sample :
    ∃ fragment document, Program.compile registry sample = .ok fragment ∧
      Program.parse registry sample = .ok document ∧
      ∀ data, Machine.render fragment data = fill document data := by
  have hok : (Program.compile registry sample).toBool = true := by cbv
  cases h : Program.compile registry sample with
  | error fault => simp [h, Except.toBool] at hok
  | ok fragment =>
    obtain ⟨document, hparse, hfill⟩ := render_compile h
    exact ⟨fragment, document, rfl, hparse, hfill⟩

end Standard
end Stencil
