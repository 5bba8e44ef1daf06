import Stencil.Proofs.Execution.Streams
import Stencil.Proofs.Standard.Correctness
import Stencil.Proofs.Standard.Relocation

/-! # Two templates put together

If two templates of the standard grammar compile, so does the one followed by the other, and it is
filled by filling the first and then the second (`render_append`).

The pieces of both templates, their nodes and their fragments follow each other (`cut_append`,
`ofSegments_seam`, `applyAll_behind`); where two texts meet, merging makes them one, whether they
were two literals or one.  The second template begins with no member of a chain that needs a
predecessor, so that it neither goes on with a chain of the first nor detaches its whitespace.  It
runs after the first, with what that has left of the streams, which is nothing else if the data hold
no stream (`CompilesAll.keepsStore`).
-/

namespace Stencil
namespace Standard
open Semantics Fragment

section

variable [Host]

mutual

/-- What a node compiles to touches no stream. -/
theorem Compiles.keepsStore (hhost : Host.StreamFree) : ∀ {n : Node} {f : Fragment}, Compiles n f →
    ∀ {rest : Fragment}, KeepsStore rest → KeepsStore (f ++ rest)
  | _, _, .silent _, _, h => h
  | _, _, .text _ _, _, h => keepsStore_cons (keepsStore_literal _) h
  | _, _, .output _ _, _, h => keepsStore_cons (keepsStore_expression _ _ _) h
  | _, _, .opening _ _ hbody hwhole, _, h =>
    keepsStore_cons (keepsStore_branch ((hbody.keepsStore hhost).merge hwhole) _ _ _) h
  | _, _, .alternative _ _ hbody hwhole, _, h =>
    keepsStore_cons (keepsStore_elseBranch ((hbody.keepsStore hhost).merge hwhole) _ _ _) h
  | _, _, .otherwise _ _ hbody hwhole, _, h =>
    keepsStore_cons (keepsStore_otherwise ((hbody.keepsStore hhost).merge hwhole) _) h
  | _, _, .loop _ _ hbody hwhole, _, h =>
    keepsStore_cons (keepsStore_loop hhost ((hbody.keepsStore hhost).merge hwhole) _ _ _ _ _) h

/-- **What a row of nodes compiles to touches no stream.** -/
theorem CompilesAll.keepsStore (hhost : Host.StreamFree) :
    ∀ {nodes : List Node} {f : Fragment}, CompilesAll nodes f → KeepsStore f
  | _, _, .nil => keepsStore_nil
  | _, _, .cons hnode hrest => hnode.keepsStore hhost (hrest.keepsStore hhost)

end

/-! ## Compiling -/

omit [Host] in
/-- Two literals in a row merge as one. -/
theorem merge_literal_literal (f g : Fragment) (t u : Text) :
    merge (f ++ .literal (t ++ u) :: g) = merge (f ++ .literal t :: .literal u :: g) := by
  rw [merge_append, merge_append f, merge_literal, merge_literal, merge_literal, glue_glue]

/-- The fragments of two documents, one behind the other, are those of the first and those of the
second moved, but for literals at the seam that are made one. -/
theorem applyAll_behind {σ : Shift} {a b c : List Node} (h : Document.Behind σ a b c)
    {segments segments' segments'' : List Segment} {ra rb : List Fragment}
    (ha : (Program.rule registry segments).applyAll a = .ok ra)
    (hb : (Program.rule registry segments').applyAll b = .ok rb) :
    ∃ rc, (Program.rule registry segments'').applyAll c = .ok rc ∧
      merge rc.flatten = merge (ra.flatten ++ moved σ.place rb.flatten) := by
  rw [Program.rule_congr unplaced segments segments''] at ha
  cases h with
  | apart a b =>
    have hshift := applyAll_shift σ segments'' hb
    refine ⟨ra ++ rb.map (moved σ.place), Rule.applyAll_append _ ha hshift, ?_⟩
    rw [List.flatten_append, flatten_map_moved]
  | melted front rest i j t u p q =>
    -- the texts at the seam are two literals on their own and one when they are made one
    obtain ⟨rf, rt, hrf, hrt, rfl⟩ := Rule.applyAll_append_eq_ok _ ha
    obtain rfl : [[.literal t]] = rt := Except.ok.inj hrt
    obtain ⟨ru, rr, hru, hrr, rfl⟩ := Rule.applyAll_cons_eq_ok _ rfl hb
    obtain rfl : [.literal u] = ru := Except.ok.inj hru
    have hshift := applyAll_shift σ segments'' hrr
    refine ⟨rf ++ [.literal (t ++ u)] :: rr.map (moved σ.place),
      Rule.applyAll_append _ hrf ?_, ?_⟩
    · rw [Rule.applyAll, hshift]
      rfl
    · rw [List.flatten_append, List.flatten_cons, List.flatten_append, List.flatten_cons,
        flatten_map_moved, List.append_assoc]
      exact merge_literal_literal _ _ t u

/-- **Two templates that compile compile together**, to the fragment of the first and that of the
second, moved behind it. -/
theorem compile_append {a b : Text} {fa fb : Fragment}
    (ha : Program.compile registry a = .ok fa) (hb : Program.compile registry b = .ok fb) :
    ∃ ga gb, fa = merge ga ∧ broken? ga = none ∧ (Host.StreamFree → KeepsStore ga) ∧
      fb = merge gb ∧ broken? gb = none ∧
      Program.compile registry (a ++ b) =
        .ok (merge (ga ++ moved (Position.start.advance a).beyond gb)) := by
  obtain ⟨sa, da, ra, hcuta, hbuilda, hresultsa, hjoina⟩ := compile_eq_ok_iff.mp ha
  obtain ⟨sb, db, rb, hcutb, hbuildb, hresultsb, hjoinb⟩ := compile_eq_ok_iff.mp hb
  obtain ⟨halla, rfl, hwholea⟩ := compilesAll_of_template hcuta hbuilda hresultsa hjoina
  obtain ⟨hallb, rfl, hwholeb⟩ := compilesAll_of_template hcutb hbuildb hresultsb hjoinb
  refine ⟨ra.flatten, rb.flatten, rfl, hwholea, fun hhost => halla.keepsStore hhost, rfl, hwholeb,
    ?_⟩
  -- the second template begins with no member of a chain that another one has begun
  have hfirst : ∀ head, db.children.findSome? Node.head? = some head →
      head.Attaches needsPredecessor := by
    intro head hhead
    refine attaches_of_compiles hallb rfl hwholeb head ?_
    rw [Document.roots, Node.findSome?_head?_filter]
    exact hhead
  obtain ⟨d, σ, hbuild, hplace, hbehind⟩ := Document.ofSegments_seam declaresIsolated hbuilda
    hbuildb hfirst (Position.start.advance a).beyond
  obtain ⟨results, hresults, hmerge⟩ := applyAll_behind hbehind hresultsa hresultsb
  refine compile_eq_ok_iff.mpr
    ⟨_, d, results, Segment.cut_append separable hcuta hcutb, hbuild, hresults, ?_⟩
  rw [hplace] at hmerge
  have hwhole : broken? (moved (Position.start.advance a).beyond rb.flatten) = none :=
    brokenAfter?_moved (p := none) _ hwholeb
  have hjoined := brokenAfter?_merge_eq_none (brokenAfter?_append hwholea hwhole)
  rw [Program.joinAll, joinChecked, join, hmerge, broken?, hjoined]
  rfl

/-! ## Filling -/

/-- A fragment that was joined is filled as what it was joined from. -/
theorem render_merge {g : Fragment} (hwhole : broken? g = none) (data : Value) :
    Machine.render (merge g) data = Semantics.render g data := by
  rw [Machine.render_eq_semantics, Semantics.render, Semantics.render,
    run_merge (Scope.ofData data) none [] (p := none) hwhole]

/-- A fragment and a moved one behind it are filled one after the other. -/
theorem render_merge_append {ga gb : Fragment} (ha : broken? ga = none) (hb : broken? gb = none)
    (hkeeps : KeepsStore ga) (place : Position → Position) {data : Value}
    (hdata : data.StreamFree) :
    Machine.render (merge (ga ++ moved place gb)) data =
      match Machine.render (merge ga) data with
      | .error fault => .error fault
      | .ok t =>
        match Machine.render (merge gb) data with
        | .error fault => .error (fault.moved place)
        | .ok u => .ok (t ++ u) := by
  have hb' : broken? (moved place gb) = none := brokenAfter?_moved (p := none) place hb
  rw [render_merge (brokenAfter?_append ha hb'), render_merge ha, render_merge hb,
    Semantics.render, Semantics.render, Semantics.render, run_append _ _ _ hb']
  cases hrun : run (Scope.ofData data) none [] ga with
  | error fault => rfl
  | ok r =>
    obtain ⟨t, store⟩ := r
    obtain rfl := hkeeps _ (Scope.streamFree_ofData hdata) none [] store t hrun
    simp only [followedBy, run_moved]
    cases run (Scope.ofData data) none [] gb with
    | error fault => simp only [Except.mapError, RunFault.atTop_moved]
    | ok r => rfl

/-- **Two templates put together are filled one after the other.**  If both templates compile, so
does the one followed by the other; and with data in which there is no stream, on a host that gives
out none, it gives the text of the first followed by the text of the second, or the fault of the
first, or if the first gives a text the fault of the second, where the second then stands. -/
theorem render_append {a b : Text} {fa fb : Fragment}
    (ha : Program.compile registry a = .ok fa) (hb : Program.compile registry b = .ok fb) :
    ∃ f, Program.compile registry (a ++ b) = .ok f ∧
      ∀ data : Value, Host.StreamFree → data.StreamFree →
        (∀ t u, Machine.render fa data = .ok t → Machine.render fb data = .ok u →
          Machine.render f data = .ok (t ++ u)) ∧
        (∀ fault, Machine.render fa data = .error fault →
          Machine.render f data = .error fault) ∧
        (∀ t fault, Machine.render fa data = .ok t → Machine.render fb data = .error fault →
          ∃ fault', Machine.render f data = .error fault' ∧ fault'.message = fault.message ∧
            fault' = fault.moved (Position.start.advance a).beyond) := by
  obtain ⟨ga, gb, rfl, hwholea, hkeeps, rfl, hwholeb, hcompile⟩ := compile_append ha hb
  refine ⟨_, hcompile, fun data hhost hdata => ?_⟩
  have hrender :=
    render_merge_append hwholea hwholeb (hkeeps hhost) (Position.start.advance a).beyond hdata
  refine ⟨fun t u ht hu => ?_, fun fault hfault => ?_, fun t fault ht hfault => ?_⟩
  · rw [hrender, ht, hu]
  · rw [hrender, hfault]
  · refine ⟨_, ?_, RunFault.message_moved _ fault, rfl⟩
    rw [hrender, ht, hfault]

end

attribute [local instance] Host.usual

/-- A template with the value of `x`. -/
def front : Text := Text.ofString "\x7b$x\x7d "

/-- A template with the value of `y` on its second line. -/
def back : Text := Text.ofString "\n\x7b$y\x7d"

/-- Without a value for `y` the two templates together fail where `y` stands behind the first. -/
theorem render_append_front_back :
    ∃ f, Program.compile registry (front ++ back) = .ok f ∧
      Machine.render f (.map [(word "x", word "1")]) =
        .error (.render (.expression (.undefinedName ['y']) (some ⟨6, 2, 1⟩))) := by
  have hfront : Program.compile registry front =
      .ok [.expression (.path ['x'] []) ['$', 'x'] (some ⟨0, 1, 1⟩), .literal [' ']] := by cbv
  have hback : Program.compile registry back =
      .ok [.literal ['\n'], .expression (.path ['y'] []) ['$', 'y'] (some ⟨1, 2, 1⟩)] := by cbv
  have hdata : (Value.map [(word "x", word "1")]).StreamFree := by
    refine .map (fun e he => ?_) (fun e he => ?_) <;>
      · rw [List.mem_singleton.mp he]
        exact .plain rfl
  obtain ⟨f, hf, hrender⟩ := render_append hfront hback
  have hhost : Host.LendsNothing := fun _ _ => rfl
  obtain ⟨-, -, hfail⟩ := hrender _ hhost.streamFree hdata
  obtain ⟨fault, hfault, -, rfl⟩ := hfail ['1', ' ']
    (.render (.expression (.undefinedName ['y']) (some ⟨1, 2, 1⟩)))
    (by rw [Machine.render_eq_semantics]; rfl) (by rw [Machine.render_eq_semantics]; rfl)
  exact ⟨f, hf, hfault⟩

end Standard
end Stencil
