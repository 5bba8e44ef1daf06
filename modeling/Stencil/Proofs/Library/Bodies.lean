import Stencil.Library.Extension
import Stencil.Proofs.Program.Shape
import Stencil.Proofs.Standard.Compilation

/-! # The bodies that handlers build

Every handler of the standard library, and of the further one, takes the bodies of its instructions
from the fragment that it is given (`buildsFromInner_of_mem`).  Most make one instruction, which has
that fragment as its body or has none; the others pass the fragment on, as it is, twice, or between
literals.
-/

namespace Stencil
open Machine (body?)
open Fragment

/-- A handler that makes one instruction, with the fragment that it is given as its body or without
one. -/
theorem buildsFromInner_of_single {name : Text}
    {apply : Occurrence → Fragment → Except CompileFault Fragment}
    (h : ∀ tag inner result, apply tag inner = .ok result →
      ∃ i, result = [i] ∧ (body? i = [] ∨ body? i = inner)) :
    Handler.BuildsFromInner ⟨name, apply⟩ := by
  intro tag inner result happly i hi
  obtain ⟨made, rfl, hbody⟩ := h tag inner result happly
  obtain rfl := List.mem_singleton.mp hi
  refine hbody.imp_right fun hinner => ?_
  rw [hinner]
  exact .whole

/-- A handler of which each instruction is one of the fragment that it is given, or has no body. -/
theorem buildsFromInner_of_passing {name : Text}
    {apply : Occurrence → Fragment → Except CompileFault Fragment}
    (h : ∀ tag inner result, apply tag inner = .ok result →
      ∀ i ∈ result, body? i = [] ∨ i ∈ inner) :
    Handler.BuildsFromInner ⟨name, apply⟩ :=
  fun tag inner result happly i hi => (h tag inner result happly i hi).imp_right (.body .whole)

namespace Standard

variable [Host]

theorem single_echo {tag : Occurrence} {inner result : Fragment} (h : echo tag inner = .ok result) :
    ∃ i, result = [i] ∧ (body? i = [] ∨ body? i = inner) := by
  obtain ⟨e, -, rfl⟩ := exists_of_map_eq_ok h
  exact ⟨_, rfl, Or.inl rfl⟩

theorem buildsFromInner_loop (name : Text) (mode : LoopMode) :
    Handler.BuildsFromInner ⟨name, loop mode⟩ := by
  refine buildsFromInner_of_single fun tag inner result h => ?_
  obtain ⟨target, e, source, -, -, rfl⟩ := loop_eq_ok h
  exact ⟨_, rfl, Or.inr rfl⟩

theorem buildsFromInner_of_mem_handlers {handler : Handler} (h : handler ∈ handlers) :
    handler.BuildsFromInner := by
  simp only [handlers, List.mem_cons, List.not_mem_nil, or_false] at h
  rcases h with rfl | rfl | rfl | rfl | rfl | rfl | rfl | rfl | rfl
  · exact buildsFromInner_of_single fun _ _ _ h => single_echo h
  · exact buildsFromInner_of_single fun _ _ _ h => single_echo (echo_of_output h)
  · refine buildsFromInner_of_passing fun tag inner result h i hi => ?_
    obtain rfl := Except.ok.inj h
    exact absurd hi List.not_mem_nil
  · refine buildsFromInner_of_single fun tag inner result h => ?_
    obtain ⟨e, -, rfl⟩ := exists_of_map_eq_ok h
    exact ⟨_, rfl, Or.inr rfl⟩
  · refine buildsFromInner_of_single fun tag inner result h => ?_
    obtain ⟨e, -, rfl⟩ := exists_of_map_eq_ok h
    exact ⟨_, rfl, Or.inr rfl⟩
  · exact buildsFromInner_of_single fun _ _ _ h => ⟨_, (Except.ok.inj h).symm, Or.inr rfl⟩
  · exact buildsFromInner_loop _ .each
  · exact buildsFromInner_loop _ .index
  · exact buildsFromInner_of_passing fun _ _ _ h i hi => Or.inr (Except.ok.inj h ▸ hi)

end Standard

namespace Extension

theorem buildsFromInner_call (name : String) (routine : CallContext → Routine) :
    (named name (call routine)).BuildsFromInner :=
  buildsFromInner_of_single fun _ _ _ h => ⟨_, (Except.ok.inj h).symm, Or.inr rfl⟩

/-- A handler that makes one instruction without a body, whatever it is given. -/
theorem buildsFromInner_of_bare (name : String)
    {apply : Occurrence → Fragment → Except CompileFault Fragment}
    (h : ∀ tag inner, ∃ i, apply tag inner = .ok [i] ∧ body? i = []) :
    (named name apply).BuildsFromInner := by
  refine buildsFromInner_of_single fun tag inner result happly => ?_
  obtain ⟨i, hi, hbody⟩ := h tag inner
  rw [hi] at happly
  exact ⟨i, (Except.ok.inj happly).symm, Or.inl hbody⟩

variable [Host]

theorem buildsFromInner_of_mem_handlers {handler : Handler} (h : handler ∈ handlers) :
    handler.BuildsFromInner := by
  simp only [handlers, List.mem_cons, List.not_mem_nil, or_false] at h
  rcases h with rfl | rfl | rfl | rfl | rfl | rfl | rfl | rfl | rfl | rfl | rfl | rfl | rfl | rfl |
    rfl | rfl | rfl
  · exact buildsFromInner_call _ _
  · exact buildsFromInner_call _ _
  · exact buildsFromInner_call _ _
  · exact buildsFromInner_of_bare _ fun _ _ => ⟨_, rfl, rfl⟩
  · exact buildsFromInner_call _ _
  · exact buildsFromInner_call _ _
  · exact buildsFromInner_call _ _
  · exact buildsFromInner_call _ _
  · exact buildsFromInner_call _ _
  · exact buildsFromInner_call _ _
  · exact buildsFromInner_call _ _
  · refine buildsFromInner_of_passing fun tag inner result h i hi => Or.inr ?_
    obtain rfl := Except.ok.inj h
    exact (List.mem_append.mp hi).elim id id
  · refine buildsFromInner_of_passing fun tag inner result h i hi => ?_
    obtain rfl := Except.ok.inj h
    simp only [List.mem_cons, List.mem_append, List.not_mem_nil, or_false] at hi
    rcases hi with rfl | rfl | hi | rfl
    · exact Or.inl rfl
    · exact Or.inl rfl
    · exact Or.inr hi
    · exact Or.inl rfl
  · exact buildsFromInner_of_bare _ fun _ _ => ⟨_, rfl, rfl⟩
  · exact buildsFromInner_of_bare _ fun _ _ => ⟨_, rfl, rfl⟩
  · refine buildsFromInner_of_single fun tag inner result h => ?_
    rw [unlessHolds] at h
    split at h
    · exact ⟨_, (Except.ok.inj h).symm, Or.inr rfl⟩
    · cases h
  · exact buildsFromInner_of_bare _ fun _ _ => ⟨_, rfl, rfl⟩

end Extension

variable [Host]

/-- **The handlers of both libraries** take the bodies of their instructions from the fragment that
they are given. -/
theorem buildsFromInner_of_mem {entry : Text × Handler} (h : entry ∈ Extension.catalogue) :
    entry.2.BuildsFromInner := by
  obtain ⟨handler, hhandler, rfl⟩ := List.mem_map.mp h
  rcases List.mem_append.mp hhandler with hstandard | hfurther
  · exact Standard.buildsFromInner_of_mem_handlers hstandard
  · exact Extension.buildsFromInner_of_mem_handlers hfurther

end Stencil
