import Stencil.Engine
import Stencil.Proofs.Program.Preparing
import Stencil.Proofs.Text.Digests

/-! # What an engine keeps

Name and digest are told from what a template is kept under, whatever the name is
(`Engine.cacheKey_inj`): the digest takes the last forty places.  So an engine that has kept only
what its compiler has made of some texts, under their names and digests and with a number of its own
for each (`Engine.Coherent`), finds for a text what its compiler would make of it, unless SHA-1
collides on two of the texts.

`Compiling` says once all that compiling does to an engine: what is kept is found, what is refused
is not kept, and what is new is kept under a new number.
-/

namespace Stencil

/-- Texts with one digest are the same, if SHA-1 does not collide on their bytes. -/
theorem Sha1.Separates.eq_of_digest_eq {sources : List Text} (h : Separates sources)
    {source source' : Text} (hmem : source ∈ sources) (hmem' : source' ∈ sources)
    (hdigest : Engine.digest source = Engine.digest source') : source = source' :=
  Utf8.encode_inj (h source hmem source' hmem' (State.hexadecimal_inj hdigest))

namespace Engine

/-- **Name and digest are told from what a template is kept under.** -/
theorem cacheKey_inj {name name' source source' : Text}
    (h : cacheKey name source = cacheKey name' source') :
    name = name' ∧ digest source = digest source' := by
  have hlength : (':' :: digest source).length = (':' :: digest source').length := by
    simp only [List.length_cons, digest, Sha1.length_hexadecimal]
  obtain ⟨hname, hdigest⟩ := List.append_inj' h hlength
  exact ⟨hname, (List.cons.inj hdigest).2⟩

/-- All that compiling can do to an engine. -/
inductive Compiling (registry : Registry) (engine : Engine) (name source : Text) :
    Except CompileFault Template × Engine → Prop
  /-- The template has been kept. -/
  | found {template : Template}
      (hlookup : engine.cache.lookup (cacheKey name source) = some template) :
      Compiling registry engine name source (.ok template, engine)
  /-- The text is refused, after names have been prepared. -/
  | refused {fault : CompileFault} {compiler : Compiler}
      (hnew : engine.cache.lookup (cacheKey name source) = none)
      (hcompile : Program.compile registry source = .error fault) (hover : compiler.Over registry) :
      Compiling registry engine name source (.error fault, { engine with compiler := compiler })
  /-- The text is compiled, and the template is kept. -/
  | compiled {body : Fragment} {compiler : Compiler}
      (hnew : engine.cache.lookup (cacheKey name source) = none)
      (hcompile : Program.compile registry source = .ok body) (hover : compiler.Over registry) :
      Compiling registry engine name source (.ok ⟨name, body, engine.compiled⟩,
        ⟨compiler, (cacheKey name source, ⟨name, body, engine.compiled⟩) :: engine.cache,
          engine.compiled + 1⟩)

variable {registry : Registry} {sources : List Text} {engine : Engine} {name source : Text}

theorem compiling (hover : engine.compiler.Over registry) (hkeyed : Family.Keyed registry.ordered)
    (name source : Text) :
    Compiling registry engine name source (engine.compile name source) := by
  rw [compile]
  cases hlookup : engine.cache.lookup (cacheKey name source) with
  | some template => exact .found hlookup
  | none =>
    obtain ⟨hresult, hafter⟩ := hover.compile hkeyed source
    rcases hcompiled : engine.compiler.compile source with ⟨result, compiler⟩
    rw [hcompiled] at hresult hafter
    cases result with
    | error fault => exact .refused hlookup hresult.symm hafter
    | ok body => exact .compiled hlookup hresult.symm hafter

/-- An engine that has kept only what its compiler has made of texts, each template under its name
and the digest of its text, and with a number of its own. -/
structure Coherent (registry : Registry) (sources : List Text) (engine : Engine) : Prop where
  compiler_over : engine.compiler.Over registry
  kept : ∀ e ∈ engine.cache, ∃ source ∈ sources,
    e.1 = cacheKey e.2.name source ∧ Program.compile registry source = .ok e.2.body
  numbered : ∀ e ∈ engine.cache, e.2.serial < engine.compiled
  distinct : engine.cache.Pairwise fun e e' => e.2.serial ≠ e'.2.serial

theorem coherent_fresh (registry : Registry) (sources : List Text) :
    (Engine.fresh registry).Coherent registry sources where
  compiler_over := Compiler.over_ofRegistry registry
  kept := fun _ he => absurd he List.not_mem_nil
  numbered := fun _ he => absurd he List.not_mem_nil
  distinct := List.Pairwise.nil

theorem mem_of_lookup {cache : List (Text × Template)} {key : Text} {template : Template}
    (h : cache.lookup key = some template) : (key, template) ∈ cache := by
  obtain ⟨front, back, rfl, -⟩ := List.lookup_eq_some_iff.mp h
  exact List.mem_append_right front List.mem_cons_self

/-- Templates with one number are kept under one key. -/
theorem Coherent.eq_of_serial_eq (h : engine.Coherent registry sources) {key key' : Text}
    {template template' : Template} (hlookup : engine.cache.lookup key = some template)
    (hlookup' : engine.cache.lookup key' = some template')
    (hserial : template.serial = template'.serial) : key = key' := by
  by_contra hne
  have hsymm : Std.Symm fun e e' : Text × Template => e.2.serial ≠ e'.2.serial :=
    ⟨fun _ _ hdifferent => hdifferent.symm⟩
  have hdifferent := h.distinct.forall (mem_of_lookup hlookup) (mem_of_lookup hlookup')
    fun heq => hne (Prod.mk.inj heq).1
  exact hdifferent hserial

/-- An engine that still has all that another one has kept. -/
def Keeps (engine engine' : Engine) : Prop :=
  ∀ key template, engine.cache.lookup key = some template →
    engine'.cache.lookup key = some template

theorem Keeps.refl (engine : Engine) : engine.Keeps engine := fun _ _ h => h

theorem Keeps.trans {engine engine' engine'' : Engine} (h : engine.Keeps engine')
    (h' : engine'.Keeps engine'') : engine.Keeps engine'' :=
  fun key template hlookup => h' key template (h key template hlookup)

theorem Keeps.of_cache_eq {engine engine' : Engine} (h : engine'.cache = engine.cache) :
    engine.Keeps engine' := fun key template hlookup => by
  rw [h]
  exact hlookup

namespace Compiling

variable {outcome : Except CompileFault Template × Engine}

/-- **Compiling keeps an engine coherent**, whether it succeeds or not. -/
theorem coherent (hcompiling : Compiling registry engine name source outcome)
    (h : engine.Coherent registry sources) (hsource : source ∈ sources) :
    outcome.2.Coherent registry sources := by
  cases hcompiling with
  | found hlookup => exact h
  | refused hnew hcompile hover => exact ⟨hover, h.kept, h.numbered, h.distinct⟩
  | compiled hnew hcompile hover =>
    refine ⟨hover, fun e he => ?_, fun e he => ?_,
      List.pairwise_cons.mpr ⟨fun e he => ?_, h.distinct⟩⟩
    · rcases List.mem_cons.mp he with rfl | he
      · exact ⟨source, hsource, rfl, hcompile⟩
      · exact h.kept e he
    · rcases List.mem_cons.mp he with rfl | he
      · exact Nat.lt_succ_self engine.compiled
      · exact Nat.lt_succ_of_lt (h.numbered e he)
    · exact Nat.ne_of_gt (h.numbered e he)

/-- **What compiling comes to** is what a compiler makes of the text, with some number. -/
theorem exists_serial (hcompiling : Compiling registry engine name source outcome)
    (h : engine.Coherent registry sources) (hseparates : Sha1.Separates sources)
    (hsource : source ∈ sources) :
    ∃ serial, outcome.1 =
      (Program.compile registry source).map fun body => ⟨name, body, serial⟩ := by
  cases hcompiling with
  | @found template hlookup =>
    -- what was found was kept for the same name and text
    obtain ⟨source', hsource', hkey, hbody⟩ := h.kept _ (mem_of_lookup hlookup)
    obtain ⟨hname, hdigest⟩ := cacheKey_inj hkey
    obtain rfl := hseparates.eq_of_digest_eq hsource hsource' hdigest
    refine ⟨template.serial, ?_⟩
    rw [hbody, hname]
    rfl
  | refused hnew hcompile hover => exact ⟨0, by rw [hcompile]; rfl⟩
  | compiled hnew hcompile hover => exact ⟨engine.compiled, by rw [hcompile]; rfl⟩

/-- What is refused is not kept. -/
theorem cache_eq_of_error (hcompiling : Compiling registry engine name source outcome)
    {fault : CompileFault} (herror : outcome.1 = .error fault) :
    outcome.2.cache = engine.cache := by
  cases hcompiling with
  | found hlookup => rfl
  | refused hnew hcompile hover => rfl
  | compiled hnew hcompile hover => cases herror

/-- What compiling has given is kept. -/
theorem lookup_of_ok (hcompiling : Compiling registry engine name source outcome)
    {template : Template} (hok : outcome.1 = .ok template) :
    outcome.2.cache.lookup (cacheKey name source) = some template := by
  cases hcompiling with
  | found hlookup =>
    obtain rfl := Except.ok.inj hok
    exact hlookup
  | refused hnew hcompile hover => cases hok
  | compiled hnew hcompile hover =>
    obtain rfl := Except.ok.inj hok
    exact List.lookup_cons_self

/-- Nothing that has been kept is lost: a template is kept under a new key only. -/
theorem keeps (hcompiling : Compiling registry engine name source outcome) :
    engine.Keeps outcome.2 := by
  cases hcompiling with
  | found hlookup => exact Keeps.refl engine
  | refused hnew hcompile hover => exact Keeps.of_cache_eq rfl
  | compiled hnew hcompile hover =>
    intro key template hlookup
    have hother : (key == cacheKey name source) = false := by
      rw [beq_eq_false_iff_ne]
      rintro rfl
      rw [hnew] at hlookup
      cases hlookup
    rw [List.lookup_cons, hother]
    exact hlookup

end Compiling

end Engine
end Stencil
