import Mathlib
import Stencil.Proofs.Engine.Caching
import Stencil.Proofs.Standard.Grammar

/-! # The caches of an engine cannot be seen

An engine is asked for one thing after the other: to compile or to render a text under a name, to
parse a text, to forget its templates.  A history is what happens then (`Engine.history`).  Whatever
is asked, and whatever of it fails, a reply is the one of a compiler that has met no template yet
(`Call.Warrants`).  The engine stays coherent from call to call (`Engine.Coherent.answer`), and until
it is made to forget them it keeps all templates (`Engine.keeps_answer`), so that two calls in
between get one template if and only if they ask for one text under one name
(`Engine.caches_unobservable`).
-/

namespace Stencil

/-- What an engine can be asked. -/
inductive Call where
  | compile (name source : Text)
  | render (name source : Text) (data : Value)
  | parse (source : Text)
  | clear

/-- What it replies. -/
inductive Reply where
  | template (template : Template)
  | text (text : Text)
  | document (document : Document)
  | done
  /-- The text is refused by the compiler. -/
  | refused (fault : CompileFault)
  /-- The template cannot be filled with the data. -/
  | failed (fault : RunFault)

namespace Reply

/-- The reply to a call that compiles. -/
def ofCompile : Except CompileFault Template → Reply
  | .ok t => .template t
  | .error fault => .refused fault

/-- The reply to a call that renders. -/
def ofRender : Except CompileFault (Except RunFault Text) → Reply
  | .ok (.ok t) => .text t
  | .ok (.error fault) => .failed fault
  | .error fault => .refused fault

/-- The reply to a call that parses. -/
def ofParse : Except CompileFault Document → Reply
  | .ok d => .document d
  | .error fault => .refused fault

end Reply

namespace Call

/-- The name and the text of the template that a call needs. -/
def request? : Call → Option (Text × Text)
  | .compile name source => some (name, source)
  | .render name source _ => some (name, source)
  | _ => none

/-- The texts of the templates that calls need. -/
def sources (calls : List Call) : List Text := (calls.filterMap request?).map Prod.snd

/-- That the text of a template that a call needs is one of some texts. -/
def Within (sources : List Text) (call : Call) : Prop := ∀ r ∈ call.request?, r.2 ∈ sources

theorem within_sources {calls : List Call} {call : Call} (hcall : call ∈ calls) :
    call.Within (sources calls) :=
  fun r hr => List.mem_map.mpr ⟨r, List.mem_filterMap.mpr ⟨call, hcall, hr⟩, rfl⟩

variable [Host]

/-- Whether a reply is the one of a compiler over a registry, before it has met any template; the
number of a template is left open. -/
def Warrants (registry : Registry) (call : Call) (reply : Reply) : Prop :=
  match call with
  | .compile name source =>
    ∃ serial, reply = .ofCompile (((Compiler.ofRegistry registry).compile source).1.map
      fun body => ⟨name, body, serial⟩)
  | .render _ source data =>
    reply = .ofRender (((Compiler.ofRegistry registry).compile source).1.map
      fun body => Machine.render body data)
  | .parse source => reply = .ofParse ((Compiler.ofRegistry registry).parse source).1
  | .clear => reply = .done

end Call

section

variable [Host]

namespace Engine

/-- The reply to a call, and the engine after it. -/
def answer (engine : Engine) : Call → Reply × Engine
  | .compile name source =>
    let (result, engine) := engine.compile name source
    (.ofCompile result, engine)
  | .render name source data =>
    let (result, engine) := engine.render name source data
    (.ofRender result, engine)
  | .parse source =>
    let (result, engine) := engine.parse source
    (.ofParse result, engine)
  | .clear => (.done, engine.clear)

end Engine

/-- One call in a history, with the engine that it meets. -/
structure Event where
  before : Engine
  call : Call

namespace Event

def reply (event : Event) : Reply := (event.before.answer event.call).1

/-- The engine that the call leaves behind. -/
def after (event : Event) : Engine := (event.before.answer event.call).2

/-- The template that a call gets: as its reply, or in order to fill it. -/
def template? (event : Event) : Option Template :=
  match event.call, event.reply with
  | .compile _ _, .template t => some t
  | .render name source _, _ => (event.before.compile name source).1.toOption
  | _, _ => none

end Event

namespace Engine

/-- What happens when an engine is asked for one thing after the other. -/
def history (engine : Engine) : List Call → List Event
  | [] => []
  | call :: rest => ⟨engine, call⟩ :: history (Event.after ⟨engine, call⟩) rest

variable {registry : Registry} {sources : List Text} {engine : Engine} {call : Call}

/-- **Every call keeps an engine coherent**, whether it fails or not. -/
theorem Coherent.answer (h : engine.Coherent registry sources)
    (hkeyed : Family.Keyed registry.ordered) (hcall : call.Within sources) :
    (engine.answer call).2.Coherent registry sources := by
  cases call with
  | compile name source =>
    exact (compiling h.compiler_over hkeyed name source).coherent h (hcall _ rfl)
  | render name source data =>
    exact (compiling h.compiler_over hkeyed name source).coherent h (hcall _ rfl)
  | parse source =>
    obtain ⟨-, hover⟩ := h.compiler_over.parse hkeyed source
    exact ⟨hover, h.kept, h.numbered, h.distinct⟩
  | clear =>
    exact ⟨h.compiler_over, fun _ he => absurd he List.not_mem_nil,
      fun _ he => absurd he List.not_mem_nil, List.Pairwise.nil⟩

/-- **Every reply is the one of a compiler that has met no template yet.** -/
theorem Coherent.warrants (h : engine.Coherent registry sources)
    (hkeyed : Family.Keyed registry.ordered) (hseparates : Sha1.Separates sources)
    (hcall : call.Within sources) :
    call.Warrants registry (engine.answer call).1 := by
  have hfresh := Compiler.over_ofRegistry registry
  cases call with
  | compile name source =>
    have hcompiling := compiling h.compiler_over hkeyed name source
    obtain ⟨serial, hresult⟩ := hcompiling.exists_serial h hseparates (hcall _ rfl)
    refine ⟨serial, ?_⟩
    rw [(hfresh.compile hkeyed source).1, ← hresult]
    rfl
  | render name source data =>
    have hcompiling := compiling h.compiler_over hkeyed name source
    obtain ⟨serial, hresult⟩ := hcompiling.exists_serial h hseparates (hcall _ rfl)
    rw [Call.Warrants, (hfresh.compile hkeyed source).1]
    show Reply.ofRender ((engine.compile name source).1.map fun t => t.run data) = _
    rw [hresult]
    cases Program.compile registry source with
    | error fault => rfl
    | ok body => rfl
  | parse source =>
    rw [Call.Warrants, (hfresh.parse hkeyed source).1, ← (h.compiler_over.parse hkeyed source).1]
    rfl
  | clear => rfl

/-- **A call whose text is refused leaves the cache as it is.** -/
theorem cache_answer_of_refused (hover : engine.compiler.Over registry)
    (hkeyed : Family.Keyed registry.ordered) {fault : CompileFault}
    (hrefused : (engine.answer call).1 = .refused fault) :
    (engine.answer call).2.cache = engine.cache := by
  cases call with
  | compile name source =>
    have hresult : Reply.ofCompile (engine.compile name source).1 = .refused fault := hrefused
    cases herror : (engine.compile name source).1 with
    | ok template => rw [herror] at hresult; cases hresult
    | error fault' => exact (compiling hover hkeyed name source).cache_eq_of_error herror
  | render name source data =>
    have hresult : Reply.ofRender ((engine.compile name source).1.map fun t => t.run data) =
      .refused fault := hrefused
    cases herror : (engine.compile name source).1 with
    | ok template =>
      -- a template that cannot be filled has been compiled
      rw [herror, Except.map] at hresult
      cases hrun : template.run data with
      | ok t => rw [hrun] at hresult; cases hresult
      | error fault' => rw [hrun] at hresult; cases hresult
    | error fault' => exact (compiling hover hkeyed name source).cache_eq_of_error herror
  | parse source => rfl
  | clear => cases hrefused

/-- **Nothing that has been kept is lost** until the engine is made to forget it. -/
theorem keeps_answer (hover : engine.compiler.Over registry)
    (hkeyed : Family.Keyed registry.ordered) (hcall : call ≠ .clear) :
    engine.Keeps (engine.answer call).2 := by
  cases call with
  | compile name source => exact (compiling hover hkeyed name source).keeps
  | render name source data => exact (compiling hover hkeyed name source).keeps
  | parse source => exact Keeps.of_cache_eq rfl
  | clear => exact absurd rfl hcall

/-- A call that gets a template compiles what it needs, and does nothing else to the engine. -/
theorem exists_request {event : Event} {template : Template}
    (h : event.template? = some template) :
    ∃ name source, event.call.request? = some (name, source) ∧
      (event.before.compile name source).1 = .ok template ∧
      event.after = (event.before.compile name source).2 := by
  obtain ⟨engine, call⟩ := event
  cases call with
  | compile name source =>
    refine ⟨name, source, rfl, ?_, rfl⟩
    have hreply : Event.reply ⟨engine, .compile name source⟩ =
      .ofCompile (engine.compile name source).1 := rfl
    rw [Event.template?, hreply] at h
    cases hresult : (engine.compile name source).1 with
    | ok t =>
      rw [hresult] at h
      exact congrArg Except.ok (Option.some.inj h)
    | error fault => rw [hresult] at h; cases h
  | render name source data =>
    refine ⟨name, source, rfl, ?_, rfl⟩
    have hresult : (engine.compile name source).1.toOption = some template := h
    cases hcompile : (engine.compile name source).1 with
    | ok t =>
      rw [hcompile] at hresult
      exact congrArg Except.ok (Option.some.inj hresult)
    | error fault => rw [hcompile] at hresult; cases hresult
  | parse source => cases h
  | clear => cases h

/-- The template that a call has got is kept under the name and the digest of the text. -/
theorem exists_lookup {event : Event} (hover : event.before.compiler.Over registry)
    (hkeyed : Family.Keyed registry.ordered) {template : Template}
    (h : event.template? = some template) :
    ∃ name source, event.call.request? = some (name, source) ∧
      event.after.cache.lookup (cacheKey name source) = some template := by
  obtain ⟨name, source, hcall, hcompile, hafter⟩ := exists_request h
  refine ⟨name, source, hcall, ?_⟩
  rw [hafter]
  exact (compiling hover hkeyed name source).lookup_of_ok hcompile

/-! ## Histories -/

/-- What is left of a history after some of it is a history again, of an engine that is coherent and
has kept everything, unless it was made to forget it. -/
theorem Coherent.exists_history (h : engine.Coherent registry sources)
    (hkeyed : Family.Keyed registry.ordered) {calls : List Call}
    (hcalls : ∀ call ∈ calls, call.Within sources) {front rest : List Event}
    (hsplit : engine.history calls = front ++ rest) :
    ∃ engine' calls', engine'.Coherent registry sources ∧
      (∀ call ∈ calls', call.Within sources) ∧ rest = engine'.history calls' ∧
      ((∀ event ∈ front, event.call ≠ .clear) → engine.Keeps engine') := by
  induction front generalizing engine calls with
  | nil => exact ⟨engine, calls, h, hcalls, hsplit.symm, fun _ => Keeps.refl engine⟩
  | cons event front ih =>
    cases calls with
    | nil => cases hsplit
    | cons call later =>
      obtain ⟨rfl, htail⟩ := List.cons.inj hsplit
      have hanswer := h.answer hkeyed (hcalls call List.mem_cons_self)
      obtain ⟨engine', calls', h', hcalls', hrest, hkeeps⟩ := ih hanswer
        (fun c hc => hcalls c (List.mem_cons_of_mem call hc)) htail
      refine ⟨engine', calls', h', hcalls', hrest, fun hclear => ?_⟩
      have hstep := keeps_answer h.compiler_over hkeyed (hclear _ List.mem_cons_self)
      exact hstep.trans (hkeeps fun e he => hclear e (List.mem_cons_of_mem _ he))

/-- An event of a history, with what follows it: its engine is coherent, and its call is one of the
calls. -/
theorem Coherent.of_history_eq (h : engine.Coherent registry sources)
    (hkeyed : Family.Keyed registry.ordered) {calls : List Call}
    (hcalls : ∀ call ∈ calls, call.Within sources) {front back : List Event}
    {event : Event} (hsplit : engine.history calls = front ++ event :: back) :
    event.before.Coherent registry sources ∧ event.call.Within sources ∧
      ((∀ e ∈ front, e.call ≠ .clear) → engine.Keeps event.before) ∧
      ∃ calls', (∀ call ∈ calls', call.Within sources) ∧
        event.after.history calls' = back := by
  obtain ⟨engine', calls', h', hcalls', hrest, hkeeps⟩ := h.exists_history hkeyed hcalls hsplit
  cases calls' with
  | nil => cases hrest
  | cons call later =>
    obtain ⟨rfl, htail⟩ := List.cons.inj hrest
    exact ⟨h', hcalls' call List.mem_cons_self, hkeeps, later,
      fun c hc => hcalls' c (List.mem_cons_of_mem call hc), htail.symm⟩

omit [Host] in
/-- An engine over a registry begins with a frozen one, and has kept nothing. -/
theorem exists_fresh_of_ofRegistry (hreached : registry.Reached)
    (hengine : ofRegistry registry = .ok engine) :
    ∃ frozen, engine = Engine.fresh frozen ∧ frozen.Reached ∧ frozen.frozen = true := by
  rw [ofRegistry] at hengine
  by_cases hfrozen : registry.frozen = true
  · rw [if_pos hfrozen] at hengine
    exact ⟨registry, (Except.ok.inj hengine).symm, hreached, hfrozen⟩
  · rw [if_neg hfrozen] at hengine
    obtain ⟨frozen, hfreeze, rfl⟩ := map_eq_ok_iff.mp hengine
    exact ⟨frozen, rfl, hreached.frozen hfreeze, Registry.frozen_freeze hfreeze⟩

/-- **The caches of an engine cannot be seen.**  However an engine is used, every reply is the one
of a compiler over the same frozen registry that has met no template yet, and a call whose text is
refused leaves the cache as it is.  Until the engine is made to forget its templates, two calls get
the same template if and only if they ask for one text under one name.  SHA-1 must not collide on
the texts of the templates. -/
theorem caches_unobservable (hreached : registry.Reached)
    (hengine : ofRegistry registry = .ok engine) (calls : List Call)
    (hseparates : Sha1.Separates (Call.sources calls)) :
    engine.registry.frozen = true ∧
    (∀ event ∈ engine.history calls, event.call.Warrants engine.registry event.reply ∧
      ((∃ fault, event.reply = .refused fault) → event.after.cache = event.before.cache)) ∧
    ∀ (front between back : List Event) (event event' : Event),
      engine.history calls = front ++ event :: (between ++ event' :: back) →
      (∀ e ∈ between, e.call ≠ .clear) →
      ∀ template ∈ event.template?, ∀ template' ∈ event'.template?,
        template.serial = template'.serial ↔ event.call.request? = event'.call.request? := by
  obtain ⟨frozen, rfl, hfrozen, hisFrozen⟩ := exists_fresh_of_ofRegistry hreached hengine
  have hcoherent := coherent_fresh frozen (Call.sources calls)
  have hkeyed := hfrozen.keyed
  have hcalls : ∀ call ∈ calls, call.Within (Call.sources calls) :=
    fun call hcall => Call.within_sources hcall
  refine ⟨hisFrozen, ?_, ?_⟩
  · intro event hevent
    obtain ⟨front, back, hsplit⟩ := List.append_of_mem hevent
    obtain ⟨hbefore, hrequest, -, -⟩ := hcoherent.of_history_eq hkeyed hcalls hsplit
    exact ⟨hbefore.warrants hkeyed hseparates hrequest,
      fun ⟨_, hrefused⟩ => cache_answer_of_refused hbefore.compiler_over hkeyed hrefused⟩
  · intro front between back event event' hsplit hclear template htemplate template' htemplate'
    obtain ⟨hbefore, hrequest, -, later, hlater, hback⟩ :=
      hcoherent.of_history_eq hkeyed hcalls hsplit
    obtain ⟨hbefore', hrequest', hkept, -⟩ :=
      (hbefore.answer hkeyed hrequest).of_history_eq hkeyed hlater hback
    -- the later call finds the template of the earlier one kept, and both are kept after it
    obtain ⟨name, source, hcall, hlookup⟩ := exists_lookup hbefore.compiler_over hkeyed htemplate
    obtain ⟨name', source', hcall', hlookup'⟩ :=
      exists_lookup hbefore'.compiler_over hkeyed htemplate'
    have hclear' : event'.call ≠ .clear := by
      intro heq
      rw [heq] at hcall'
      cases hcall'
    have hlast := keeps_answer hbefore'.compiler_over hkeyed hclear' _ _ (hkept hclear _ _ hlookup)
    rw [hcall, hcall']
    constructor
    · intro hserial
      have hkey := (hbefore'.answer hkeyed hrequest').eq_of_serial_eq hlast hlookup' hserial
      obtain ⟨hname, hdigest⟩ := cacheKey_inj hkey
      have hsource : source = source' :=
        hseparates.eq_of_digest_eq (hrequest _ hcall) (hrequest' _ hcall') hdigest
      rw [hname, hsource]
    · intro heq
      obtain ⟨rfl, rfl⟩ := Prod.mk.inj (Option.some.inj heq)
      have hsame : template = template' := Option.some.inj (hlast.symm.trans hlookup')
      rw [hsame]

end Engine

end

namespace Engine

attribute [local instance] Host.usual

/-- A text that is compiled, -/
def closedText : Text := Text.ofString "\x7bliteral\x7dA\x7b/literal\x7d"

/-- and one that is refused. -/
def openText : Text := Text.ofString "\x7bliteral\x7dA"

/-- Calls of which the first fails, and the last finds what the second has left. -/
def sampleCalls : List Call :=
  [.compile ['a'] openText, .render ['a'] closedText (.map []), .compile ['a', ':', '0'] closedText,
    .compile ['a'] closedText]

/-- An engine over the standard grammar, and what the calls get. -/
theorem caches_unobservable_sample :
    Standard.registry.Reached ∧ ofRegistry Standard.registry = .ok standard ∧
      Sha1.Separates (Call.sources sampleCalls) ∧
      (standard.history sampleCalls).map (fun e => e.template?.map Template.serial) =
        [none, some 0, some 1, some 0] ∧
      ∀ event ∈ standard.history sampleCalls, event.call.Warrants standard.registry event.reply ∧
        ((∃ fault, event.reply = .refused fault) → event.after.cache = event.before.cache) := by
  have hreached : Standard.registry.Reached := Standard.registry_made.reached
  have hengine : ofRegistry Standard.registry = .ok standard := rfl
  have hseparates : Sha1.Separates (Call.sources sampleCalls) := by
    rw [Sha1.Separates]
    decide +kernel
  have hserials : (standard.history sampleCalls).map (fun e => e.template?.map Template.serial) =
      [none, some 0, some 1, some 0] := by
    cbv
  exact ⟨hreached, hengine, hseparates, hserials,
    (caches_unobservable hreached hengine sampleCalls hseparates).2.1⟩

end Engine
end Stencil
