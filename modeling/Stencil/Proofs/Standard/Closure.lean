import Stencil.Proofs.Execution.Failures
import Stencil.Proofs.Execution.Scopes
import Stencil.Proofs.Standard.Origins

/-! # What a rendering raises

A template of the standard grammar that is filled with a mapping gives a text or fails with a fault
of the template.  Besides this there are two leaks, by which something is raised that knows nothing
of the template (`Standard.render_ok_or_fault_or_leaks`): a path that misreads a position, and a
loop over an object that passes for a value with items.  For all instructions of a compiled template
are basic (`Standard.isBasic_of_compile`), so that every machine of the run is steady.

Of the data it is asked only that they hold no integer and no collection beyond the bound on digits,
and of the host that it has no attributes of its own for them.
-/

namespace Stencil
namespace Standard
open Fragment Machine

section

variable [Host]

theorem isRead_of_spelled? {t : Text} {e : Expression} (h : spelled? t = some e) : e.IsRead := by
  unfold spelled? at h
  split at h
  · rename_i own hread
    exact ⟨_, _, Option.some.inj h ▸ hread⟩
  · cases h

/-- What a construct makes of a tag is basic, if what is inside is. -/
theorem isBasic_of_apply {construct : Construct} {tag : Occurrence} {inner f : Fragment}
    (hinner : Every Instruction.IsBasic inner) (h : construct.apply tag inner = .ok f) :
    Every Instruction.IsBasic f := by
  cases construct with
  | comment =>
    obtain rfl := Except.ok.inj h
    exact .nil
  | output =>
    obtain ⟨e, he, rfl⟩ := exists_of_map_eq_ok h
    exact .single (.expression (isRead_of_spelled? he) _ _) .nil
  | conditional =>
    obtain ⟨e, he, rfl⟩ := exists_of_map_eq_ok h
    exact .single (.branch (isRead_of_spelled? he) _ _ _) hinner
  | alternative =>
    obtain ⟨e, he, rfl⟩ := exists_of_map_eq_ok h
    exact .single (.elseBranch (isRead_of_spelled? he) _ _ _) hinner
  | otherwise =>
    obtain rfl := Except.ok.inj h
    exact .single (.otherwise _ _) hinner
  | loop mode =>
    obtain ⟨target, e, source, -, he, rfl⟩ := loop_eq_ok h
    obtain ⟨collection, -, he⟩ := Option.bind_eq_some_iff.mp he
    exact .single (.loop _ (isRead_of_spelled? he) _ _ _ _) hinner
  | literal =>
    obtain rfl := Except.ok.inj h
    exact hinner

/-- **All instructions of a compiled template are basic**, at any depth. -/
theorem isBasic_of_compile {template : Text} {fragment : Fragment}
    (h : Program.compile registry template = .ok fragment) :
    Every Instruction.IsBasic fragment := by
  obtain ⟨document, results, -, hresults, hjoin⟩ := Program.exists_of_compile h
  have hbasic := every_of_applyAll .literal (fun _ hinner happly => isBasic_of_apply hinner happly)
    document.holds_of_mem_children hresults
  exact Every.joinAll .literal hbasic hjoin

/-- The scope in which a run begins, if a mapping fills the template. -/
theorem steadyScope_ofData {P : Value → Prop} (hP : Value.Lasting P) {data : Value}
    {entries : List (Value × Value)} (hdata : (Scope.ofData data).data.entries? = some entries)
    (h : data.Throughout P) : SteadyScope P (Scope.ofData data) :=
  ⟨Scope.throughout_ofData hP.kept h, entries, hdata⟩

/-- **A rendering gives a text, or a fault of the template, or leaks.**  Whatever template of the
standard grammar compiles, and whatever mapping fills it, without an integer of too many digits,
where values have no attributes but their own: if anything else is raised, the run has come to a
machine that raises it, and this machine is about to misread a position of a path, or to loop over
an object that passes for a value with items.  The latter does not happen if there is no such object
in the data. -/
theorem render_ok_or_fault_or_leaks (hhost : Host.LendsNothing) {template : Text}
    {fragment : Fragment} (hcompile : Program.compile registry template = .ok fragment)
    {data : Value} {entries : List (Value × Value)}
    (hdata : (Scope.ofData data).data.entries? = some entries) (hspell : data.Spellable) :
    (∃ t, render fragment data = .ok t) ∨
      (∃ fault, render fragment data = .error (.render fault)) ∨
      ∃ cause machine, render fragment data = .error (.raised cause) ∧
        Reaches (start fragment (Scope.ofData data)) machine ∧
        machine.step = .failed (.raised cause) ∧ machine.Leaks cause ∧
        (data.Honest → ∃ fault, cause = .badIndex fault ∧ machine.MisreadsPosition fault) := by
  have hbasic := isBasic_of_compile hcompile
  rw [render]
  cases hrun : run (start fragment (Scope.ofData data)) with
  | ok t => exact Or.inl ⟨t, rfl⟩
  | error fault =>
    obtain ⟨machine, hreach, hfailed⟩ := run_eq_error_iff.mp hrun
    have hbounded := steadyScope_ofData Value.lasting_bounded hdata hspell
    have hsteady := steady_of_reaches Value.lasting_bounded hhost.keeps hbasic hbounded hreach
    cases explains_of_step hhost.keeps hsteady hfailed with
    | render own => exact Or.inr (Or.inl ⟨own, rfl⟩)
    | tooDeep => exact Or.inr (Or.inl ⟨.tooDeep, rfl⟩)
    | @leak cause hleak =>
      have hraised : (Except.error (RunFault.raised cause) : Except RunFault Text).mapError
          RunFault.atTop = .error (.raised cause) := by cases hleak <;> rfl
      refine Or.inr (Or.inr ⟨cause, machine, hraised, hreach, hfailed, hleak, fun hhonest => ?_⟩)
      cases hleak with
      | misread hmisread => exact ⟨_, rfl, hmisread⟩
      | impostor himpostor =>
        have hscope := steadyScope_ofData Value.lasting_claimsItems hdata hhonest
        have hsteady := steady_of_reaches Value.lasting_claimsItems hhost.keeps hbasic hscope hreach
        exact absurd himpostor (not_meetsImpostor hhost.keeps hsteady _)

end

attribute [local instance] Host.usual

/-- The item of a list at a position that is written as a superscript. -/
def superscript : Text := Text.ofString "\x7b$l.²\x7d"

/-- What it compiles to. -/
def superscriptFragment : Fragment :=
  [.expression (.path ['l'] [['²']]) ['$', 'l', '.', '²'] (some ⟨0, 1, 1⟩)]

/-- A mapping with a list of one item. -/
def oneItem : Value := .map [(word "l", .list [.int 7])]

theorem spellable_oneItem : oneItem.Spellable := by
  have hitem : (Value.int 7).Throughout Value.Bounded :=
    .of_parts (Value.kept_bounded.modest rfl) rfl
  have hlist : (Value.list [.int 7]).Throughout Value.Bounded :=
    .intro ⟨nofun, Nat.le_trans (by decide) Numeral.million_le_pow⟩
      (List.forall_mem_singleton.mpr hitem)
  have hkey : (word "l").Throughout Value.Bounded := .of_parts ⟨nofun, Nat.zero_le _⟩ rfl
  exact .intro ⟨nofun, Nat.zero_le _⟩
    (List.forall_mem_cons.mpr ⟨hkey, List.forall_mem_singleton.mpr hlist⟩)

theorem honest_oneItem : oneItem.Honest := by
  have hlist : (Value.list [.int 7]).Honest :=
    .intro rfl (List.forall_mem_singleton.mpr (.of_parts rfl rfl))
  exact .intro rfl
    (List.forall_mem_cons.mpr ⟨.of_parts rfl rfl, List.forall_mem_singleton.mpr hlist⟩)

-- whether the superscript belongs to a word is looked up in the table of all letters
set_option maxRecDepth 6000 in
/-- A superscript passes for a digit, but is no numeral; so this leaks. -/
theorem render_ok_or_fault_or_leaks_superscript :
    Program.compile registry superscript = .ok superscriptFragment ∧ oneItem.Spellable ∧
      ∃ fault machine, render superscriptFragment oneItem = .error (.raised (.badIndex fault)) ∧
        Reaches (start superscriptFragment (Scope.ofData oneItem)) machine ∧
        machine.MisreadsPosition fault := by
  have hcompile : Program.compile registry superscript = .ok superscriptFragment := by cbv
  have hraised : ∃ cause, render superscriptFragment oneItem = .error (.raised cause) := by
    rw [render_eq_semantics]
    exact ⟨_, rfl⟩
  have hmapping : (Scope.ofData oneItem).data.entries? = some [(word "l", .list [.int 7])] := rfl
  obtain ⟨own, hown⟩ := hraised
  rcases render_ok_or_fault_or_leaks (fun _ _ => rfl) hcompile hmapping spellable_oneItem with
    ⟨t, ht⟩ | ⟨fault, hfault⟩ | ⟨cause, machine, hcause, hreach, -, -, hmisread⟩
  · rw [hown] at ht
    cases ht
  · rw [hown] at hfault
    cases hfault
  · obtain ⟨fault, rfl, hposition⟩ := hmisread honest_oneItem
    exact ⟨hcompile, spellable_oneItem, fault, machine, hcause, hreach, hposition⟩

/-! ## A loop over an object that has no items -/

/-- A loop over an object. -/
def throughObject : Text := Text.ofString "\x7bforeach $x in $o\x7d\x7b$x\x7d\x7b/foreach\x7d"

/-- What it compiles to. -/
def throughObjectFragment : Fragment :=
  [.loop ['x'] (.path ['o'] []) [.expression (.path ['x'] []) ['$', 'x'] (some ⟨18, 1, 19⟩)]
    .each ['$', 'o'] (some ⟨0, 1, 1⟩)]

/-- An object with the attribute that stands for going through items. -/
def impostor : Value := .object 0 [(Text.ofString "__iter__", .int 1)]

/-- **A loop over such an object raises something else than a fault of the template.** -/
theorem render_impostor :
    Program.compile registry throughObject = .ok throughObjectFragment ∧
      render throughObjectFragment (.map [(word "o", impostor)]) =
        .error (.raised (.misused (.notIterable "Obj"))) := by
  refine ⟨by cbv, ?_⟩
  rw [render_eq_semantics]
  rfl

end Standard
end Stencil
