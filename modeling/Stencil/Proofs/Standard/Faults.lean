import Stencil.Proofs.Document.Places
import Stencil.Proofs.Expression.Literals
import Stencil.Proofs.Source.Arguments
import Stencil.Proofs.Standard.Origins

/-! # What compiling fails with

A template of the standard grammar that does not compile has a fault of one of the documented
classes, or a literal without value somewhere in it (`Standard.compile_ok_or_accounted`): the
handlers pass on what reading an expression refuses as a fault of their tag, but a literal that
cannot be decoded, or a whole number of too many digits, is refused by nobody.  A fault of a
documented class is where a tag of the template begins (`Standard.accountedAt_of_compile`).

What the handler of a tag is given stands in the template, so that a literal that is to blame does
(`Document.inside_of_holds`).  That a tag cannot be read at all does not happen, as the families of
the grammar are well formed (`Document.ofSegments_ne_unreadable`).
-/

namespace Stencil

/-- A segment is a piece of what segments were cut from. -/
theorem Segment.raw_isInfix_joined {segments : List Segment} {s : Segment} (h : s ∈ segments) :
    s.raw <:+: joined segments := by
  obtain ⟨a, b, rfl⟩ := List.append_of_mem h
  exact ⟨joined a, joined b, by simp⟩

namespace Document
open Segment (Reads)

/-- What is read off a tag of a template stands in the template. -/
theorem inside_of_reads {families : List Family} {r : Reading} {tag : Tag}
    (hread : Reads families r.segment r) (htag : r.tag = some tag) : tag.Inside r.segment.raw := by
  obtain ⟨family, read, -, hread, rfl | ⟨-, hanonymous, -⟩⟩ := Segment.read_of_reads hread htag
  · exact Tag.inside_of_read hread
  · exact Tag.inside_of_readAnonymous hanonymous

/-- **What a tag of a document says about itself stands in the template.** -/
theorem inside_of_holds {registry : Registry} (hmade : registry.Made) {template : Text}
    {document : Document} (hparse : Program.parse registry template = .ok document) {id : Nat}
    {head : TagHead} {closing : Option Nat} {children : List Node}
    (h : document.Holds (.tag id head closing children)) :
    head.raw <:+: template ∧ ∀ a ∈ head.arguments, a.2 <:+: template := by
  obtain ⟨row, hrow, htag⟩ := h
  obtain ⟨items, hcut, hreadings, hdocument⟩ := exists_items_of_parse hmade hparse
  obtain ⟨before, item, after, i, hsplit, hnode⟩ := (hrow.placed hdocument).exists_item htag
  have hinside : ∀ (r : Reading) (tag : Tag), r ∈ item.readings → r.tag = some tag →
      tag.Inside template := by
    intro r tag hr htag
    have hmem : r ∈ Item.readingsAll items := by
      rw [hsplit]
      exact List.mem_append_right _ (List.mem_append_left _ hr)
    obtain ⟨hsegment, hread⟩ := Segment.reads_of_mem_readAll hreadings hmem
    have hraw := Segment.raw_isInfix_joined hsegment
    rw [(Segment.laid_of_cut hcut).1] at hraw
    exact (inside_of_reads hread htag).trans hraw
  cases item with
  | text segment => cases hnode
  | anonymous segment family raw arguments =>
    obtain ⟨-, rfl, -, -⟩ := Node.tag.inj hnode
    exact hinside _ _ List.mem_cons_self rfl
  | block o hplain inside closing hcloses =>
    obtain ⟨-, rfl, -, -⟩ := Node.tag.inj hnode
    exact hinside o.reading _ List.mem_cons_self rfl
  | verbatim o hverbatim inside hnone closing hcloses =>
    obtain ⟨-, rfl, -, -⟩ := Node.tag.inj hnode
    exact hinside o.reading _ List.mem_cons_self rfl

end Document

/-! ## The faults of the standard grammar -/

namespace Standard
open Expression (BadLiteral)
open Fragment (Every isLiteral)

section

variable [Host]

/-- A fault of one of the documented classes, or about a literal in the template. -/
def Accounted (template : Text) (fault : CompileFault) : Prop :=
  (∃ faultClass, fault.class? = some faultClass) ∨
    ∃ inner, fault = .escaped inner ∧ BadLiteral template inner

/-- A fault of one of the documented classes at a position of which something is known, or about a
literal in the template. -/
def AccountedAt (template : Text) (known : Position → Prop) (fault : CompileFault) : Prop :=
  (∃ faultClass position, fault.class? = some faultClass ∧ fault.position? = some position ∧
    known position) ∨ ∃ inner, fault = .escaped inner ∧ BadLiteral template inner

variable {template : Text} {known : Position → Prop} {fault : CompileFault}

theorem AccountedAt.accounted (h : AccountedAt template known fault) : Accounted template fault :=
  h.imp_left fun ⟨faultClass, _, hclass, _⟩ => ⟨faultClass, hclass⟩

/-- An expression that a tag needs is missing, or refused, or has a literal without value in it. -/
theorem accountedAt_of_expression {head : TagHead} {t : Text} {purpose : Purpose}
    (hknown : known head.position) (ht : t <:+: template)
    (h : expression head t purpose = .error fault) : AccountedAt template known fault := by
  rw [expression] at h
  split at h
  · exact Or.inl (Except.error.inj h ▸ ⟨_, _, rfl, rfl, hknown⟩)
  · split at h
    · cases h
    · exact Or.inl (Except.error.inj h ▸ ⟨_, _, rfl, rfl, hknown⟩)
    · exact Or.inl (Except.error.inj h ▸ ⟨_, _, rfl, rfl, hknown⟩)
    · rename_i inner hrefused hdeep hread
      rcases Expression.read_eq_error hread with ⟨reason, position, rfl⟩ | rfl | hbad
      · exact absurd rfl (hrefused reason position)
      · exact absurd rfl hdeep
      · exact Or.inr ⟨inner, (Except.error.inj h).symm,
          hbad.trans ((Text.trim_isInfix t).trans ht)⟩

theorem accountedAt_of_map {head : TagHead} {t : Text} {purpose : Purpose}
    {g : Expression → Fragment} (hknown : known head.position) (ht : t <:+: template)
    (h : (expression head t purpose).map g = .error fault) : AccountedAt template known fault := by
  cases he : expression head t purpose with
  | ok e => simp [he, Except.map] at h
  | error inner =>
    simp only [he, Except.map, Except.error.injEq] at h
    exact accountedAt_of_expression hknown ht (h ▸ he)

section
variable {tag : Occurrence} {inner : Fragment}

theorem accountedAt_of_echo (hknown : known tag.head.position) (hraw : tag.head.raw <:+: template)
    (h : echo tag inner = .error fault) : AccountedAt template known fault :=
  accountedAt_of_map hknown ((Text.trim_isInfix _).trans hraw) h

theorem accountedAt_of_loop {mode : LoopMode} (hknown : known tag.head.position)
    (harguments : ∀ a ∈ tag.head.arguments, a.2 <:+: template)
    (h : loop mode tag inner = .error fault) : AccountedAt template known fault := by
  rw [loop] at h
  split at h
  · rename_i element collection helement hcollection
    split at h
    · exact Or.inl (Except.error.inj h ▸ ⟨_, _, rfl, rfl, hknown⟩)
    · refine accountedAt_of_map hknown ?_ h
      -- the collection is an argument of the tag
      obtain ⟨hfound, -⟩ := Option.filter_eq_some_iff.mp hcollection
      obtain ⟨front, rest, hsplit, -⟩ := List.lookup_eq_some_iff.mp hfound
      exact harguments _ (hsplit ▸ List.mem_append_right front List.mem_cons_self)
  · exact Or.inl (Except.error.inj h ▸ ⟨_, _, rfl, rfl, hknown⟩)

/-- Any tag that fails has a fault that is accounted for, at its position. -/
theorem accountedAt_of_ofTag (hknown : known tag.head.position)
    (hraw : tag.head.raw <:+: template) (harguments : ∀ a ∈ tag.head.arguments, a.2 <:+: template)
    (h : Program.ofTag registry tag inner = .error fault) : AccountedAt template known fault := by
  rw [Program.ofTag, Registry.handlerFor?, Registry.handler?, registry_handlers] at h
  generalize hfound : List.find? _ _ = found at h
  cases found with
  | none => exact Or.inl (Except.error.inj h ▸ ⟨_, _, rfl, rfl, hknown⟩)
  | some entry =>
    have hmem := List.mem_of_find?_eq_some hfound
    simp only [Option.map_some] at h
    simp only [List.mem_cons, List.not_mem_nil, or_false] at hmem
    have htrim : Text.trim tag.head.raw <:+: template := (Text.trim_isInfix _).trans hraw
    rcases hmem with rfl | rfl | rfl | rfl | rfl | rfl | rfl | rfl | rfl
    · cases h
    · change echo tag inner = _ at h
      exact accountedAt_of_echo hknown hraw h
    · change output tag inner = _ at h
      unfold output at h
      split at h
      · exact accountedAt_of_echo hknown hraw h
      · exact Or.inl (Except.error.inj h ▸ ⟨_, _, rfl, rfl, hknown⟩)
    · exact accountedAt_of_loop hknown harguments h
    · exact accountedAt_of_loop hknown harguments h
    · exact accountedAt_of_map hknown htrim h
    · exact accountedAt_of_map hknown htrim h
    · cases h
    · cases h

end

/-- Where fragments cannot be joined, one of their instructions is to blame. -/
theorem accountedAt_of_joinAll {fragments : List Fragment}
    (hmade : ∀ f ∈ fragments, Every (Instruction.Made known) f)
    (h : Program.joinAll fragments = .error fault) : AccountedAt template known fault := by
  obtain ⟨broken, rfl, f, hf, i, hi, hsuccessor, hposition⟩ := Program.exists_of_joinAll_eq_error h
  have hliteral : isLiteral i ≠ true := Fragment.not_isLiteral_of_isSuccessor hsuccessor
  obtain ⟨position, hknown, hmadeAt⟩ := ((hmade f hf).mem hi).resolve_left hliteral
  have hsome : broken.position = some position := hposition.symm.trans hmadeAt.position?_eq
  exact Or.inl ⟨_, _, rfl, hsome, hknown⟩

/-- A position of a tag is where a tag begins. -/
theorem opensAt_of_hasTagAt {position : Position} (h : HasTagAt template position) :
    Segment.OpensAt registry.ordered template position := by
  obtain ⟨document, id, head, closing, children, hparse, hholds, rfl⟩ := h
  exact (Document.inPlace_of_holds registry_made hparse hholds).1

/-- **A template that does not compile** has a fault of a documented class where one of its tags
begins, or one about a literal in it that has no value. -/
theorem accountedAt_of_compile (h : Program.compile registry template = .error fault) :
    AccountedAt template (Segment.OpensAt registry.ordered template) fault := by
  rw [Program.compile] at h
  cases hparse : Program.parse registry template with
  | error parseFault =>
    simp only [hparse, Except.error.injEq] at h
    exact Or.inl (h ▸ Program.position_of_parse registry_made hparse)
  | ok document =>
    simp only [hparse] at h
    rw [Program.generate_eq] at h
    have hmade : ∀ {nodes : List Node} {results : List Fragment},
        (∀ n ∈ nodes, document.Holds n) →
        (Program.rule registry document.segments).applyAll nodes = .ok results →
        ∀ f ∈ results,
          Every (Instruction.Made (Segment.OpensAt registry.ordered template)) f :=
      fun hnodes hresults f hf => (made_of_applyAll hparse hnodes hresults f hf).imp
        fun _ hmade => hmade.mono fun _ => opensAt_of_hasTagAt
    cases hall : (Program.rule registry document.segments).applyAll document.children with
    | ok fragments =>
      simp only [hall] at h
      exact accountedAt_of_joinAll (hmade document.holds_of_mem_children hall) h
    | error tagFault =>
      simp only [hall, Except.error.injEq] at h
      subst h
      obtain ⟨id, head, closing, children, results, hholds, hresults, htag⟩ :=
        Document.exists_tag_of_applyAll (fun t _ => ⟨[.literal t], rfl⟩) _
          document.holds_of_mem_children hall
      obtain ⟨hraw, harguments⟩ := Document.inside_of_holds registry_made hparse hholds
      have hknown := opensAt_of_hasTagAt ⟨document, id, head, closing, children, hparse, hholds, rfl⟩
      simp only [Program.rule] at htag
      cases hjoin : Program.joinAll results with
      | error joinFault =>
        simp only [hjoin, Except.error.injEq] at htag
        exact htag ▸ accountedAt_of_joinAll (hmade hholds.inside hresults) hjoin
      | ok inner =>
        simp only [hjoin] at htag
        exact accountedAt_of_ofTag hknown hraw harguments htag

theorem accounted_of_compile (h : Program.compile registry template = .error fault) :
    Accounted template fault := (accountedAt_of_compile h).accounted

/-- **A template compiles, or has a fault that is accounted for**: one of a documented class, or one
about a literal in the template that has no value. -/
theorem compile_ok_or_accounted (template : Text) :
    (∃ fragment, Program.compile registry template = .ok fragment) ∨
      ∃ fault, Program.compile registry template = .error fault ∧ Accounted template fault := by
  cases h : Program.compile registry template with
  | ok fragment => exact Or.inl ⟨fragment, rfl⟩
  | error fault => exact Or.inr ⟨fault, rfl, accounted_of_compile h⟩

end

attribute [local instance] Host.usual

/-- A line break in a quoted literal is a fault of no documented class. -/
theorem compile_lineBreak :
    Program.compile registry (Text.ofString "\x7becho \"\n\"\x7d") =
        .error (.escaped (.malformedLiteral (.lineBreak 1) 0)) ∧
      (CompileFault.escaped (.malformedLiteral (.lineBreak 1) 0)).class? = none := by
  refine ⟨?_, rfl⟩
  cbv

end Standard
end Stencil
