import Stencil.Proofs.Document.Folding
import Stencil.Proofs.Standard.Meaning

/-! # What a document compiles to

What a template of the standard grammar compiles to, node by node, without handlers and lists of
tasks: `Compiles` has a case for every role, and `CompilesAll` puts the fragments of a row of nodes
one after the other.  Every template that compiles follows it (`compilesAll_of_applyAll`).

A handler is given the joined fragment of what its tag holds.  No node compiles to an empty literal,
so that joining breaks no chain that the fragments before joining did not break; hence the relation
can speak of these, and of joining only where a body is made of them.  In a literal there are
nothing but texts, and what is joined is one literal with all of them.
-/

namespace Stencil
namespace Standard
open Semantics Fragment

variable [Host]

/-! ## What nodes compile to -/

mutual

/-- What a node compiles to, by its role. -/
inductive Compiles : Node → Fragment → Prop
  | silent {n : Node} (hrole : role n = .silent) : Compiles n []
  | text {n : Node} {t : Text} (hrole : role n = .text t) (ht : t ≠ []) :
      Compiles n [.literal t]
  | output {n : Node} {e : Expression} {position : Position} (source : Text)
      (hrole : role n = .output e position) :
      Compiles n [.expression e source (some position)]
  | opening {n : Node} {condition : Expression} {position : Position} {body : Fragment}
      (source : Text) (hrole : role n = .opening condition position)
      (hbody : CompilesAll n.children body) (hwhole : broken? body = none) :
      Compiles n [.branch condition (merge body) source (some position)]
  | alternative {n : Node} {condition : Expression} {position : Position} {body : Fragment}
      (source : Text) (hrole : role n = .alternative condition position)
      (hbody : CompilesAll n.children body) (hwhole : broken? body = none) :
      Compiles n [.elseBranch condition (merge body) source (some position)]
  | otherwise {n : Node} {body : Fragment} (position : Option Position)
      (hrole : role n = .otherwise)
      (hbody : CompilesAll n.children body) (hwhole : broken? body = none) :
      Compiles n [.otherwise (merge body) position]
  | loop {n : Node} {target : Text} {collection : Expression} {mode : LoopMode}
      {position : Position} {body : Fragment} (source : Text)
      (hrole : role n = .loop target collection mode position)
      (hbody : CompilesAll n.children body) (hwhole : broken? body = none) :
      Compiles n [.loop target collection (merge body) mode source (some position)]

/-- What a row of nodes compiles to. -/
inductive CompilesAll : List Node → Fragment → Prop
  | nil : CompilesAll [] []
  | cons {n : Node} {rest : List Node} {f body : Fragment} (hnode : Compiles n f)
      (hrest : CompilesAll rest body) : CompilesAll (n :: rest) (f ++ body)

end

/-- No node compiles to an empty literal. -/
theorem Compiles.clean {n : Node} {f : Fragment} (h : Compiles n f) : Clean f := by
  intro u hu
  cases h with
  | silent => exact absurd hu List.not_mem_nil
  | text hrole ht =>
    obtain rfl : u = _ := Instruction.literal.inj (List.mem_singleton.mp hu)
    exact ht
  | _ => cases List.mem_singleton.mp hu

theorem CompilesAll.clean :
    ∀ {nodes : List Node} {body : Fragment}, CompilesAll nodes body → Clean body
  | _, _, .nil => clean_nil
  | _, _, .cons hnode hrest => hnode.clean.append hrest.clean

/-! ## Compiling follows this -/

theorem spelled?_eq_some {head : TagHead} {t : Text} {purpose : Purpose} {e : Expression}
    (h : expression head t purpose = .ok e) : spelled? t = some e := by
  rw [spelled?, expression_eq_ok h]

omit [Host] in
/-- The name of a verbatim tag tells that it is one. -/
theorem verbatim_of_construct {family : Value} {name : Option Text}
    (h : construct? family name = some .literal) :
    ∃ word, name = some word ∧ isVerbatim family word = true := by
  cases name with
  | some word => exact ⟨word, rfl, by rw [isVerbatim, h]; rfl⟩
  | none =>
    unfold construct? at h
    split at h
    · split at h <;> simp_all
    · cases h

omit [Host] in
/-- Literals in a row merge to one, with all their texts. -/
theorem merge_literals (texts : List Text) :
    merge (texts.map .literal) = glue texts.flatten [] := by
  induction texts with
  | nil => rfl
  | cons t texts ih => rw [List.map_cons, merge_literal, ih, glue_glue, List.flatten_cons]

omit [Host] in
/-- Literals join to one with all their texts, if there is anything in them. -/
theorem joinAll_literals (texts : List Text) :
    Program.joinAll (texts.map fun t => [.literal t]) = .ok (glue texts.flatten []) := by
  have hflatten : (texts.map fun t => [Instruction.literal t]).flatten = texts.map .literal := by
    rw [← List.flatMap_def]
    exact List.flatMap_pure_eq_map Instruction.literal texts
  have hwhole : ∀ t : Text, broken? (glue t []) = none := by
    intro t
    cases t <;> rfl
  rw [Program.joinAll, joinChecked, join, hflatten, merge_literals, hwhole]
  rfl

variable (segments : List Segment)

/-- Texts compile to literals. -/
theorem applyAll_texts {nodes : List Node} (h : ∀ n ∈ nodes, n.isText = true)
    (hattached : ∀ n ∈ nodes, n.isAttached = true) :
    (Program.rule registry segments).applyAll nodes =
      .ok (nodes.map fun n => [.literal (textOf n)]) := by
  induction nodes with
  | nil => rfl
  | cons n rest ih =>
    have hrest := ih (fun m hm => h m (List.mem_cons_of_mem n hm))
      (fun m hm => hattached m (List.mem_cons_of_mem n hm))
    cases n with
    | text id t position attached =>
      rw [Rule.applyAll, if_pos (hattached _ List.mem_cons_self), Rule.apply, hrest]
      rfl
    | tag id head closing children => cases h _ List.mem_cons_self

omit [Host] in
/-- What is inside a verbatim tag joins to one literal, if there is anything. -/
theorem joinAll_texts {nodes : List Node} (hsound : ∀ n ∈ nodes, n.Sound isVerbatim)
    (h : ∀ n ∈ nodes, n.isText = true) {body : Fragment}
    (hbody : Program.joinAll (nodes.map fun n => [.literal (textOf n)]) = .ok body) :
    body = if nodes.isEmpty then [] else [.literal (nodes.flatMap textOf)] := by
  have hliterals : (nodes.map fun n => [Instruction.literal (textOf n)]) =
      (nodes.map textOf).map fun t => [.literal t] := by
    rw [List.map_map]
    rfl
  rw [hliterals, joinAll_literals, ← List.flatMap_def] at hbody
  obtain rfl := Except.ok.inj hbody
  cases nodes with
  | nil => rfl
  | cons n rest =>
    cases hsound n List.mem_cons_self with
    | text hvalue => simp [glue, textOf, hvalue]
    | tag hchildren hverbatim => cases h _ List.mem_cons_self

omit [Host] in
/-- A joined fragment is merged from pieces that break no chain. -/
theorem joinAll_eq_ok {fragments : List Fragment} (hclean : Clean fragments.flatten)
    {body : Fragment} (h : Program.joinAll fragments = .ok body) :
    body = merge fragments.flatten ∧ broken? fragments.flatten = none := by
  rw [Program.joinAll] at h
  cases hjoin : joinChecked fragments with
  | error fault => simp [hjoin, Except.mapError] at h
  | ok joined =>
    obtain rfl : joined = body := by simpa [hjoin, Except.mapError] using h
    obtain ⟨hmerge, hwhole⟩ := joinChecked_eq_ok hjoin
    refine ⟨hmerge, ?_⟩
    rw [← hwhole, hmerge]
    exact (brokenAfter?_merge hclean none).symm

/-- The source and the expression of a tag that its handler has read. -/
theorem exists_of_map_eq_ok {head : TagHead} {t : Text} {purpose : Purpose} {f : Fragment}
    {g : Expression → Fragment}
    (h : (expression head t purpose).map g = .ok f) :
    ∃ e, spelled? t = some e ∧ f = g e := by
  cases he : expression head t purpose with
  | error fault => simp [he, Except.map] at h
  | ok e => exact ⟨e, spelled?_eq_some he, by simpa [he, Except.map] using h.symm⟩

/-- A text that is trimmed before it is read spells the same. -/
theorem spelled?_trim (t : Text) : spelled? (Text.trim t) = spelled? t := by
  rw [spelled?, spelled?, Text.trim_trim]

/-- A loop that compiles has a variable and a collection. -/
theorem loop_eq_ok {mode : LoopMode} {tag : Occurrence} {inner f : Fragment}
    (h : loop mode tag inner = .ok f) :
    ∃ target e source, (argument? tag.head "element").bind target? = some target ∧
      (argument? tag.head "object").bind spelled? = some e ∧
      f = [.loop target e inner mode source (some tag.head.position)] := by
  rw [loop] at h
  split at h
  · rename_i element collection helement hcollection
    split at h
    · cases h
    · rename_i target htarget
      obtain ⟨e, he, rfl⟩ := exists_of_map_eq_ok h
      exact ⟨target, e, collection, by rw [helement]; exact htarget,
        by rw [hcollection]; exact he, rfl⟩
  · cases h

/-- A tag compiles by its role, if what is inside does. -/
theorem compiles_tag {n : Node} {head : TagHead} {enclosed : List Segment} {body : Fragment}
    {construct : Construct}
    (hrole : role n = tagRole head n.children)
    (hconstruct : construct? head.family head.name = some construct)
    (hnot : construct ≠ .literal)
    (hbody : CompilesAll n.children body) (hwhole : broken? body = none) {f : Fragment}
    (h : construct.apply ⟨head, enclosed⟩ (merge body) = .ok f) : Compiles n f := by
  rw [tagRole, hconstruct] at hrole
  cases construct with
  | comment =>
    obtain rfl := Except.ok.inj h
    exact .silent hrole
  | output =>
    obtain ⟨e, he, rfl⟩ := exists_of_map_eq_ok h
    rw [spelled?_trim] at he
    simp only [he] at hrole
    exact .output _ hrole
  | conditional =>
    obtain ⟨e, he, rfl⟩ := exists_of_map_eq_ok h
    rw [spelled?_trim] at he
    simp only [he] at hrole
    exact .opening _ hrole hbody hwhole
  | alternative =>
    obtain ⟨e, he, rfl⟩ := exists_of_map_eq_ok h
    rw [spelled?_trim] at he
    simp only [he] at hrole
    exact .alternative _ hrole hbody hwhole
  | otherwise =>
    obtain rfl := Except.ok.inj h
    exact .otherwise _ hrole hbody hwhole
  | loop mode =>
    obtain ⟨target, e, source, htarget, he, rfl⟩ := loop_eq_ok h
    simp only [htarget, he] at hrole
    exact .loop _ hrole hbody hwhole
  | literal => exact absurd rfl hnot

/-- A literal compiles to the texts inside, if there are any. -/
theorem compiles_literal {n : Node} {head : TagHead} {body : Fragment}
    (hrole : role n = tagRole head n.children)
    (hconstruct : construct? head.family head.name = some .literal)
    (hsound : ∀ m ∈ n.children, m.Sound isVerbatim) (htexts : ∀ m ∈ n.children, m.isText = true)
    {results : List Fragment} (hjoin : Program.joinAll results = .ok body)
    (hresults : (Program.rule registry segments).applyAll n.children = .ok results) :
    Compiles n body := by
  rw [applyAll_texts segments htexts fun m hm => n.isAttached_of_mem_children hm] at hresults
  obtain rfl := Except.ok.inj hresults
  have hbody := joinAll_texts hsound htexts hjoin
  rw [tagRole, hconstruct] at hrole
  simp only at hrole
  by_cases hempty : n.children.isEmpty = true
  · rw [if_pos hempty] at hbody hrole
    rw [hbody]
    exact .silent hrole
  · rw [if_neg hempty] at hbody hrole
    rw [hbody]
    refine .text hrole fun hnil => hempty ?_
    -- the text of a node is not empty
    cases hc : n.children with
    | nil => rfl
    | cons m rest =>
      rw [hc, List.flatMap_cons, List.append_eq_nil_iff] at hnil
      have hm : m ∈ n.children := hc ▸ List.mem_cons_self
      cases hsound m hm with
      | text hvalue => exact absurd hnil.1 hvalue
      | tag hchildren hverbatim => cases htexts _ hm

mutual

/-- A node that belongs somewhere compiles by its role. -/
theorem compiles_of_apply : ∀ {n : Node} {f : Fragment}, n.Sound isVerbatim →
    (Program.rule registry segments).apply n = .ok f → Compiles n f
  | .text id t position attached, f, hsound, h => by
    obtain rfl := Except.ok.inj h
    cases hsound with
    | text hvalue => exact .text rfl hvalue
  | .tag id head closing children, f, hsound, h => by
    obtain ⟨results, hresults, htag⟩ := Rule.apply_tag_eq_ok _ h
    cases hsound with
    | tag hchildren hverbatim =>
    have hall := compilesAll_of_applyAll hchildren hresults
    simp only [Program.rule] at htag
    cases hjoin : Program.joinAll results with
    | error fault => simp [hjoin] at htag
    | ok body =>
      simp only [hjoin] at htag
      obtain ⟨construct, hconstruct, happly⟩ := ofTag_eq_ok htag
      obtain ⟨rfl, hwhole⟩ := joinAll_eq_ok hall.clean hjoin
      by_cases hliteral : construct = .literal
      · -- its role asks for the texts inside, and soundness says that there is nothing else
        subst hliteral
        obtain rfl := Except.ok.inj happly
        obtain ⟨word, hname, hword⟩ := verbatim_of_construct hconstruct
        refine compiles_literal segments (n := .tag id head closing children) rfl hconstruct ?_ ?_
          hjoin ((Rule.applyAll_filter _ children).trans hresults)
        · exact fun m hm => hchildren m (List.mem_filter.mp hm).1
        · exact fun m hm => hverbatim word hname hword m (List.mem_filter.mp hm).1
      · exact compiles_tag (n := .tag id head closing children) rfl hconstruct hliteral hall hwhole
          happly

/-- A row of nodes compiles node by node. -/
theorem compilesAll_of_applyAll : ∀ {nodes : List Node} {results : List Fragment},
    (∀ n ∈ nodes, n.Sound isVerbatim) →
    (Program.rule registry segments).applyAll nodes = .ok results →
    CompilesAll (nodes.filter Node.isAttached) results.flatten
  | [], results, hsound, h => by
    obtain rfl := Except.ok.inj h
    exact .nil
  | n :: rest, results, hsound, h => by
    have hrest : ∀ m ∈ rest, m.Sound isVerbatim := fun m hm => hsound m (List.mem_cons_of_mem n hm)
    by_cases hn : n.isAttached = true
    · obtain ⟨f, more, hf, hmore, rfl⟩ := Rule.applyAll_cons_eq_ok _ hn h
      rw [List.filter_cons_of_pos hn, List.flatten_cons]
      exact .cons (compiles_of_apply (hsound n List.mem_cons_self) hf)
        (compilesAll_of_applyAll hrest hmore)
    · rw [Rule.applyAll, if_neg hn] at h
      rw [List.filter_cons_of_neg hn]
      exact compilesAll_of_applyAll hrest h

end

end Standard
end Stencil
