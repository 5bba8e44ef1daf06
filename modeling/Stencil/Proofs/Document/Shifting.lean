import Stencil.Proofs.Document.Soundness
import Stencil.Proofs.Source.Concatenation

/-! # Building behind another document

The segments of a template that comes second are built into a document that holds the nodes of the
first one already.  What is built is the same as on its own but for the numbers of nodes and
segments and the positions, which are shifted (`Shift`), and for what lies below it at the top of
the document (`Over`).  A step keeps this (`Over.step`), with one exception: an isolated tag
detaches whitespace right before it, and at the beginning of the second template this would be the
first one's.  So the first tag of the second template must not be isolated (`firstTag?`); no step
changes which tag that is.
-/

namespace Stencil

/-- How a document changes where it comes behind another one. -/
structure Shift where
  /-- How far the numbers of its nodes go up. -/
  ids : Nat
  /-- How far the indexes of its segments go up. -/
  segments : Nat
  /-- Where its positions are then. -/
  place : Position → Position

/-- The head of a tag behind another document. -/
def TagHead.shift (σ : Shift) (head : TagHead) : TagHead :=
  { head with segment := head.segment + σ.segments, position := σ.place head.position }

namespace Node

mutual

/-- A node behind another document. -/
def shift (σ : Shift) : Node → Node
  | .text id t position attached => .text (id + σ.ids) t (σ.place position) attached
  | .tag id head closing children =>
    .tag (id + σ.ids) (head.shift σ) (closing.map (· + σ.segments)) (shiftAll σ children)

/-- A row of nodes behind another document. -/
def shiftAll (σ : Shift) : List Node → List Node
  | [] => []
  | n :: rest => shift σ n :: shiftAll σ rest

end

theorem shiftAll_eq_map (σ : Shift) (nodes : List Node) :
    shiftAll σ nodes = nodes.map (shift σ) := by
  induction nodes with
  | nil => rfl
  | cons n rest ih => rw [shiftAll, ih, List.map_cons]

@[simp] theorem isAttached_shift (σ : Shift) (n : Node) :
    (n.shift σ).isAttached = n.isAttached := by
  cases n with
  | text => rfl
  | tag => rfl

/-- The head of a node that is a tag. -/
def head? : Node → Option TagHead
  | .text _ _ _ _ => none
  | .tag _ head _ _ => some head

theorem head?_of_isText {n : Node} (h : n.isText = true) : n.head? = none := by
  cases n with
  | text => rfl
  | tag => cases h

/-- Nodes that belong to nothing are no tags. -/
theorem findSome?_head?_filter (nodes : List Node) :
    (nodes.filter isAttached).findSome? head? = nodes.findSome? head? := by
  induction nodes with
  | nil => rfl
  | cons n rest ih =>
    by_cases hn : n.isAttached = true
    · rw [List.filter_cons_of_pos hn, List.findSome?_cons, List.findSome?_cons, ih]
    · rw [List.filter_cons_of_neg hn, ih, List.findSome?_cons]
      cases n with
      | text => rfl
      | tag => exact absurd rfl hn

end Node

/-- An open tag behind another document. -/
def OpenTag.shift (σ : Shift) (t : OpenTag) : OpenTag :=
  { t with
    id := t.id + σ.ids
    head := t.head.shift σ
    children := t.children.map (Node.shift σ) }

namespace Building

/-! ## The first tag -/

/-- The head of the first tag, be it closed or still open. -/
def firstTag? (b : Building) : Option TagHead :=
  (b.top.reverse.findSome? Node.head?).or (b.stack.getLast?.map OpenTag.head)

theorem firstTag?_attach {b : Building} {head : TagHead} (h : b.firstTag? = some head) (n : Node) :
    (b.attach n).firstTag? = some head := by
  rw [attach]
  split
  · rename_i hstack
    simp only [firstTag?, hstack, List.getLast?_nil, Option.map_none, Option.or_none] at h ⊢
    rw [List.reverse_cons, List.findSome?_append, h]
    rfl
  · rename_i innermost outer hstack
    simp only [firstTag?, hstack] at h ⊢
    cases outer with
    | nil => simpa using h
    | cons t outer => simpa using h

theorem findSome?_head?_detachBlank (nodes : List Node) :
    (detachBlank nodes).reverse.findSome? Node.head? = nodes.reverse.findSome? Node.head? := by
  cases nodes with
  | nil => rfl
  | cons n rest =>
    cases n with
    | text id t position attached => simp [detachBlank, Node.head?, List.findSome?_append]
    | tag id head closing children => rfl

theorem firstTag?_isolate (b : Building) : b.isolate.firstTag? = b.firstTag? := by
  rw [isolate]
  split
  · rename_i hstack
    simp only [firstTag?, hstack, findSome?_head?_detachBlank]
  · rename_i innermost outer hstack
    simp only [firstTag?, hstack]
    cases outer with
    | nil => rfl
    | cons t outer => simp

theorem firstTag?_openTag {b : Building} {head : TagHead} (h : b.firstTag? = some head)
    (name : Text) (own : TagHead) (verbatim : Bool) :
    (b.openTag name own verbatim).firstTag? = some head := by
  simp only [firstTag?, openTag] at h ⊢
  cases hstack : b.stack with
  | nil =>
    rw [hstack, List.getLast?_nil, Option.map_none, Option.or_none] at h
    rw [h]
    rfl
  | cons t outer => simpa [hstack] using h

theorem firstTag?_closeTag {b : Building} {head : TagHead} (h : b.firstTag? = some head)
    (index : Nat) : (b.closeTag index).firstTag? = some head := by
  rw [closeTag]
  split
  · exact h
  · rename_i t outer hstack
    cases outer with
    | nil =>
      -- the tag that is closed now stands after the nodes at the top, where it was sought before
      simp only [firstTag?, attach, hstack, List.reverse_cons, List.findSome?_append] at h ⊢
      simpa [Node.head?] using h
    | cons u outer =>
      simp only [firstTag?, attach, hstack] at h ⊢
      cases outer with
      | nil => simpa using h
      | cons w outer => simpa using h

/-- **No step changes which tag is the first.** -/
theorem firstTag?_step {families : List Family} {b c : Building} {index : Nat} {segment : Segment}
    {head : TagHead} (h : b.firstTag? = some head) (hstep : Step families b index segment c) :
    c.firstTag? = some head := by
  cases hstep with
  | text | verbatim | anonymous => exact firstTag?_attach h _
  | opening =>
    refine firstTag?_openTag ?_ _ _ _
    split
    · rw [firstTag?_isolate]
      exact h
    · exact h
  | closing => exact firstTag?_closeTag h index

theorem firstTag?_addAll {families : List Family} {b c : Building} {index : Nat}
    {segments : List Segment} {head : TagHead} (h : b.firstTag? = some head)
    (hall : b.addAll families index segments = .ok c) : c.firstTag? = some head :=
  addAll_induction (P := fun b => b.firstTag? = some head)
    (fun _ _ _ _ _ hb hstep => firstTag?_step hb hstep) h hall

/-! ## Building over other nodes -/

/-- `c` has been built over the nodes `under` as `b` has been over the nodes `last`, and is shifted
otherwise. -/
structure Over (σ : Shift) (last under : List Node) (b c : Building) : Prop where
  next : c.next = b.next + σ.ids
  stack : c.stack = b.stack.map (OpenTag.shift σ)
  top : ∃ own, b.top = own ++ last ∧ c.top = own.map (Node.shift σ) ++ under

variable {σ : Shift} {last under : List Node} {b c : Building}

theorem Over.stack_eq_nil (h : Over σ last under b c) (hb : b.stack = []) : c.stack = [] := by
  rw [h.stack, hb, List.map_nil]

theorem Over.stack_eq_cons (h : Over σ last under b c) {t : OpenTag} {outer : List OpenTag}
    (hb : b.stack = t :: outer) : c.stack = t.shift σ :: outer.map (OpenTag.shift σ) := by
  rw [h.stack, hb, List.map_cons]

theorem Over.insideVerbatim (h : Over σ last under b c) :
    c.insideVerbatim = b.insideVerbatim := by
  rw [Building.insideVerbatim, Building.insideVerbatim, h.stack]
  cases b.stack with
  | nil => rfl
  | cons t outer => rfl

theorem Over.closesInnermost (h : Over σ last under b c) (name : Text) (key : Value) :
    c.closesInnermost name key = b.closesInnermost name key := by
  rw [Building.closesInnermost, Building.closesInnermost, h.stack]
  cases b.stack with
  | nil => rfl
  | cons t outer => rfl

theorem Over.attach (h : Over σ last under b c) (n : Node) :
    Over σ last under (b.attach n) (c.attach (n.shift σ)) := by
  obtain ⟨own, hb, hc⟩ := h.top
  cases hstack : b.stack with
  | nil =>
    have hstack' := h.stack_eq_nil hstack
    simp only [Building.attach, hstack, hstack']
    exact ⟨h.next, rfl, n :: own, by rw [hb]; rfl, by rw [hc]; rfl⟩
  | cons t outer =>
    have hstack' := h.stack_eq_cons hstack
    simp only [Building.attach, hstack, hstack']
    exact ⟨h.next, rfl, own, hb, hc⟩

theorem Over.addText (h : Over σ last under b c) (t : Text) (position : Position) :
    Over σ last under (b.addText t position) (c.addText t (σ.place position)) := by
  have hattach := h.attach (.text b.next t position true)
  rw [Node.shift, ← h.next] at hattach
  exact ⟨by rw [Building.addText, Building.addText, h.next]; simp only; omega, hattach.stack,
    hattach.top⟩

theorem Over.addAnonymous (h : Over σ last under b c) (head : TagHead) :
    Over σ last under (b.addAnonymous head) (c.addAnonymous (head.shift σ)) := by
  have hattach := h.attach (.tag b.next head none [])
  rw [Node.shift, ← h.next] at hattach
  exact ⟨by rw [Building.addAnonymous, Building.addAnonymous, h.next]; simp only; omega,
    hattach.stack, hattach.top⟩

theorem Over.openTag (h : Over σ last under b c) (name : Text) (head : TagHead) (verbatim : Bool) :
    Over σ last under (b.openTag name head verbatim) (c.openTag name (head.shift σ) verbatim) where
  next := by
    rw [Building.openTag, Building.openTag, h.next]
    simp only
    omega
  stack := by
    rw [Building.openTag, Building.openTag, List.map_cons, h.next, h.stack]
    rfl
  top := h.top

theorem Over.closeTag (h : Over σ last under b c) (index : Nat) :
    Over σ last under (b.closeTag index) (c.closeTag (index + σ.segments)) := by
  cases hstack : b.stack with
  | nil =>
    have hstack' := h.stack_eq_nil hstack
    simpa only [Building.closeTag, hstack, hstack'] using h
  | cons t outer =>
    have hstack' := h.stack_eq_cons hstack
    have hpopped : Over σ last under { b with stack := outer }
        { c with stack := outer.map (OpenTag.shift σ) } := ⟨h.next, rfl, h.top⟩
    have hattach := hpopped.attach (.tag t.id t.head (some index) t.children.reverse)
    rw [Node.shift, Node.shiftAll_eq_map, List.map_reverse] at hattach
    simp only [Building.closeTag, hstack, hstack']
    exact hattach

theorem detachBlank_map_shift (nodes : List Node) :
    detachBlank (nodes.map (Node.shift σ)) = (detachBlank nodes).map (Node.shift σ) := by
  cases nodes with
  | nil => rfl
  | cons n rest => cases n <;> rfl

theorem detachBlank_append {nodes : List Node} (h : nodes ≠ []) (more : List Node) :
    detachBlank (nodes ++ more) = detachBlank nodes ++ more := by
  cases nodes with
  | nil => exact absurd rfl h
  | cons n rest => cases n <;> rfl

/-- Whitespace is detached in the same way, unless it would be sought below. -/
theorem Over.isolate (h : Over σ last under b c) (hown : b.stack ≠ [] ∨ b.top ≠ last) :
    Over σ last under b.isolate c.isolate := by
  obtain ⟨own, hb, hc⟩ := h.top
  cases hstack : b.stack with
  | nil =>
    have hstack' := h.stack_eq_nil hstack
    have hne : own ≠ [] := by
      rintro rfl
      rcases hown with hopen | htop
      · exact hopen hstack
      · exact htop hb
    have hne' : own.map (Node.shift σ) ≠ [] := by simpa using hne
    simp only [Building.isolate, hstack, hstack']
    refine ⟨h.next, rfl, detachBlank own, ?_, ?_⟩
    · rw [hb, detachBlank_append hne]
    · rw [hc, detachBlank_append hne', detachBlank_map_shift]
  | cons t outer =>
    have hstack' := h.stack_eq_cons hstack
    simp only [Building.isolate, hstack, hstack']
    refine ⟨h.next, ?_, own, hb, hc⟩
    rw [List.map_cons, OpenTag.shift, OpenTag.shift, detachBlank_map_shift]

/-- **A step over other nodes is the step on its own**, unless an isolated tag comes first. -/
theorem Over.step {families : List Family} (h : Over σ last under b c) {index : Nat}
    {segment : Segment} {b' : Building} (hstep : Step families b index segment b')
    (hisolated : ∀ name key verbatim raw arguments,
      Tag.read families segment.raw = .ok (some (.opening name key true verbatim raw arguments)) →
      b' = b.isolate.openTag name ⟨some name, key, arguments, raw, index, segment.position⟩
        verbatim → b.stack ≠ [] ∨ b.top ≠ last) :
    ∃ c', Step families c (index + σ.segments) (segment.moved σ.place) c' ∧
      Over σ last under b' c' := by
  cases hstep with
  | text hkind => exact ⟨_, .text hkind, h.addText _ _⟩
  | verbatim hkind hread hopen hinside =>
    refine ⟨_, .verbatim hkind hread (fun name key isolated verbatim htag => ?_) ?_, h.addText _ _⟩
    · rw [h.closesInnermost]
      exact hopen name key isolated verbatim htag
    · rw [h.insideVerbatim]
      exact hinside
  | anonymous hkind hread hinside =>
    exact ⟨_, .anonymous hkind hread (h.insideVerbatim.trans hinside), h.addAnonymous _⟩
  | opening hkind hread hinside =>
    rename_i family name key isolated verbatim raw arguments
    refine ⟨_, .opening hkind hread (h.insideVerbatim.trans hinside), ?_⟩
    cases isolated with
    | false => exact h.openTag _ _ _
    | true =>
      have hown := hisolated name key verbatim raw arguments hread rfl
      exact (h.isolate hown).openTag _ _ _
  | closing hkind hread hcloses =>
    exact ⟨_, .closing hkind hread ((h.closesInnermost _ _).trans hcloses), h.closeTag _⟩

end Building

/-- The families declare isolated the tags that `I` says are. -/
def DeclaresIsolated (I : Value → Text → Bool) (families : List Family) : Prop :=
  ∀ family ∈ families, ∀ spec ∈ family.tags, ∀ name, spec.name = .text name →
    I family.key name = spec.isolated

/-- A tag that is not isolated. -/
def TagHead.Attaches (I : Value → Text → Bool) (head : TagHead) : Prop :=
  ∀ name, head.name = some name → I head.family name = false

namespace Building

variable {σ : Shift} {last under : List Node} {families : List Family}

/-- An isolated tag that is opened first is the first tag. -/
theorem firstTag?_openTag_isolate {b : Building} (hstack : b.stack = [])
    (htexts : ∀ n ∈ b.top, n.isText = true) (name : Text) (head : TagHead) (verbatim : Bool) :
    (b.isolate.openTag name head verbatim).firstTag? = some head := by
  have hnone : b.top.reverse.findSome? Node.head? = none :=
    List.findSome?_eq_none_iff.mpr fun n hn =>
      Node.head?_of_isText (htexts n (List.mem_reverse.mp hn))
  simp only [firstTag?, Building.openTag, isolate, hstack, findSome?_head?_detachBlank, hnone]
  rfl

/-- **Building over other nodes is building on its own**, if the first tag is not isolated. -/
theorem Over.addAll {I : Value → Text → Bool} (hI : DeclaresIsolated I families)
    (hlast : ∀ n ∈ last, n.isText = true) {segments : List Segment} {b c b' : Building}
    {index : Nat} (h : Over σ last under b c) (hall : b.addAll families index segments = .ok b')
    (hfirst : ∀ head, b'.firstTag? = some head → head.Attaches I) :
    ∃ c', c.addAll families (index + σ.segments) (segments.map (Segment.moved σ.place)) = .ok c' ∧
      Over σ last under b' c' := by
  induction segments generalizing b c index with
  | nil =>
    obtain rfl := Except.ok.inj hall
    exact ⟨c, rfl, h⟩
  | cons segment rest ih =>
    rw [Building.addAll] at hall
    cases hadd : b.add families index segment with
    | error fault => simp [hadd] at hall
    | ok next =>
      simp only [hadd] at hall
      have hisolated : ∀ name key verbatim raw arguments,
          Tag.read families segment.raw =
            .ok (some (.opening name key true verbatim raw arguments)) →
          next = b.isolate.openTag name ⟨some name, key, arguments, raw, index, segment.position⟩
            verbatim → b.stack ≠ [] ∨ b.top ≠ last := by
        intro name key verbatim raw arguments hread hnext
        by_cases hstack : b.stack = []
        · refine Or.inr fun htop => ?_
          -- then the tag would be the first one, to the end
          have hopened := firstTag?_openTag_isolate hstack (htop ▸ hlast) name
            ⟨some name, key, arguments, raw, index, segment.position⟩ verbatim
          have hattaches := hfirst _ (firstTag?_addAll (hnext ▸ hopened) hall) name rfl
          obtain ⟨family, hfamily, spec, hspec, hname, rfl, hiso, -⟩ := Tag.read_eq_opening hread
          have hdeclared := hI family hfamily spec hspec name hname
          rw [← hiso] at hdeclared
          exact Bool.false_ne_true (hattaches.symm.trans hdeclared)
        · exact Or.inl hstack
      obtain ⟨c', hc', hover⟩ := h.step (add_eq_ok_iff.mp hadd) hisolated
      obtain ⟨d, hd, hover'⟩ := ih hover hall
      refine ⟨d, ?_, hover'⟩
      rw [List.map_cons, Building.addAll, hc'.add]
      simp only
      rw [show index + σ.segments + 1 = index + 1 + σ.segments by omega]
      exact hd

end Building

/-! ## Documents one after the other -/

/-- The nodes of a document behind those of another one.  A text at the end of the first and one at
the beginning of the second are made one. -/
inductive Document.Behind (σ : Shift) : List Node → List Node → List Node → Prop
  | apart (a b : List Node) : Behind σ a b (a ++ b.map (Node.shift σ))
  | melted (front rest : List Node) (i j : Nat) (t u : Text) (p q : Position) :
      Behind σ (front ++ [.text i t p true]) (.text j u q true :: rest)
        (front ++ .text i (t ++ u) p true :: rest.map (Node.shift σ))

open Building in
/-- **The document of two rows of segments holds the nodes of both documents**, one behind the
other, if the first tag of the second is not isolated. -/
theorem Document.ofSegments_seam {I : Value → Text → Bool} {families : List Family}
    (hI : DeclaresIsolated I families) {sa sb : List Segment} {da db : Document}
    (ha : ofSegments families sa = .ok da) (hb : ofSegments families sb = .ok db)
    (hfirst : ∀ head, db.children.findSome? Node.head? = some head → head.Attaches I)
    (place : Position → Position) :
    ∃ d σ, ofSegments families (Segment.seam sa (sb.map (Segment.moved place))) = .ok d ∧
      σ.place = place ∧ Behind σ da.children db.children d.children := by
  obtain ⟨ba, halla, hstacka, rfl⟩ := ofSegments_eq_ok_iff.mp ha
  obtain ⟨bb, hallb, hstackb, rfl⟩ := ofSegments_eq_ok_iff.mp hb
  have hfirst' : ∀ head, bb.firstTag? = some head → head.Attaches I := by
    intro head hhead
    rw [firstTag?, hstackb, List.getLast?_nil, Option.map_none, Option.or_none] at hhead
    exact hfirst head hhead
  rcases Segment.seam_cases sa (sb.map (Segment.moved place)) with
    ⟨hseam, -⟩ | ⟨front, s, t', rest', rfl, hsb, hs, ht', hseam⟩
  · -- the second document is built over the finished first one
    have hnext := one_le_next (Nat.le_refl 1) halla
    have hover : Over ⟨ba.next - 1, sa.length, place⟩ [] ba.top empty ba :=
      ⟨by rw [empty]; simp only; omega, by rw [hstacka]; rfl, [], rfl, rfl⟩
    obtain ⟨c, hc, hover'⟩ := hover.addAll hI (fun n hn => absurd hn List.not_mem_nil) hallb hfirst'
    obtain ⟨own, hown, htop⟩ := hover'.top
    refine ⟨⟨c.top.reverse, _⟩, ⟨ba.next - 1, sa.length, place⟩,
      ofSegments_eq_ok_iff.mpr ⟨c, ?_, ?_, rfl⟩, rfl, ?_⟩
    · rw [hseam, addAll_append, halla]
      exact hc
    · rw [hover'.stack, hstackb]
      rfl
    · rw [htop, hown, List.append_nil, List.reverse_append, ← List.map_reverse]
      exact .apart _ _
  · -- the text at the seam is built in place of the last one of the first document
    obtain ⟨t, rest, rfl, rfl, rfl⟩ := List.map_eq_cons_iff.mp hsb
    have ht : t.kind = .text := ht'
    rw [addAll_append] at halla
    cases hfront : empty.addAll families 0 front with
    | error fault => simp [hfront] at halla
    | ok bf =>
      have hnext := one_le_next (Nat.le_refl 1) hfront
      rw [hfront] at halla
      simp only [addAll, add, hs, Except.ok.injEq] at halla
      subst halla
      have hstackf : bf.stack = [] := by
        cases hstack : bf.stack with
        | nil => rfl
        | cons o outer => simp [addText, attach, hstack] at hstacka
      have hover : Over ⟨bf.next - 1, front.length, place⟩
          [.text 1 t.raw t.position true]
          (.text bf.next (s.raw ++ t.raw) s.position true :: bf.top)
          (empty.addText t.raw t.position) (bf.addText (s.raw ++ t.raw) s.position) := by
        refine ⟨?_, ?_, [], rfl, ?_⟩
        · simp only [addText, empty]
          omega
        · simp [addText, attach, hstackf, empty]
        · simp [addText, attach, hstackf]
      rw [addAll, show empty.add families 0 t = .ok (empty.addText t.raw t.position) by
        simp only [add, ht]] at hallb
      obtain ⟨c, hc, hover'⟩ := hover.addAll hI
        (fun n hn => by rw [List.mem_singleton.mp hn]; rfl) hallb hfirst'
      obtain ⟨own, hown, htop⟩ := hover'.top
      refine ⟨⟨c.top.reverse, _⟩, ⟨bf.next - 1, front.length, place⟩,
        ofSegments_eq_ok_iff.mpr ⟨c, ?_, ?_, rfl⟩, rfl, ?_⟩
      · rw [hseam, addAll_append, hfront]
        simp only [addAll, add]
        rw [← hc]
        congr 1
        exact Nat.add_right_comm 0 front.length 1
      · rw [hover'.stack, hstackb]
        rfl
      · rw [htop, hown]
        simp only [addText, attach, hstackf, List.reverse_append, List.reverse_cons,
          List.reverse_nil, List.nil_append, List.singleton_append, List.append_assoc,
          ← List.map_reverse]
        exact .melted _ _ _ _ _ _ _ _

end Stencil
