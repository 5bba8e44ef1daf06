import Mathlib.Data.List.Forall2
import Stencil.Proofs.Program.Gist

/-! # Buildings that come to the same

Two documents under construction are **alike** (`Building.Alike`) if the same tags are open in them
and what has been built inside each open tag and outside all comes to the same; nodes may differ in
number, and in their numbers and places.  A further segment is then added to both or refused by both
with the same fault, and they stay alike (`Alike.add`).  So whatever follows, it leads to the same
fragment or to the same fault (`Alike.addAll`, `Program.ofSegments_congr`).

The one thing that building looks for in a row of nodes is whitespace right before an isolated tag.
Nodes that come to the same may differ in it; but after one more segment the newest nodes of the two
buildings correspond to each other again.  So likeness has to be asked for before and after
whitespace is detached only at the first segment, and only if that opens an isolated tag
(`Alike.add` gives both).
-/

namespace Stencil

/-- A segment that opens an isolated tag. -/
def Segment.OpensIsolated (families : List Family) (segment : Segment) : Prop :=
  ∃ name key verbatim raw arguments, segment.isTag = true ∧
    Tag.read families segment.raw = .ok (some (.opening name key true verbatim raw arguments))

open Program Building

variable {registry : Registry}

/-! ## Nodes in the place of others -/

/-- Nodes that can stand in each other's place: rows that come to the same do so with one of them
put in front of each, and also if it is detached there when it is whitespace. -/
def Node.Exchanges (registry : Registry) (n m : Node) : Prop :=
  ∀ x y : List Node, gist registry x = gist registry y →
    gist registry (n :: x) = gist registry (m :: y) ∧
      gist registry (detachBlank (n :: x)) = gist registry (detachBlank (m :: y))

theorem Node.exchanges_text (i j : Nat) (t : Text) (p : Position) :
    Node.Exchanges registry (.text i t p true) (.text j t p true) := by
  have hattached : ∀ (attached : Bool) (x y : List Node), gist registry x = gist registry y →
      gist registry (.text i t p attached :: x) = gist registry (.text j t p attached :: y) := by
    intro attached x y h
    cases attached with
    | false => rw [gist_cons_detached rfl, gist_cons_detached rfl, h]
    | true =>
      rw [gist_cons rfl, gist_cons rfl, h]
      rfl
  exact fun x y h => ⟨hattached true x y h, hattached _ x y h⟩

/-- Tags can stand in each other's place if they differ only in where they stand and the nodes
inside come to the same. -/
theorem Node.exchanges_tag (hplace : registry.Unplaced) (i j : Nat) (head : TagHead) (index : Nat)
    (closing closing' : Option Nat) {inside inside' : List Node}
    (h : gist registry inside = gist registry inside') :
    Node.Exchanges registry (.tag i head closing inside.reverse)
      (.tag j { head with segment := index } closing' inside'.reverse) := by
  have hsame : (rule registry []).apply (.tag i head closing inside.reverse) =
      (rule registry []).apply
        (.tag j { head with segment := index } closing' inside'.reverse) := by
    rw [apply_tag, apply_tag, h]
    cases gist registry inside' with
    | error fault => rfl
    | ok f =>
      dsimp only
      cases whole f with
      | error fault => rfl
      | ok inner => exact (hplace head _ _ index inner).symm
  intro x y hrows
  have hfront : gist registry (.tag i head closing inside.reverse :: x) =
      gist registry (.tag j { head with segment := index } closing' inside'.reverse :: y) := by
    rw [gist_cons rfl, gist_cons rfl, hrows, hsame]
  exact ⟨hfront, hfront⟩

/-! ## Likeness -/

/-- Open tags that differ only in where they stand, the nodes inside coming to the same. -/
structure OpenTag.Alike (registry : Registry) (t u : OpenTag) : Prop where
  name : t.name = u.name
  verbatim : t.verbatim = u.verbatim
  head : ∃ index, u.head = { t.head with segment := index }
  inside : gist registry t.children = gist registry u.children

namespace Building

/-- Documents under construction in which the same tags are open, the nodes of each and those
outside all coming to the same. -/
structure Alike (registry : Registry) (b c : Building) : Prop where
  stack : List.Forall₂ (OpenTag.Alike registry) b.stack c.stack
  top : gist registry b.top = gist registry c.top

/-- Documents under construction that are alike, and also once whitespace is detached that would
precede an isolated tag. -/
structure Steady (registry : Registry) (b c : Building) : Prop where
  alike : Alike registry b c
  isolated : Alike registry b.isolate c.isolate

variable {families : List Family} {b c : Building}

theorem Alike.insideVerbatim (h : Alike registry b c) : b.insideVerbatim = c.insideVerbatim := by
  obtain ⟨next, stack, top⟩ := b
  obtain ⟨next', stack', top'⟩ := c
  rcases h.stack with _ | ⟨ht, -⟩
  · rfl
  · exact ht.verbatim

theorem Alike.innermostName? (h : Alike registry b c) : b.innermostName? = c.innermostName? := by
  obtain ⟨next, stack, top⟩ := b
  obtain ⟨next', stack', top'⟩ := c
  rcases h.stack with _ | ⟨ht, -⟩
  · rfl
  · exact congrArg some ht.name

theorem Alike.closesInnermost (h : Alike registry b c) (name : Text) (key : Value) :
    b.closesInnermost name key = c.closesInnermost name key := by
  obtain ⟨next, stack, top⟩ := b
  obtain ⟨next', stack', top'⟩ := c
  rcases h.stack with _ | ⟨ht, -⟩
  · rfl
  · obtain ⟨index, hhead⟩ := ht.head
    simp only [Building.closesInnermost, List.head?_cons, Option.any_some, closes, hhead, ht.name]

/-- The numbers of the nodes to come do not matter. -/
theorem Steady.renumber (h : Steady registry b c) (i j : Nat) :
    Steady registry { b with next := i } { c with next := j } := by
  obtain ⟨next, stack, top⟩ := b
  obtain ⟨next', stack', top'⟩ := c
  obtain ⟨⟨hstack, htop⟩, ⟨hstack', htop'⟩⟩ := h
  cases stack with
  | nil =>
    cases hstack
    exact ⟨⟨.nil, htop⟩, ⟨.nil, htop'⟩⟩
  | cons t outer =>
    cases hstack with
    | cons ht houter => exact ⟨⟨.cons ht houter, htop⟩, ⟨hstack', htop'⟩⟩

/-- Nodes that can stand in each other's place are added. -/
theorem Alike.attach (h : Alike registry b c) {n m : Node} (hnm : Node.Exchanges registry n m) :
    Steady registry (b.attach n) (c.attach m) := by
  obtain ⟨next, stack, top⟩ := b
  obtain ⟨next', stack', top'⟩ := c
  obtain ⟨hstack, htop⟩ := h
  cases hstack with
  | nil =>
    obtain ⟨hfront, hdetached⟩ := hnm _ _ htop
    exact ⟨⟨.nil, hfront⟩, ⟨.nil, hdetached⟩⟩
  | cons ht houter =>
    obtain ⟨hfront, hdetached⟩ := hnm _ _ ht.inside
    exact ⟨⟨.cons ⟨ht.name, ht.verbatim, ht.head, hfront⟩ houter, htop⟩,
      ⟨.cons ⟨ht.name, ht.verbatim, ht.head, hdetached⟩ houter, htop⟩⟩

theorem Alike.addText (h : Alike registry b c) (t : Text) (position : Position) :
    Steady registry (b.addText t position) (c.addText t position) :=
  (h.attach (Node.exchanges_text b.next c.next t position)).renumber _ _

theorem Alike.addAnonymous (hplace : registry.Unplaced) (h : Alike registry b c) (head : TagHead)
    (index : Nat) :
    Steady registry (b.addAnonymous head) (c.addAnonymous { head with segment := index }) := by
  have hinside : gist registry [] = gist registry [] := rfl
  exact (h.attach (Node.exchanges_tag hplace b.next c.next head index none none hinside)).renumber _ _

theorem Alike.openTag (h : Alike registry b c) (name : Text) (head : TagHead) (index : Nat)
    (verbatim : Bool) :
    Steady registry (b.openTag name head verbatim)
      (c.openTag name { head with segment := index } verbatim) := by
  have hopened : Alike registry (b.openTag name head verbatim)
      (c.openTag name { head with segment := index } verbatim) :=
    ⟨.cons ⟨rfl, rfl, ⟨index, rfl⟩, rfl⟩ h.stack, h.top⟩
  -- there is nothing in the new tag that could be detached
  exact ⟨hopened, hopened⟩

theorem Alike.closeTag (hplace : registry.Unplaced) (h : Alike registry b c) (hopen : b.stack ≠ [])
    (i j : Nat) : Steady registry (b.closeTag i) (c.closeTag j) := by
  obtain ⟨next, stack, top⟩ := b
  obtain ⟨next', stack', top'⟩ := c
  obtain ⟨hstack, htop⟩ := h
  cases hstack with
  | nil => exact absurd rfl hopen
  | @cons t u outer outer' ht houter =>
    obtain ⟨index, hhead⟩ := ht.head
    have houtside : Alike registry ⟨next, outer, top⟩ ⟨next', outer', top'⟩ := ⟨houter, htop⟩
    have hnodes := Node.exchanges_tag hplace t.id u.id t.head index (some i) (some j) ht.inside
    rw [← hhead] at hnodes
    exact houtside.attach hnodes

/-! ## Steps and runs -/

/-- Two results that are the same fault, or related. -/
inductive Matches {ε α β : Type} (related : α → β → Prop) : Except ε α → Except ε β → Prop
  | error (fault : ε) : Matches related (.error fault) (.error fault)
  | ok {a : α} {b : β} (h : related a b) : Matches related (.ok a) (.ok b)

/-- **One more segment** is added to both of two documents under construction that are alike, or
refused by both. -/
theorem Alike.add (hplace : registry.Unplaced) (h : Alike registry b c) {segment : Segment}
    (hisolated : segment.OpensIsolated families → Alike registry b.isolate c.isolate) (i j : Nat) :
    Matches (Steady registry) (b.add families i segment) (c.add families j segment) := by
  rw [Building.add, Building.add]
  cases hkind : segment.kind with
  | text => exact .ok (h.addText _ _)
  | tag family =>
    simp only [addReading]
    cases hread : Tag.read families segment.raw with
    | error fault => exact .error _
    | ok tag =>
      cases tag with
      | none =>
        simp only [h.insideVerbatim]
        split
        · exact .ok (h.addText _ _)
        · cases hanonymous : Tag.readAnonymous families family segment.raw with
          | error fault => exact .error _
          | ok tag =>
            obtain ⟨f, arguments, rfl⟩ := Tag.readAnonymous_eq_ok hanonymous
            exact .ok (h.addAnonymous hplace _ j)
      | some tag =>
        cases tag with
        | anonymous key raw arguments =>
          simp only [h.insideVerbatim]
          split
          · exact .ok (h.addText _ _)
          · exact .ok (h.addAnonymous hplace _ j)
        | opening name key isolated verbatim raw arguments =>
          simp only [h.insideVerbatim]
          split
          · exact .ok (h.addText _ _)
          · cases isolated with
            | false => exact .ok (h.openTag name _ j verbatim)
            | true =>
              have htag : segment.isTag = true := by rw [Segment.isTag, hkind]
              have hdetached := hisolated ⟨name, key, verbatim, raw, arguments, htag, hread⟩
              exact .ok (hdetached.openTag name _ j verbatim)
        | closing name key isolated verbatim =>
          simp only [h.closesInnermost, h.insideVerbatim, h.innermostName?]
          split
          · rename_i hcloses
            have hopen : b.stack ≠ [] := by
              intro hnil
              rw [← h.closesInnermost, Building.closesInnermost, hnil] at hcloses
              cases hcloses
            exact .ok (h.closeTag hplace hopen i j)
          · split
            · exact .ok (h.addText _ _)
            · exact .error _

/-- **A row of segments** leads from documents under construction that are alike to such that are
alike, or is refused by both with the same fault. -/
theorem Alike.addAll (hplace : registry.Unplaced) {segments : List Segment}
    (h : Alike registry b c)
    (hfirst : ∀ segment ∈ segments.head?, segment.OpensIsolated families →
      Alike registry b.isolate c.isolate) (i j : Nat) :
    Matches (Alike registry) (b.addAll families i segments) (c.addAll families j segments) := by
  induction segments generalizing b c i j with
  | nil => exact .ok h
  | cons segment rest ih =>
    have hstep := h.add hplace (hfirst segment rfl) i j
    rw [Building.addAll, Building.addAll]
    generalize b.add families i segment = result at hstep
    generalize c.add families j segment = result' at hstep
    cases hstep with
    | error fault => exact .error fault
    | ok hnext => exact ih hnext.alike (fun _ _ _ => hnext.isolated) (i + 1) (j + 1)

end Building

/-- **The same segments behind rows that come to the same** come to the same. -/
theorem Program.ofSegments_congr (hplace : registry.Unplaced) {front front' back : List Segment}
    (h : Matches
      (fun b c => Alike registry b c ∧ ∀ segment ∈ back.head?,
        segment.OpensIsolated registry.ordered → Alike registry b.isolate c.isolate)
      (empty.addAll registry.ordered 0 front) (empty.addAll registry.ordered 0 front')) :
    ofSegments registry (front ++ back) = ofSegments registry (front' ++ back) := by
  rw [ofSegments_eq hplace, ofSegments_eq hplace, addAll_append, addAll_append]
  generalize empty.addAll registry.ordered 0 front = result at h
  generalize empty.addAll registry.ordered 0 front' = result' at h
  cases h with
  | error fault => rfl
  | @ok b c h =>
    obtain ⟨halike, hfirst⟩ := h
    have hrun := halike.addAll hplace hfirst (0 + front.length) (0 + front'.length)
    dsimp only
    generalize b.addAll registry.ordered (0 + front.length) back = result at hrun
    generalize c.addAll registry.ordered (0 + front'.length) back = result' at hrun
    cases hrun with
    | error fault => rfl
    | @ok b' c' hend =>
      obtain ⟨next, stack, top⟩ := b'
      obtain ⟨next', stack', top'⟩ := c'
      obtain ⟨hstack, htop⟩ := hend
      cases hstack with
      | nil => simp only [htop]
      | cons ht houter =>
        obtain ⟨index, hhead⟩ := ht.head
        simp only [ht.name, hhead]

end Stencil
