import Mathlib
import Stencil.Proofs.Program.Interchange
import Stencil.Proofs.Standard.Relocation

/-! # Segments without effect

In the standard grammar a comment comes to nothing, and so does whitespace that an isolated tag
detaches.  A row of segments with such a segment in it leads to a document under construction that
is like the one without it, and then to the same fragment or the same fault
(`Standard.ofSegments_comment`, `Standard.ofSegments_blank`).

Both rest on what can be the newest node where no verbatim tag is open: a text, only if the last
segment is that text (`Building.exists_text_of_row`).  So whitespace is detached only if it is the
segment right before the isolated tag.  A comment between the two keeps it: the whitespace is then a
node of its own in front of the comment, it stays, and breaks the chain that the tag would go on
with (`Standard.ofSegments_commentBeforeElse`).
-/

namespace Stencil

open Program

namespace Building

variable {families : List Family} {b b' : Building}

/-- The nodes inside the innermost open tag, or those outside all if none is open, the newest
first. -/
def row (b : Building) : List Node :=
  match b.stack with
  | [] => b.top
  | t :: _ => t.children

/-- The building with other nodes there. -/
def withRow (b : Building) (nodes : List Node) : Building :=
  match b.stack with
  | [] => { b with top := nodes }
  | t :: outer => { b with stack := { t with children := nodes } :: outer }

theorem withRow_row (b : Building) : b.withRow b.row = b := by
  obtain ⟨next, stack, top⟩ := b
  cases stack with
  | nil => rfl
  | cons t outer => rfl

theorem attach_eq_withRow (b : Building) (n : Node) : b.attach n = b.withRow (n :: b.row) := by
  obtain ⟨next, stack, top⟩ := b
  cases stack with
  | nil => rfl
  | cons t outer => rfl

theorem row_attach (b : Building) (n : Node) : (b.attach n).row = n :: b.row := by
  obtain ⟨next, stack, top⟩ := b
  cases stack with
  | nil => rfl
  | cons t outer => rfl

theorem insideVerbatim_attach (b : Building) (n : Node) :
    (b.attach n).insideVerbatim = b.insideVerbatim := by
  obtain ⟨next, stack, top⟩ := b
  cases stack with
  | nil => rfl
  | cons t outer => rfl

theorem isolate_eq_withRow (b : Building) : b.isolate = b.withRow (detachBlank b.row) := by
  obtain ⟨next, stack, top⟩ := b
  cases stack with
  | nil => rfl
  | cons t outer => rfl

/-- Whitespace is detached from a node that has just been added. -/
theorem isolate_attach (b : Building) (n : Node) (next : Nat) :
    { b.attach n with next := next }.isolate =
      { b.withRow (detachBlank (n :: b.row)) with next := next } := by
  obtain ⟨_, stack, top⟩ := b
  cases stack with
  | nil => rfl
  | cons t outer => rfl

/-- **Where the newest node is a text**, and no verbatim tag is open, the last segment is that
text. -/
theorem exists_text_of_row {segments : List Segment}
    (h : empty.addAll families 0 segments = .ok b) (hopen : b.insideVerbatim = false)
    {id : Nat} {t : Text} {position : Position} {attached : Bool}
    (hrow : .text id t position attached ∈ b.row.head?) :
    ∃ segment ∈ segments.getLast?, segment.kind = .text ∧ segment.raw = t := by
  rcases List.eq_nil_or_concat segments with rfl | ⟨front, segment, rfl⟩
  · obtain rfl := Except.ok.inj h
    cases hrow
  · rw [List.concat_eq_append, addAll_append] at h
    cases hfront : empty.addAll families 0 front with
    | error fault => simp [hfront] at h
    | ok before =>
      generalize 0 + front.length = index at h
      simp only [hfront, addAll] at h
      cases hadd : before.add families index segment with
      | error fault => simp [hadd] at h
      | ok after =>
        simp only [hadd, Except.ok.injEq] at h
        subst h
        refine ⟨segment, by simp, ?_⟩
        cases Step.of_add hadd with
        | text hkind =>
          have hnew : (before.addText segment.raw segment.position).row =
              .text before.next segment.raw segment.position true :: before.row :=
            row_attach before _
          rw [hnew] at hrow
          exact ⟨hkind, (Node.text.inj (Option.some.inj hrow)).2.1⟩
        | verbatim hkind hread hclosing hinside =>
          have hstill : (before.addText segment.raw segment.position).insideVerbatim =
              before.insideVerbatim := insideVerbatim_attach before _
          rw [hstill, hinside] at hopen
          cases hopen
        | anonymous hkind hread hinside =>
          rename_i family key raw arguments
          have hnew : (before.addAnonymous ⟨none, key, arguments, raw, index,
              segment.position⟩).row = .tag before.next ⟨none, key, arguments, raw,
                index, segment.position⟩ none [] :: before.row := row_attach before _
          rw [hnew] at hrow
          cases hrow
        | opening hkind hread hinside => cases hrow
        | closing hkind hread hcloses =>
          cases hstack : before.stack with
          | nil => simp [closesInnermost, hstack] at hcloses
          | cons tag outer =>
            rw [closeTag, hstack] at hrow
            simp only [row_attach] at hrow
            cases hrow

variable {registry : Registry}

/-- Other nodes that come to the same make no difference. -/
theorem alike_withRow (b : Building) {x y : List Node} (h : gist registry x = gist registry y) :
    Alike registry (b.withRow x) (b.withRow y) := by
  have hself : ∀ t : OpenTag, OpenTag.Alike registry t t :=
    fun t => ⟨rfl, rfl, ⟨t.head.segment, rfl⟩, rfl⟩
  obtain ⟨next, stack, top⟩ := b
  cases stack with
  | nil => exact ⟨.nil, h⟩
  | cons t outer =>
    have houter : List.Forall₂ (OpenTag.Alike registry) outer outer :=
      List.forall₂_same.mpr fun t _ => hself t
    exact ⟨.cons ⟨rfl, rfl, ⟨t.head.segment, rfl⟩, h⟩ houter, rfl⟩

/-- Detaching whitespace changes nothing if the newest node is no whitespace, or is empty. -/
theorem gist_detachBlank {nodes : List Node}
    (h : ∀ id t position attached, Node.text id t position attached ∈ nodes.head? →
      Text.allBlank t = true → t = []) :
    gist registry (detachBlank nodes) = gist registry nodes := by
  cases nodes with
  | nil => rfl
  | cons n rest =>
    cases n with
    | tag => rfl
    | text id t position attached =>
      rw [detachBlank]
      cases hblank : Text.allBlank t with
      | false => rw [Bool.not_false, Bool.and_true]
      | true =>
        obtain rfl := h id t position attached rfl hblank
        have hempty : ∀ attached : Bool,
            (rule registry []).apply (.text id [] position attached) = .ok [.literal []] :=
          fun _ => rfl
        rw [gist_cons_silent (hempty _) rfl, gist_cons_silent (hempty _) rfl]

end Building

namespace Standard
open Building

/-- A comment as a segment. -/
def commentSegment (inner : Text) (position : Position) : Segment :=
  ⟨.tag (some commentFamily.key), commentFamily.opener ++ (inner ++ commentFamily.closer), position⟩

section

variable [Host]

/-- Whitespace right before an isolated tag. -/
def Detaches (front back : List Segment) : Prop :=
  ∃ w ∈ front.getLast?, w.kind = .text ∧ Text.allBlank w.raw = true ∧ w.raw ≠ [] ∧
    ∃ t ∈ back.head?, t.OpensIsolated registry.ordered

/-- A comment is read as one. -/
theorem read_commentSegment (inner : Text) (position : Position) :
    ∃ raw, Tag.read registry.ordered (commentSegment inner position).raw =
      .ok (some (.anonymous commentFamily.key raw [])) := by
  rw [registry_ordered]
  exact ⟨_, rfl⟩

/-- A comment comes to nothing. -/
theorem gist_comment (id index : Nat) (arguments : Arguments) (raw : Text) (position : Position)
    (nodes : List Node) :
    gist registry
        (.tag id ⟨none, commentFamily.key, arguments, raw, index, position⟩ none [] :: nodes) =
      gist registry nodes := by
  have hsilent : (rule registry []).apply
      (.tag id ⟨none, commentFamily.key, arguments, raw, index, position⟩ none [].reverse) =
        .ok [] := by
    rw [apply_tag, gist_nil]
    dsimp only [whole, Fragment.broken?, Fragment.brokenAfter?]
    rw [ofTag, Registry.handlerFor?, Registry.handler?, registry_handlers]
    rfl
  exact gist_cons_silent hsilent rfl nodes

/-- **A comment makes no difference**, unless it stands between whitespace and an isolated tag: a
row of segments with a comment put in where no verbatim tag is open comes to the same fragment, or
the same fault, as without it. -/
theorem ofSegments_comment (front back : List Segment) (inner : Text) (position : Position)
    (hopen : ∀ b, empty.addAll registry.ordered 0 front = .ok b → b.insideVerbatim = false)
    (hdetaches : ¬ Detaches front back) :
    ofSegments registry (front ++ commentSegment inner position :: back) =
      ofSegments registry (front ++ back) := by
  have hsplit : front ++ commentSegment inner position :: back =
      front ++ [commentSegment inner position] ++ back := by simp
  rw [hsplit]
  refine (ofSegments_congr unplaced ?_).symm
  rw [addAll_append]
  cases hfront : empty.addAll registry.ordered 0 front with
  | error fault => exact .error fault
  | ok b =>
    have hinside := hopen b hfront
    obtain ⟨raw, hread⟩ := read_commentSegment inner position
    have hstep :
        b.add registry.ordered (0 + front.length) (commentSegment inner position) = .ok _ :=
      (Step.anonymous rfl (Or.inl hread) hinside).add
    dsimp only [addAll]
    rw [hstep]
    have hsilent := gist_comment b.next (0 + front.length) [] raw position b.row
    refine .ok ⟨?_, fun t ht hisolated => ?_⟩
    · have halike := alike_withRow b hsilent.symm
      rw [withRow_row, ← attach_eq_withRow] at halike
      exact ⟨halike.stack, halike.top⟩
    · -- what would be detached is no whitespace, or it would precede the isolated tag
      have hdetached : gist registry (detachBlank b.row) = gist registry b.row := by
        refine gist_detachBlank fun id text _ attached hrow hblank => ?_
        by_contra hne
        obtain ⟨w, hw, hkind, rfl⟩ := exists_text_of_row hfront hinside hrow
        exact hdetaches ⟨w, hw, hkind, hblank, hne, t, ht, hisolated⟩
      have halike := alike_withRow b (hdetached.trans hsilent.symm)
      rw [isolate_eq_withRow, addAnonymous, isolate_attach]
      exact ⟨halike.stack, halike.top⟩

end

section

attribute [local instance] Host.usual

/-- A tag of a statement, as a segment of a first line. -/
def statementSegment (raw : String) (offset : Nat) : Segment :=
  ⟨.tag (some statementFamily.key), Text.ofString raw, ⟨offset, 1, offset + 1⟩⟩

/-- A text, as a segment of a first line. -/
def textSegment (raw : String) (offset : Nat) : Segment :=
  ⟨.text, Text.ofString raw, ⟨offset, 1, offset + 1⟩⟩

/-- The segments of a chain that has been begun. -/
def chainStart : List Segment :=
  [statementSegment "\x7bif $a\x7d" 0, textSegment "A" 7, statementSegment "\x7b/if\x7d" 8]

/-- The segments of the end of a chain. -/
def chainEnd : List Segment :=
  [statementSegment "\x7belse\x7d" 21, textSegment "B" 27, statementSegment "\x7b/else\x7d" 28]

/-- The chain of the two. -/
def wholeChain : Fragment :=
  [.branch (.path ['a'] []) [.literal ['A']] ['$', 'a'] (some ⟨0, 1, 1⟩),
    .otherwise [.literal ['B']] (some ⟨21, 1, 22⟩)]

/-- What is built of a chain that has been begun. -/
theorem addAll_chainStart : empty.addAll registry.ordered 0 chainStart =
    .ok ⟨3, [], [.tag 1 ⟨some ['i', 'f'], word "statement", [], ['$', 'a'], 0, ⟨0, 1, 1⟩⟩ (some 2)
      [.text 2 ['A'] ⟨7, 1, 8⟩ true]]⟩ := by
  cbv

/-- A comment between a chain and the whitespace before its end. -/
theorem ofSegments_comment_chained :
    (∀ b, empty.addAll registry.ordered 0 chainStart = .ok b → b.insideVerbatim = false) ∧
      ¬ Detaches chainStart (textSegment " " 13 :: chainEnd) ∧
      ofSegments registry (chainStart ++
        commentSegment (Text.ofString " c ") ⟨13, 1, 14⟩ :: textSegment " " 13 :: chainEnd) =
          .ok wholeChain := by
  have hopen : ∀ b, empty.addAll registry.ordered 0 chainStart = .ok b →
      b.insideVerbatim = false := by
    intro b hb
    obtain rfl := Except.ok.inj (addAll_chainStart.symm.trans hb)
    rfl
  have hdetaches : ¬ Detaches chainStart (textSegment " " 13 :: chainEnd) := by
    rintro ⟨w, hw, hkind, -⟩
    obtain rfl := Option.some.inj hw
    cases hkind
  have hwithout : ofSegments registry (chainStart ++ textSegment " " 13 :: chainEnd) =
      .ok wholeChain := by
    cbv
  exact ⟨hopen, hdetaches, (ofSegments_comment _ _ _ _ hopen hdetaches).trans hwithout⟩

/-- **A comment between whitespace and an isolated tag** keeps the whitespace, which breaks the
chain. -/
theorem ofSegments_commentBeforeElse :
    (∀ b, empty.addAll registry.ordered 0 (chainStart ++ [textSegment " " 13]) = .ok b →
        b.insideVerbatim = false) ∧
      ofSegments registry (chainStart ++ [textSegment " " 13] ++ chainEnd) = .ok wholeChain ∧
      ofSegments registry (chainStart ++ [textSegment " " 13] ++
        commentSegment (Text.ofString " c ") ⟨14, 1, 15⟩ :: chainEnd) =
          .error (.brokenChain ⟨.otherwise, some ⟨21, 1, 22⟩⟩) := by
  refine ⟨fun b hb => ?_, by cbv, by cbv⟩
  rw [addAll_append, addAll_chainStart] at hb
  obtain rfl := Except.ok.inj hb
  rfl

end

/-- **Whitespace before an isolated tag makes no difference**: a row of segments with whitespace put
in before an isolated opening tag, where no verbatim tag is open and no text precedes, comes to the
same fragment, or the same fault, as without it. -/
theorem ofSegments_blank [Host] (front back : List Segment) (w t : Segment)
    (hopen : ∀ b, empty.addAll registry.ordered 0 front = .ok b → b.insideVerbatim = false)
    (hfront : ∀ segment ∈ front.getLast?, segment.isTag = true)
    (hw : w.kind = .text) (hblank : Text.allBlank w.raw = true)
    (ht : t.OpensIsolated registry.ordered) :
    ofSegments registry (front ++ w :: t :: back) = ofSegments registry (front ++ t :: back) := by
  have hsplit : front ++ w :: t :: back = front ++ [w, t] ++ back := by simp
  have hsplit' : front ++ t :: back = front ++ [t] ++ back := by simp
  rw [hsplit, hsplit']
  refine ofSegments_congr unplaced ?_
  rw [addAll_append, addAll_append]
  cases hbuilt : empty.addAll registry.ordered 0 front with
  | error fault => exact .error fault
  | ok b =>
    have hinside := hopen b hbuilt
    have hinside' : (b.addText w.raw w.position).insideVerbatim = false :=
      (insideVerbatim_attach b _).trans hinside
    obtain ⟨name, key, verbatim, raw, arguments, htag, hread⟩ := ht
    have hkind : ∃ family, t.kind = .tag family := by
      rw [Segment.isTag] at htag
      split at htag
      · cases htag
      · exact ⟨_, ‹_›⟩
    obtain ⟨family, hkind⟩ := hkind
    have htext : b.add registry.ordered (0 + front.length) w = .ok (b.addText w.raw w.position) :=
      (Step.text hw).add
    have hstep :
        (b.addText w.raw w.position).add registry.ordered (0 + front.length + 1) t = .ok _ :=
      (Step.opening hkind hread hinside').add
    have hstep' : b.add registry.ordered (0 + front.length) t = .ok _ :=
      (Step.opening hkind hread hinside).add
    dsimp only [addAll]
    rw [htext, hstep']
    dsimp only
    rw [hstep]
    -- there is no other whitespace to detach
    have hdetached : gist registry (detachBlank b.row) = gist registry b.row := by
      refine gist_detachBlank fun id text position attached hrow _ => ?_
      obtain ⟨last, hlast, hkind, -⟩ := exists_text_of_row hbuilt hinside hrow
      have htext := hfront last hlast
      rw [Segment.isTag, hkind] at htext
      cases htext
    have hgone : gist registry (detachBlank (.text b.next w.raw w.position true :: b.row)) =
        gist registry (detachBlank b.row) := by
      rw [hdetached, detachBlank, hblank]
      exact gist_cons_detached rfl b.row
    have halike : Alike registry (b.addText w.raw w.position).isolate b.isolate := by
      have hrow := alike_withRow b hgone
      rw [isolate_eq_withRow b, addText, isolate_attach]
      exact ⟨hrow.stack, hrow.top⟩
    have hopened := halike.openTag name
      ⟨some name, key, arguments, raw, 0 + front.length + 1, t.position⟩ (0 + front.length) verbatim
    exact .ok ⟨hopened.alike, fun _ _ _ => hopened.isolated⟩

attribute [local instance] Host.usual

/-- Whitespace between a chain and its end. -/
theorem ofSegments_blank_chained :
    (∀ b, empty.addAll registry.ordered 0 chainStart = .ok b → b.insideVerbatim = false) ∧
      (∀ segment ∈ chainStart.getLast?, segment.isTag = true) ∧
      (textSegment " " 13).kind = .text ∧ Text.allBlank (textSegment " " 13).raw = true ∧
      (statementSegment "\x7belse\x7d" 21).OpensIsolated registry.ordered ∧
      ofSegments registry (chainStart ++ textSegment " " 13 :: chainEnd) = .ok wholeChain := by
  have hopen : ∀ b, empty.addAll registry.ordered 0 chainStart = .ok b →
      b.insideVerbatim = false := by
    intro b hb
    obtain rfl := Except.ok.inj (addAll_chainStart.symm.trans hb)
    rfl
  have htag : ∀ segment ∈ chainStart.getLast?, segment.isTag = true := by
    intro segment hsegment
    obtain rfl := Option.some.inj hsegment
    rfl
  have helse : (statementSegment "\x7belse\x7d" 21).OpensIsolated registry.ordered := by
    rw [registry_ordered]
    exact ⟨Text.ofString "else", word "statement", false, [], [], rfl, by cbv⟩
  have hwithout : ofSegments registry (chainStart ++ chainEnd) = .ok wholeChain := by cbv
  exact ⟨hopen, htag, rfl, by decide, helse,
    (ofSegments_blank _ _ _ _ hopen htag rfl (by decide) helse).trans hwithout⟩

end Standard
end Stencil
