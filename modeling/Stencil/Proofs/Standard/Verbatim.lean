import Stencil.Proofs.Source.Excerpt
import Stencil.Proofs.Standard.Correctness
import Stencil.Proofs.Standard.Faults
import Stencil.Proofs.Standard.Relocation

/-! # Verbatim tags

What stands between the tags of a literal is not read as tags.  But templates are cut into pieces
before tags are matched, so it has to consist of pieces.  A text in which no closing tag of a
literal is begun can be put into a literal exactly if it can be cut into pieces on its own, and then
the literal gives the text as it is (`compile_inLiteral_iff`).  A text that ends inside a tag takes
the closing tag with it, even if this tag is nothing but a brace (`compile_inLiteral_brace`).

In one direction the pieces of the text are pieces of the template, none of which closes the
literal, as a tag that does has the `mark` in it (`raw_of_closedBy`).  In the other direction the
literal is closed somewhere; that is where the mark is, so the text ends there (`eq_of_mark`), and
what is a piece in the template is a piece in the text (`cut_excerpt`).
-/

namespace Stencil
namespace Standard
open Document Fragment
open Segment (Reads)

/-! ## The tags of a literal -/

def openingTag : Text := Text.ofString "\x7bliteral\x7d"

def closingTag : Text := Text.ofString "\x7b/literal\x7d"

/-- A text between the tags of a literal. -/
def inLiteral (t : Text) : Text := openingTag ++ (t ++ closingTag)

/-- What every tag that closes a literal has in it. -/
def mark : Text := Text.ofString "/literal"

/-- What the opening tag of a literal is read as at the beginning of a template. -/
def literalTag : Opening :=
  ⟨⟨.tag (some (word "statement")), openingTag, .start⟩, Text.ofString "literal", word "statement",
    false, true, [], []⟩

theorem cut_openingTag : Segment.cut families openingTag = .ok [literalTag.segment] := by cbv

theorem cut_closingTag :
    Segment.cut families closingTag =
      .ok [⟨.tag (some (word "statement")), closingTag, .start⟩] := by cbv

theorem read_openingTag :
    Tag.read families openingTag =
      .ok (some (.opening literalTag.name literalTag.family false true [] [])) := by cbv

theorem read_closingTag :
    Tag.read families closingTag =
      .ok (some (.closing literalTag.name literalTag.family false true)) := by cbv

/-- The opening tag is the first piece of every template that begins with it. -/
theorem cut_openingTag_append (t : Text) :
    Segment.cut families (openingTag ++ t) =
      (Segment.cutFrom families (Position.start.advance openingTag) t).map
        (literalTag.segment :: ·) := by
  have hsplit : openingTag ++ t = [] ++
      (statementFamily.opener ++ Text.ofString "literal" ++ statementFamily.closer) ++ t := rfl
  exact Segment.cutFrom_of_tag hsplit rfl rfl .start

theorem eq_reading_of_reads {r : Reading} (h : Reads families literalTag.segment r) :
    r = literalTag.reading := by
  cases h with
  | text hkind => cases hkind
  | tag hkind hread =>
    obtain rfl := Option.some.inj (Except.ok.inj (hread.symm.trans read_openingTag))
    rfl
  | anonymous hkind hread hanonymous => cases hread.symm.trans read_openingTag

/-- A tag that is written as a closing tag closes a literal. -/
theorem closedBy_of_reads {r : Reading} {key : Option Value} (hkind : r.segment.kind = .tag key)
    (hraw : r.segment.raw = closingTag) (hread : Reads families r.segment r) :
    literalTag.closedBy r = true := by
  have hclosing := hraw ▸ read_closingTag
  obtain ⟨segment, tag⟩ := r
  cases hread with
  | text htext => cases hkind.symm.trans htext
  | tag _ hread =>
    obtain rfl := Option.some.inj (Except.ok.inj (hread.symm.trans hclosing))
    rfl
  | anonymous _ hread _ => cases hread.symm.trans hclosing

/-- A tag that closes a literal is a brace with the mark behind it, but for whitespace. -/
theorem raw_of_closedBy {r : Reading} (hread : Reads families r.segment r)
    (h : literalTag.closedBy r = true) :
    ∃ blanks rest, Text.allBlank blanks = true ∧
      r.segment.raw = '\x7b' :: (blanks ++ (mark ++ rest)) := by
  obtain ⟨name, key, isolated, verbatim, htag⟩ := Opening.eq_closing_of_closedBy h
  simp only [Opening.closedBy, htag, Bool.and_eq_true, beq_iff_eq] at h
  obtain ⟨rfl, -⟩ := h
  obtain ⟨_, read, -, hread, rfl | ⟨-, -, _, _, _, heq⟩⟩ := Segment.read_of_reads hread htag
  · obtain ⟨family, hnext, hnames, hmark⟩ := Tag.read_eq_closing hread
    obtain ⟨hfirst, -⟩ := Family.next?_eq_some_iff.mp hnext
    obtain rfl : family = statementFamily := by
      rcases mem_families.mp hfirst.mem with rfl | rfl | rfl
      · cases hnames
      · cases hnames
      · rfl
    obtain ⟨more, hmore⟩ := hfirst.occursAt
    have hraw : r.segment.raw = '\x7b' :: more := hmore.symm
    have hinner : Tag.inner statementFamily r.segment.raw <+: more := by
      rw [Tag.inner, hraw]
      exact (List.take_prefix _ ('\x7b' :: more)).drop 1
    generalize Tag.inner statementFamily r.segment.raw = t at hmark hinner
    obtain ⟨rest, hrest⟩ : mark <+: Text.trimStart t := hmark.trans (Text.trimEnd_isPrefix _)
    obtain ⟨behind, hbehind⟩ := hinner
    -- nothing but whitespace is trimmed off in front of the mark
    have ht : t = t.takeWhile Text.isBlank ++ (mark ++ rest) := by
      rw [hrest]
      exact List.takeWhile_append_dropWhile.symm
    have hblanks : Text.allBlank (t.takeWhile Text.isBlank) = true :=
      List.all_eq_true.mpr fun c hc => List.mem_takeWhile_imp hc
    refine ⟨t.takeWhile Text.isBlank, rest ++ behind, hblanks, ?_⟩
    rw [hraw, ← hbehind, ← List.append_assoc mark, ← List.append_assoc, ← ht]
  · cases heq

/-- With a closing tag behind a text without mark, there is a mark behind the brace of the tag
only. -/
theorem eq_of_occursAt_mark {t : Text} (ht : ¬ mark <:+: t) {k : Nat}
    (h : Text.OccursAt mark (t ++ closingTag) k) : k = (t ++ ['\x7b']).length := by
  have hclosing : closingTag = '\x7b' :: (mark ++ ['\x7d']) := rfl
  rw [hclosing] at h
  rcases h.of_append_cons (by decide) with hinside | hbehind
  · exact absurd (hinside.isInfix.trans (List.drop_suffix k t).isInfix) ht
  · obtain ⟨j, hj⟩ := Nat.exists_eq_add_of_lt hbehind
    have hk : k = (t ++ ['\x7b']).length + j := by
      rw [List.length_append, List.length_singleton]
      omega
    rw [hk, List.append_cons, Text.occursAt_append] at h
    have hle : j + 8 ≤ 9 := h.add_length_le (by decide)
    obtain rfl | rfl : j = 0 ∨ j = 1 := by omega
    · exact hk
    · exact absurd h (show ¬ mark <+: (mark ++ ['\x7d']).drop 1 by decide)

/-- Where the literal is closed, its text ends. -/
theorem eq_of_mark {t before blanks rest : Text} (ht : ¬ mark <:+: t)
    (hblanks : Text.allBlank blanks = true)
    (h : before ++ '\x7b' :: (blanks ++ (mark ++ rest)) = t ++ closingTag) : before = t := by
  have hfront : (before ++ '\x7b' :: blanks) ++ (mark ++ rest) = t ++ closingTag := by
    rw [List.append_assoc, List.cons_append, h]
  have hoccurs : Text.OccursAt mark (t ++ closingTag) (before ++ '\x7b' :: blanks).length := by
    rw [← hfront, Text.OccursAt, List.drop_left]
    exact List.prefix_append mark rest
  have hlength := eq_of_occursAt_mark ht hoccurs
  have hclosing : t ++ closingTag = (t ++ ['\x7b']) ++ (mark ++ ['\x7d']) :=
    List.append_cons t '\x7b' (mark ++ ['\x7d'])
  obtain ⟨hbefore, -⟩ := List.append_inj (hfront.trans hclosing) hlength
  rcases List.eq_nil_or_concat' blanks with rfl | ⟨more, c, rfl⟩
  · exact (List.append_inj' hbefore rfl).1
  · -- the brace of the closing tag is no whitespace
    rw [← List.cons_append, ← List.append_assoc] at hbefore
    obtain rfl := List.singleton_inj.mp (List.append_inj' hbefore rfl).2
    simp [Text.allBlank, Text.isBlank] at hblanks

/-! ## Compiling -/

/-- The pieces of a text are pieces of the literal that it is put into. -/
theorem cut_inLiteral {t : Text} {inside : List Segment}
    (h : Segment.cut families t = .ok inside) :
    ∃ within closing, Segment.cut families (inLiteral t) =
        .ok (literalTag.segment :: (within ++ [closing])) ∧
      Segment.joined within = t ∧ closing.kind = .tag (some (word "statement")) ∧
      closing.raw = closingTag := by
  have hopening : ∀ s ∈ [literalTag.segment].getLast?, s.kind ≠ .text := by
    rintro s ⟨⟩
    exact Segment.Kind.noConfusion
  have hclosing : ∀ place : Position → Position, ∀ s ∈ ([⟨.tag (some (word "statement")),
      closingTag, .start⟩].map (Segment.moved place)).head?, s.kind ≠ .text := by
    rintro place s ⟨⟩
    exact Segment.Kind.noConfusion
  have hrest := Segment.cut_append separable h cut_closingTag
  rw [Segment.seam_eq_append (Or.inr (hclosing _))] at hrest
  have hwhole := Segment.cut_append separable cut_openingTag hrest
  rw [Segment.seam_eq_append (Or.inl hopening), List.map_append] at hwhole
  refine ⟨_, _, hwhole, ?_, rfl, rfl⟩
  rw [Segment.joined_map_moved]
  exact (Segment.laid_of_cut h).1

/-- What is read in front of the closing tag of a literal does not close it. -/
theorem closedBy_eq_false {t : Text} (ht : ¬ mark <:+: t) {segments : List Segment}
    (hjoined : Segment.joined segments = t) {r : Reading} (hr : r.segment ∈ segments)
    (hread : Reads families r.segment r) : literalTag.closedBy r = false := by
  refine eq_false_of_ne_true fun hcloses => ht ?_
  obtain ⟨blanks, rest, -, hraw⟩ := raw_of_closedBy hread hcloses
  have hmark : mark <:+: r.segment.raw := by
    rw [hraw]
    exact ⟨'\x7b' :: blanks, rest, by simp⟩
  have hinside := Segment.raw_isInfix_joined hr
  rw [hjoined] at hinside
  exact hmark.trans hinside

/-- The document of a literal has the pieces of its text as texts. -/
theorem ofSegments_inLiteral {t : Text} (ht : ¬ mark <:+: t) {pieces : List Segment}
    (h : Segment.cut families t = .ok pieces) :
    ∃ segments inside, Segment.cut families (inLiteral t) = .ok segments ∧
      Segment.joined (inside.map Reading.segment) = t ∧
      ofSegments families segments =
        .ok ⟨[.tag 1 (literalTag.head 0) (some (1 + inside.length)) (Reading.texts 2 inside)],
          segments⟩ := by
  obtain ⟨within, last, hcut, hjoined, hkind, hraw⟩ := cut_inLiteral h
  obtain ⟨readings, hall⟩ := Segment.exists_readAll wellFormed_families hcut
  have hread : ∀ r ∈ readings, Reads families r.segment r :=
    fun r hr => (Segment.reads_of_mem_readAll hall hr).2
  have hsegments := Segment.map_segment_of_readAll hall
  obtain ⟨first, more, rfl, hfirst, hmore⟩ := List.map_eq_cons_iff.mp hsegments
  obtain ⟨inside, final, rfl, rfl, hfinal⟩ := List.map_eq_append_iff.mp hmore
  obtain ⟨closing, rfl, rfl⟩ := List.map_eq_singleton_iff.mp hfinal
  obtain ⟨hopening, hrest⟩ := List.forall_mem_cons.mp hread
  obtain ⟨hinside, hclosing⟩ := List.forall_mem_append.mp hrest
  obtain rfl := eq_reading_of_reads (hfirst ▸ hopening)
  have hcloses : literalTag.closedBy closing = true :=
    closedBy_of_reads hkind hraw (hclosing closing List.mem_cons_self)
  have hnone : ∀ r ∈ inside, literalTag.closedBy r = false := fun r hr =>
    closedBy_eq_false ht hjoined (List.mem_map_of_mem hr) (hinside r hr)
  -- the template is read off one verbatim item
  have hitem : Item.readingsAll [.verbatim literalTag rfl inside hnone closing hcloses] =
      literalTag.reading :: (inside ++ [closing]) := List.append_nil _
  refine ⟨_, inside, hcut, hjoined, ?_⟩
  exact Follows.ofSegments_eq wellFormed_families hread hsegments ⟨_, hitem, rfl⟩

theorem map_textOf_texts (id : Nat) (readings : List Reading) :
    (Reading.texts id readings).map textOf = readings.map fun r => r.segment.raw := by
  induction readings generalizing id with
  | nil => rfl
  | cons r rest ih => rw [Reading.texts, List.map_cons, List.map_cons, ih, textOf]

section

variable [Host]

/-- The handler of a literal leaves what is inside as it is. -/
theorem ofTag_literalTag (index : Nat) (enclosed : List Segment) (inner : Fragment) :
    Program.ofTag registry ⟨literalTag.head index, enclosed⟩ inner = .ok inner := by
  rw [Program.ofTag, Registry.handlerFor?, Registry.handler?, registry_handlers]
  rfl

/-- What a literal is compiled to. -/
theorem compile_inLiteral {t : Text} (ht : ¬ mark <:+: t) {pieces : List Segment}
    (h : Segment.cut families t = .ok pieces) :
    Program.compile registry (inLiteral t) = .ok (glue t []) := by
  obtain ⟨segments, inside, hcut, hjoined, hbuild⟩ := ofSegments_inLiteral ht h
  have htexts : (Program.rule registry segments).applyAll (Reading.texts 2 inside) =
      .ok ((inside.map fun r => r.segment.raw).map fun t => [.literal t]) := by
    rw [applyAll_texts segments, ← map_textOf_texts 2 inside, List.map_map]
    · rfl
    · intro n hn
      obtain ⟨i, u, position, rfl⟩ := Reading.eq_text_of_mem_texts hn
      rfl
    · intro n hn
      obtain ⟨i, u, position, rfl⟩ := Reading.eq_text_of_mem_texts hn
      rfl
  have hflatten : (inside.map fun r => r.segment.raw).flatten = t := by
    rw [← hjoined, Segment.joined, List.flatMap_map, List.flatMap_def]
  have hnode : (Program.rule registry segments).apply
      (.tag 1 (literalTag.head 0) (some (1 + inside.length)) (Reading.texts 2 inside)) =
        .ok (glue t []) := by
    rw [Rule.apply, htexts]
    dsimp only [Program.rule]
    rw [joinAll_literals, hflatten]
    exact ofTag_literalTag 0 _ _
  refine compile_eq_ok_iff.mpr ⟨segments, _, [glue t []], hcut, hbuild, ?_, ?_⟩
  · rw [Rule.applyAll, hnode]
    rfl
  · cases t <;> rfl

/-- A literal gives its text. -/
theorem render_glue (t : Text) (data : Value) :
    Machine.render (glue t []) data = .ok t := by
  have hwhole : brokenAfter? (some (.literal t)) [] = none := rfl
  rw [Machine.render_eq_semantics, Semantics.render, Semantics.run_glue _ _ _ hwhole,
    Semantics.run_literal]
  simp [Semantics.followedBy, Semantics.run]

/-! ## Only texts that can be cut -/

/-- A template that begins with a literal has the pieces of the literal's text in front of the tag
that closes it. -/
theorem exists_pieces_of_parse {t : Text} {document : Document}
    (h : Program.parse registry (openingTag ++ t) = .ok document) :
    ∃ inside closing rest, Segment.cut families (openingTag ++ t) =
        .ok ([literalTag.segment] ++ (inside ++ (closing.segment :: rest))) ∧
      Reads families closing.segment closing ∧ literalTag.closedBy closing = true := by
  obtain ⟨items, hcut, hreadings, -⟩ := exists_items_of_parse registry_made h
  rw [registry_ordered] at hcut hreadings
  obtain ⟨more, hmore⟩ : ∃ more, document.segments = literalTag.segment :: more := by
    rw [cut_openingTag_append] at hcut
    cases hrest : Segment.cutFrom families (Position.start.advance openingTag) t with
    | error fault => simp [hrest, Except.map] at hcut
    | ok more =>
      rw [hrest] at hcut
      exact ⟨more, (Except.ok.inj hcut).symm⟩
  rw [hmore] at hcut hreadings
  obtain ⟨first, later, hfirst, -, hitems⟩ := Segment.readAll_cons_eq_ok hreadings
  obtain rfl := eq_reading_of_reads hfirst
  obtain ⟨inside, closing, rest, hcloses, rfl⟩ := Item.exists_of_verbatim rfl hitems
  rw [hitems] at hreadings
  have hsegments := Segment.map_segment_of_readAll hreadings
  rw [List.map_cons, List.map_append, List.map_cons] at hsegments
  have hmem : closing ∈ literalTag.reading :: (inside ++ closing :: Item.readingsAll rest) :=
    List.mem_cons_of_mem _ (List.mem_append_right _ List.mem_cons_self)
  refine ⟨inside.map Reading.segment, closing, (Item.readingsAll rest).map Reading.segment, ?_,
    (Segment.reads_of_mem_readAll hreadings hmem).2, hcloses⟩
  rw [hcut, ← hsegments]
  rfl

/-- A text that can be put into a literal can be cut into pieces. -/
theorem exists_cut_of_parse {t : Text} (ht : ¬ mark <:+: t) {document : Document}
    (h : Program.parse registry (inLiteral t) = .ok document) :
    ∃ pieces, Segment.cut families t = .ok pieces := by
  obtain ⟨inside, closing, rest, hcut, hread, hcloses⟩ := exists_pieces_of_parse h
  obtain ⟨hjoined, -⟩ := Segment.laid_of_cut hcut
  obtain ⟨blanks, behind, hblanks, hraw⟩ := raw_of_closedBy hread hcloses
  rw [Segment.joined_append, Segment.joined_append, Segment.joined_cons] at hjoined
  have hbehind : Segment.joined inside ++ (closing.segment.raw ++ Segment.joined rest) =
      t ++ closingTag := List.append_cancel_left hjoined
  have hinside : Segment.joined inside = t := by
    rw [hraw, List.cons_append, List.append_assoc, List.append_assoc] at hbehind
    exact eq_of_mark ht hblanks hbehind
  have hpieces := Segment.cut_excerpt hcut
  rw [hinside] at hpieces
  exact ⟨_, hpieces⟩

/-- **A text in a literal.**  If no closing tag of a literal is begun in it, the literal compiles
exactly if the text on its own can be cut into pieces; and what it is compiled to gives the text as
it is, whatever the data. -/
theorem compile_inLiteral_iff {t : Text} (ht : ¬ mark <:+: t) :
    ((∃ f, Program.compile registry (inLiteral t) = .ok f) ↔
      ∃ pieces, Segment.cut registry.ordered t = .ok pieces) ∧
    ∀ f, Program.compile registry (inLiteral t) = .ok f →
      ∀ data, Machine.render f data = .ok t := by
  have hcuts : ∀ f, Program.compile registry (inLiteral t) = .ok f →
      ∃ pieces, Segment.cut families t = .ok pieces := by
    intro f hf
    rw [Program.compile] at hf
    cases hparse : Program.parse registry (inLiteral t) with
    | error fault => simp [hparse] at hf
    | ok document => exact exists_cut_of_parse ht hparse
  rw [registry_ordered]
  refine ⟨⟨?_, ?_⟩, ?_⟩
  · rintro ⟨f, hf⟩
    exact hcuts f hf
  · rintro ⟨pieces, hcut⟩
    exact ⟨_, compile_inLiteral ht hcut⟩
  · intro f hf data
    obtain ⟨pieces, hcut⟩ := hcuts f hf
    obtain rfl := Except.ok.inj ((compile_inLiteral ht hcut).symm.trans hf)
    exact render_glue t data

end

attribute [local instance] Host.usual

/-- A conditional that is never closed, an output and a comment. -/
def unread : Text := Text.ofString "\x7bif $x\x7d \x7becho y\x7d \x7b* /z *\x7d"

/-- In a literal they are not read. -/
theorem compile_inLiteral_unread :
    ¬ mark <:+: unread ∧ ∃ f, Program.compile registry (inLiteral unread) = .ok f ∧
      ∀ data, Machine.render f data = .ok unread := by
  have hmark : ¬ mark <:+: unread := by decide
  obtain ⟨hcompiles, hrender⟩ := compile_inLiteral_iff hmark
  have hcut : ∃ pieces, Segment.cut registry.ordered unread = .ok pieces := by
    rw [registry_ordered]
    exact ⟨_, by cbv⟩
  obtain ⟨f, hf⟩ := hcompiles.mpr hcut
  exact ⟨hmark, f, hf, hrender f hf⟩

/-- A brace takes the closing tag of its literal with it. -/
theorem compile_inLiteral_brace :
    ¬ mark <:+: ['\x7b'] ∧ Program.compile registry (inLiteral ['\x7b']) =
      .error (.unbuilt (.neverClosed (Text.ofString "literal") .start)) := by
  refine ⟨by decide, ?_⟩
  cbv

end Standard
end Stencil
