import Stencil.Library.Standard
import Stencil.Proofs.Document.Reading
import Stencil.Proofs.Source.Excerpt

/-! # Cutting and reading agree on the family of a tag

The family of a tag is settled twice: when the tag is cut out of the template, from where cutting
has got to, and when it is read, from nothing but its own text.  The two agree (`Segment.Agrees`),
whatever openers and closers the families have, and even if they overlap or begin with one another.
What opens at the beginning of the tag opens in the template where the tag stands; so no family that
is preferred, and no opener that comes earlier, appears only when the tag is cut out.  For the same
reason its first closer stays the first one, and the tag alone is cut into itself.

So both ways of reading take the delimiters of this family off, and what they make of the tag
depends on what is left between them (`Tag.ofInner`, `Tag.anonymousOfInner`).
-/

namespace Stencil

namespace Tag

/-- The key of the family of a tag. -/
def family : Tag → Value
  | .anonymous family _ _ => family
  | .opening _ family _ _ _ _ => family
  | .closing _ family _ _ => family

/-- A tag without name of a family, with what is between its delimiters. -/
def anonymousOfInner (family : Family) (t : Text) : Except Fault Tag :=
  (extract t family.arguments).map fun arguments => .anonymous family.key t arguments

/-- A tag of a family, with what is between its delimiters; `none` if that begins with no name. -/
def ofInner (family : Family) (t : Text) : Except Fault (Option Tag) :=
  if family.hasNames then
    match names? family.tags with
    | none => .error .untypedName
    | some names => readNamed family names (Text.trim t)
  else (anonymousOfInner family t).map some

variable {own : Family} {families : List Family} {raw t : Text}

theorem family_of_anonymousOfInner {tag : Tag} (h : anonymousOfInner own t = .ok tag) :
    tag.family = own.key := by
  rw [anonymousOfInner] at h
  cases hextract : extract t own.arguments with
  | error fault => simp [hextract, Except.map] at h
  | ok arguments =>
    simp only [hextract, Except.map, Except.ok.injEq] at h
    rw [← h]
    rfl

theorem family_of_ofInner {tag : Tag} (h : ofInner own t = .ok (some tag)) :
    tag.family = own.key := by
  rw [ofInner] at h
  split at h
  · split at h
    · cases h
    · rcases readNamed_eq_some h with ⟨_, _, _, -, -, rfl⟩ | ⟨_, _, _, _, -, -, rfl⟩
      · rfl
      · rfl
  · cases hread : anonymousOfInner own t with
    | error fault => simp [hread, Except.map] at h
    | ok read =>
      simp only [hread, Except.map, Except.ok.injEq, Option.some.injEq] at h
      exact h ▸ family_of_anonymousOfInner hread

/-- Reading a tag is reading what is between the delimiters of the family that opens it. -/
theorem read_of_next? (hnext : Family.next? families raw = some (0, own)) :
    read families raw = ofInner own (inner own raw) := by
  rw [read, hnext]
  rfl

/-- What is between the delimiters of a typed family can be read. -/
theorem exists_ofInner (h : own.Typed) (t : Text) :
    (∃ tag, ofInner own t = .ok tag) ∧ ∃ tag, anonymousOfInner own t = .ok tag := by
  obtain ⟨arguments, harguments⟩ := exists_extract t h.pattern
  have hanonymous : anonymousOfInner own t = .ok (.anonymous own.key t arguments) := by
    rw [anonymousOfInner, harguments]
    rfl
  refine ⟨?_, _, hanonymous⟩
  rw [ofInner]
  split
  · obtain ⟨names, hnames⟩ := exists_names? h.names
    rw [hnames]
    exact exists_readNamed h (fun entry he => (mem_names? hnames he).1) _
  · exact ⟨_, by rw [hanonymous]; rfl⟩

end Tag

namespace Segment
open Family Text

/-- A tag segment is one of a family, from wherever it is looked at. -/
structure Agrees (families : List Family) (s : Segment) (family : Family) : Prop where
  /-- Searched from its beginning, the tag opens there, for this family. -/
  opens : next? families s.raw = some (0, family)
  /-- The tag alone is cut into one segment, which is the tag. -/
  alone : cut families s.raw = .ok [⟨.tag (some family.key), s.raw, .start⟩]
  /-- The delimiters do not overlap, and what is between them is what is left of the tag. -/
  parts : family.opener ++ Tag.inner family s.raw ++ family.closer = s.raw
  /-- Reading takes off the delimiters of this family. -/
  read : Tag.read families s.raw = Tag.ofInner family (Tag.inner family s.raw)
  /-- So does reading as a tag without name, be the family given or searched for. -/
  anonymous : ∀ key ∈ [some family.key, none],
    Tag.readAnonymous families key s.raw = Tag.anonymousOfInner family (Tag.inner family s.raw)
  /-- A tag that has been read is one of this family. -/
  family_of_read : ∀ tag, Tag.read families s.raw = .ok (some tag) → tag.family = family.key
  family_of_anonymous : ∀ tag, Tag.readAnonymous families (some family.key) s.raw = .ok tag →
    tag.family = family.key
  /-- Nothing but a defect of the family can keep the tag from being read. -/
  readable : family.Typed → (∃ tag, Tag.read families s.raw = .ok tag) ∧
    ∃ tag, Tag.readAnonymous families (some family.key) s.raw = .ok tag

variable {families : List Family} {template : Text} {segments : List Segment} {s : Segment}

/-- A piece of a template is, on its own, cut into itself. -/
theorem cut_raw (hcut : cut families template = .ok segments) (hs : s ∈ segments) :
    cut families s.raw = .ok [⟨s.kind, s.raw, .start⟩] := by
  obtain ⟨front, back, rfl⟩ := List.append_of_mem hs
  have hexcerpt := cut_excerpt (b := [s]) hcut
  rw [joined_cons, joined_nil, List.append_nil] at hexcerpt
  exact hexcerpt

/-- **Cutting and reading agree on the family of every tag** of a template, in any registry. -/
theorem agrees_of_cut {registry : Registry} (hreached : registry.Reached)
    (hcut : cut registry.ordered template = .ok segments) (hs : s ∈ segments)
    {key : Option Value} (hkind : s.kind = .tag key) :
    ∃ family ∈ registry.ordered, key = some family.key ∧ s.Agrees registry.ordered family := by
  obtain ⟨front, hstands⟩ := (laid_of_cut hcut).2.stands hs
  obtain ⟨family, inner, hmem, rfl, hraw, hopens⟩ := hstands.next?_raw hkind
  have hinner : Tag.inner family s.raw = inner := by
    rw [hraw]
    exact Tag.inner_of_delimited family inner
  have hread := Tag.read_of_next? hopens
  have hgiven : Tag.readAnonymous registry.ordered (some family.key) s.raw =
      Tag.anonymousOfInner family (Tag.inner family s.raw) :=
    Tag.readAnonymous_of_next? hreached.keyed hopens
  have hsearched : Tag.readAnonymous registry.ordered none s.raw =
      Tag.anonymousOfInner family (Tag.inner family s.raw) := by
    rw [Tag.readAnonymous, Option.filter_none]
    simp only [hopens]
    rfl
  refine ⟨family, hmem, rfl, hopens, ?_, ?_, hread, ?_, ?_, ?_, ?_⟩
  · rw [cut_raw hcut hs, hkind]
  · rw [hinner, hraw]
  · intro key hkey
    rcases List.mem_cons.mp hkey with rfl | hkey
    · exact hgiven
    · obtain rfl := List.mem_singleton.mp hkey
      exact hsearched
  · intro tag htag
    rw [hread] at htag
    exact Tag.family_of_ofInner htag
  · intro tag htag
    rw [hgiven] at htag
    exact Tag.family_of_anonymousOfInner htag
  · intro htyped
    rw [hread, hgiven]
    exact Tag.exists_ofInner htyped _

/-- A family of anonymous tags in parentheses. -/
def round : Family where
  key := Standard.word "round"
  opener := ['(']
  closer := [')']
  tags := []
  arguments := .null
  handler := .null
  priority := 0
  opener_ne_nil := List.cons_ne_nil _ _
  closer_ne_nil := List.cons_ne_nil _ _

/-- A family that is preferred to it, the delimiters of which overlap with its own and with each
other. -/
def overlapping : Family where
  key := Standard.word "overlapping"
  opener := ['(', '*']
  closer := ['*', ')']
  tags := []
  arguments := .null
  handler := .null
  priority := 1
  opener_ne_nil := List.cons_ne_nil _ _
  closer_ne_nil := List.cons_ne_nil _ _

/-- A registry with both. -/
def brackets : Registry :=
  (((Registry.ofLibrary []).registerFamily round).registry.registerFamily overlapping).registry

theorem brackets_ordered : brackets.ordered = [overlapping, round] := by
  have hfamilies : brackets.families = [round, overlapping] := rfl
  rw [Registry.ordered, hfamilies]
  simp [List.mergeSort, round, overlapping]

/-- The closer of a tag is looked for behind its opener, and the tag is one of the preferred
family for a reader as well. -/
theorem agrees_of_cut_overlapping :
    brackets.Reached ∧
    cut brackets.ordered (Text.ofString "x(*)*)") =
      .ok [⟨.text, ['x'], ⟨0, 1, 1⟩⟩,
        ⟨.tag (some overlapping.key), Text.ofString "(*)*)", ⟨1, 1, 2⟩⟩] ∧
    ∃ family ∈ brackets.ordered, some overlapping.key = some family.key ∧
      Agrees brackets.ordered ⟨.tag (some overlapping.key), Text.ofString "(*)*)", ⟨1, 1, 2⟩⟩
        family := by
  have hreached : brackets.Reached := ((Registry.Reached.ofLibrary []).family round).family
    overlapping
  have hcut : cut brackets.ordered (Text.ofString "x(*)*)") =
      .ok [⟨.text, ['x'], ⟨0, 1, 1⟩⟩,
        ⟨.tag (some overlapping.key), Text.ofString "(*)*)", ⟨1, 1, 2⟩⟩] := by
    rw [brackets_ordered]
    cbv
  exact ⟨hreached, hcut,
    agrees_of_cut hreached hcut (List.mem_cons_of_mem _ List.mem_cons_self) rfl⟩

end Segment
end Stencil
