import Mathlib.Data.List.DropRight
import Stencil.Proofs.Document.Reading
import Stencil.Proofs.Source.Concatenation

/-! # Places in a source

Positions are found by advancing over what comes before, a piece at a time.  What they come to does
not depend on the pieces: the line counts the line feeds before an offset, and the column what comes
after the last of them (`Position.advance_start`).  So a position that is known to be the one at its
offset says nothing that the source does not say (`Position.ofOffset`).

The positions of segments are of this kind, and so is that of a tag without closer.  At the latter,
and at the position of every segment that is a tag, a tag begins: the source has pieces up to there,
and then a family opens (`Segment.OpensAt`).
-/

namespace Stencil

/-- Where the last line of a text begins: after its last line feed. -/
def Text.lineStart (t : Text) : Nat := (t.rdropWhile (· != '\n')).length

theorem Text.lineStart_le (t : Text) : lineStart t ≤ t.length :=
  (List.rdropWhile_prefix (· != '\n') (l := t)).length_le

theorem Text.lineStart_concat (t : Text) (c : Char) :
    lineStart (t ++ [c]) = if c = '\n' then t.length + 1 else lineStart t := by
  rw [lineStart, List.rdropWhile_concat]
  by_cases hc : c = '\n'
  · simp [hc]
  · simp [hc, lineStart]

namespace Position

/-- The position of an offset in a source: its line has one more than the line feeds before it, and
its column counts from where this line begins. -/
def ofOffset (source : Text) (offset : Nat) : Position :=
  ⟨offset, 1 + (source.take offset).count '\n',
    offset - Text.lineStart (source.take offset) + 1⟩

/-- Advancing over a text counts its line feeds, and what comes after the last of them. -/
theorem advance_start (t : Text) :
    start.advance t = ⟨t.length, 1 + t.count '\n', t.length - Text.lineStart t + 1⟩ := by
  induction t using List.reverseRecOn with
  | nil => rfl
  | append_singleton t c ih =>
    have hle := Text.lineStart_le t
    rw [advance_append, ih, Text.lineStart_concat]
    change next _ c = _
    by_cases hc : c = '\n'
    · simp [next, hc, Nat.add_assoc]
    · simp [next, hc]
      omega

/-- **The position after the beginning of a source** is that of its length. -/
theorem advance_of_isPrefix {before source : Text} (h : before <+: source) :
    start.advance before = ofOffset source before.length := by
  rw [advance_start, ofOffset, ← List.prefix_iff_eq_take.mp h]

end Position

namespace Segment
open Family

variable {families : List Family} {source : Text}

/-- A tag begins at an offset of the source: the source has pieces up to there, and then a family
opens. -/
def TagBegins (families : List Family) (source : Text) (offset : Nat) : Prop :=
  ∃ done family, Laid families source [] done ∧ (joined done).length = offset ∧
    IsFirstAt families source offset family

/-- A position is the one of its offset in the source, and a tag begins there. -/
structure OpensAt (families : List Family) (source : Text) (p : Position) : Prop where
  eq_ofOffset : p = .ofOffset source p.offset
  begins : TagBegins families source p.offset

/-- What is laid out is a beginning of the source. -/
theorem Laid.joined_isPrefix {before : Text} {segments : List Segment}
    (h : Laid families source before segments) (hbefore : before <+: source) :
    before ++ joined segments <+: source := by
  induction segments generalizing before with
  | nil => simpa using hbefore
  | cons s rest ih =>
    obtain ⟨hs, -, hrest⟩ := h
    have hpiece : before ++ s.raw <+: source := by
      have := List.prefix_append_right_inj before |>.mpr hs.here
      rwa [List.prefix_iff_eq_append.mp hbefore] at this
    rw [joined_cons, ← List.append_assoc]
    exact ih hrest hpiece

/-- A tag begins where pieces end and a family opens. -/
theorem opensAt_of_laid {done : List Segment} {family : Family}
    (hlaid : Laid families source [] done)
    (hfirst : IsFirstAt families source (joined done).length family) :
    OpensAt families source (Position.start.advance (joined done)) := by
  have hprefix : joined done <+: source := hlaid.joined_isPrefix List.nil_prefix
  rw [Position.advance_of_isPrefix hprefix]
  exact ⟨rfl, done, family, hlaid, rfl, hfirst⟩

/-- **A tag without closer** is where a tag begins. -/
theorem opensAt_of_isDangling {fault : Unterminated} (h : IsDangling families source fault) :
    OpensAt families source fault.position := by
  obtain ⟨done, family, hlaid, hdangles, rfl⟩ := h
  exact opensAt_of_laid hlaid hdangles.1

/-- **The position of a segment** is that of the offset at which it begins, and if the segment is a
tag, a tag begins there. -/
theorem position_of_cut {before after : List Segment} {s : Segment}
    (hcut : cut families source = .ok (before ++ s :: after)) :
    s.position = .ofOffset source (joined before).length ∧
      (s.isTag = true → OpensAt families source s.position) := by
  obtain ⟨hbefore, ⟨hs, -⟩, -⟩ := (laid_of_cut hcut).2.of_append
  have hprefix : joined before <+: source := hbefore.joined_isPrefix List.nil_prefix
  have hposition : s.position = Position.start.advance (joined before) := hs.position
  refine ⟨?_, fun htag => ?_⟩
  · rw [hposition, Position.advance_of_isPrefix hprefix]
  · cases hkind : s.kind with
    | text => simp [isTag, hkind] at htag
    | tag key =>
      obtain ⟨family, inner, hfirst, -⟩ := hs.tag key hkind
      rw [hposition]
      exact opensAt_of_laid hbefore hfirst

end Segment
end Stencil
