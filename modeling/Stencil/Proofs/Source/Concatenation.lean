import Stencil.Proofs.Source.Tokenization

/-! # Cutting two templates put together

If two templates can be cut, so can the one followed by the other, and its pieces are those of both:
the pieces of the second keep their texts and are moved to their new places, and a text at the end
of the first grows together with a text at the beginning of the second (`cut_append`).

This is not so for all families.  An opener might stand half in one template and half in the other,
where it opens nothing in either; and a longer opener might take the place of a shorter one if it is
completed by what follows.  Neither happens if all openers begin with the character that is the
opener of one of the families, and no opener contains a closer (`Separable`): then what is a text in
the first template has no opener that goes on in the second, and a tag has its closer in it, so that
no other opener is completed behind it.
-/

namespace Stencil

/-! ## Places in what comes second -/

namespace Position

/-- A position of a text, seen from a text that has the former from `origin` on. -/
def beyond (origin p : Position) : Position where
  offset := origin.offset + p.offset
  line := origin.line + p.line - 1
  column := if p.line = 1 then origin.column + p.column - 1 else p.column

theorem beyond_next (origin : Position) {p : Position} (hline : 1 ≤ p.line) (hcolumn : 1 ≤ p.column)
    (c : Char) : (origin.beyond p).next c = origin.beyond (p.next c) := by
  by_cases hc : c = '\n'
  · have hnot : ¬ p.line + 1 = 1 := by omega
    simp only [next, beyond, hc, if_true, if_neg hnot, Position.mk.injEq]
    refine ⟨by omega, by omega, trivial⟩
  · simp only [next, beyond, hc, if_false, Position.mk.injEq]
    refine ⟨by omega, trivial, ?_⟩
    split <;> omega

theorem le_line_column_next {p : Position} (hline : 1 ≤ p.line) (c : Char) :
    1 ≤ (p.next c).line ∧ 1 ≤ (p.next c).column := by
  rw [next]
  split
  · exact ⟨Nat.le_add_left 1 _, Nat.le_refl 1⟩
  · exact ⟨hline, Nat.le_add_left 1 _⟩

/-- Advancing over a text that begins at `origin` is advancing over it on its own, seen from
there. -/
theorem beyond_advance (origin : Position) (t : Text) :
    origin.beyond (start.advance t) = origin.advance t := by
  -- lines and columns count from one, so that `beyond` cuts nothing off
  have key : ∀ (t : Text) (p : Position), 1 ≤ p.line → 1 ≤ p.column →
      origin.beyond (p.advance t) = (origin.beyond p).advance t := by
    intro t
    induction t with
    | nil => exact fun p _ _ => rfl
    | cons c t ih =>
      intro p hline hcolumn
      obtain ⟨hline', hcolumn'⟩ := le_line_column_next hline c
      have h := ih (p.next c) hline' hcolumn'
      rw [← beyond_next origin hline hcolumn] at h
      exact h
  rw [key t start (Nat.le_refl 1) (Nat.le_refl 1)]
  congr 1

end Position

/-- A segment at another place. -/
def Segment.moved (place : Position → Position) (s : Segment) : Segment :=
  { s with position := place s.position }

theorem Segment.joined_map_moved (place : Position → Position) (segments : List Segment) :
    joined (segments.map (moved place)) = joined segments := by
  rw [joined, List.flatMap_map]
  rfl

namespace Text

/-- What occurs in a text occurs in every text that begins with it. -/
theorem OccursAt.append_right {pattern a : Text} {k : Nat} (hp : pattern ≠ [])
    (h : OccursAt pattern a k) (b : Text) : OccursAt pattern (a ++ b) k := by
  have hlt := h.lt_length hp
  rw [OccursAt, List.drop_append_of_le_length (by omega)]
  exact h.trans (List.prefix_append _ _)

/-- What occurs before the end of the first text occurs in it. -/
theorem OccursAt.of_append {pattern a b : Text} {k : Nat} (h : OccursAt pattern (a ++ b) k)
    (hk : k + pattern.length ≤ a.length) : OccursAt pattern a k := by
  rw [OccursAt, List.drop_append_of_le_length (by omega)] at h
  refine List.prefix_of_prefix_length_le h (List.prefix_append _ _) ?_
  rw [List.length_drop]
  omega

/-- A character that is not in a pattern is not in its occurrences either. -/
theorem OccursAt.of_append_cons {pattern a b : Text} {c : Char} {k : Nat} (hc : c ∉ pattern)
    (h : OccursAt pattern (a ++ c :: b) k) : OccursAt pattern a k ∨ a.length < k := by
  by_cases hinside : k + pattern.length ≤ a.length
  · exact Or.inl (h.of_append hinside)
  · refine Or.inr (Nat.lt_of_not_le fun hk => hc ?_)
    -- otherwise the character is in the occurrence, at its distance from the beginning of it
    have hlt : a.length - k < pattern.length := by omega
    have hat : pattern[a.length - k] = c := by
      rw [h.getElem hlt, List.getElem_drop]
      simp [Nat.add_sub_cancel' hk]
    exact hat ▸ List.getElem_mem hlt

end Text

namespace Family
open Text

/-- The openers of the families tell a text apart from a tag at its first character, and end before
any closer could begin. -/
structure Separable (families : List Family) : Prop where
  mark : ∃ c, (∃ f ∈ families, f.opener = [c]) ∧ ∀ f ∈ families, f.opener.head? = some c
  unclosed : ∀ e ∈ families, ∀ f ∈ families, ¬ f.closer <:+: e.opener

variable {families : List Family}

/-- Where no family opens in a text, none opens if something follows. -/
theorem Separable.noneAt_append_right (hsep : Separable families) {a : Text} {k : Nat}
    (hk : k < a.length) (h : NoneAt families a k) (b : Text) : NoneAt families (a ++ b) k := by
  obtain ⟨c, ⟨single, hmem, hsingle⟩, hmark⟩ := hsep.mark
  intro f hf hoccurs
  have hhead := hmark f hf
  rw [OccursAt, List.drop_append_of_le_length (by omega)] at hoccurs
  obtain ⟨d, rest, hrest⟩ : ∃ d rest, a.drop k = d :: rest :=
    ⟨a[k], a.drop (k + 1), List.drop_eq_getElem_cons hk⟩
  -- an opener that goes on behind `a` begins in it with the mark, and the mark alone is an opener
  have hd : d = c := by
    cases hopener : f.opener with
    | nil => exact absurd hopener f.opener_ne_nil
    | cons e more =>
      rw [hopener, hrest, List.cons_append, List.cons_prefix_cons] at hoccurs
      rw [hopener, List.head?_cons, Option.some.injEq] at hhead
      rw [← hoccurs.1, hhead]
  refine h single hmem ?_
  rw [OccursAt, hsingle, hrest, hd]
  exact ⟨rest, rfl⟩

/-- The family of a tag in a text is the one that it has if something follows. -/
theorem Separable.isFirstAt_append_right (hsep : Separable families) {a inner : Text} {k : Nat}
    {family : Family} (h : IsFirstAt families a k family)
    (htag : family.opener ++ inner ++ family.closer <+: a.drop k) (b : Text) :
    IsFirstAt families (a ++ b) k family := by
  have hlt := h.occursAt.lt_length family.opener_ne_nil
  have hmem := h.mem
  obtain ⟨earlier, later, hsplit, hat, hearlier⟩ := h
  refine ⟨earlier, later, hsplit, hat.append_right family.opener_ne_nil b, fun e he hoccurs => ?_⟩
  by_cases hle : k + e.opener.length ≤ a.length
  · exact hearlier e he (hoccurs.of_append hle)
  · -- then the tag lies inside the opener, and so does its closer
    rw [OccursAt, List.drop_append_of_le_length (by omega)] at hoccurs
    have hinside : a.drop k <+: e.opener :=
      List.prefix_of_prefix_length_le (List.prefix_append _ _) hoccurs (by
        rw [List.length_drop]
        omega)
    have hcloser : family.closer <:+: family.opener ++ inner ++ family.closer :=
      (List.suffix_append _ _).isInfix
    refine hsep.unclosed e ?_ family hmem (hcloser.trans (htag.trans hinside).isInfix)
    rw [hsplit]
    exact List.mem_append_left _ he

end Family

namespace Segment
open Text Family

variable {families : List Family} {source : Text}

/-- Two rows of segments, one after the other, with a text at the end of the first and one at the
beginning of the second made one. -/
def seam : List Segment → List Segment → List Segment
  | [], b => b
  | [s], t :: rest =>
    match s.kind, t.kind with
    | .text, .text => ⟨.text, s.raw ++ t.raw, s.position⟩ :: rest
    | _, _ => s :: t :: rest
  | s :: a, b => s :: seam a b

/-- What a seam comes to: nothing happens there, or two texts become one. -/
theorem seam_cases (a b : List Segment) :
    (seam a b = a ++ b ∧ ∀ s ∈ a.getLast?, s.kind = .text → ∀ next ∈ b.head?, next.kind ≠ .text) ∨
    ∃ front s t rest, a = front ++ [s] ∧ b = t :: rest ∧ s.kind = .text ∧ t.kind = .text ∧
      seam a b = front ++ ⟨.text, s.raw ++ t.raw, s.position⟩ :: rest := by
  induction a with
  | nil => exact Or.inl ⟨rfl, fun s hs => nomatch hs⟩
  | cons s a ih =>
    cases a with
    | nil =>
      cases b with
      | nil => exact Or.inl ⟨rfl, fun s _ _ next hnext => nomatch hnext⟩
      | cons t rest =>
        by_cases hs : s.kind = .text
        · by_cases ht : t.kind = .text
          · exact Or.inr ⟨[], s, t, rest, rfl, rfl, hs, ht, by rw [seam, hs, ht]; rfl⟩
          · refine Or.inl ⟨?_, fun u hu _ next hnext => ?_⟩
            · rw [seam]
              cases hk : t.kind with
              | text => exact absurd hk ht
              | tag key => rw [hs]; rfl
            · obtain rfl := Option.some.inj hnext
              exact ht
        · refine Or.inl ⟨?_, fun u hu htext => ?_⟩
          · rw [seam]
            cases hk : s.kind with
            | text => exact absurd hk hs
            | tag key => rfl
          · obtain rfl := Option.some.inj hu
            exact absurd htext hs
    | cons s' a =>
      have hseam : seam (s :: s' :: a) b = s :: seam (s' :: a) b := by rw [seam]; simp
      rcases ih with ⟨happend, hends⟩ | ⟨front, u, t, rest, ha, hb, hu, ht, hmelted⟩
      · exact Or.inl ⟨by rw [hseam, happend]; rfl, fun u hu => hends u (by simpa using hu)⟩
      · refine Or.inr ⟨s :: front, u, t, rest, by rw [ha]; rfl, hb, hu, ht, ?_⟩
        rw [hseam, hmelted]
        rfl

theorem joined_seam (a b : List Segment) : joined (seam a b) = joined a ++ joined b := by
  rcases seam_cases a b with ⟨h, -⟩ | ⟨front, s, t, rest, rfl, rfl, -, -, h⟩
  · rw [h, joined_append]
  · rw [h]
    simp

/-- Nothing happens at a seam where a tag is on one of the sides. -/
theorem seam_eq_append {a b : List Segment}
    (h : (∀ s ∈ a.getLast?, s.kind ≠ .text) ∨ ∀ t ∈ b.head?, t.kind ≠ .text) :
    seam a b = a ++ b := by
  rcases seam_cases a b with ⟨hseam, -⟩ | ⟨front, s, t, rest, rfl, rfl, hs, ht, -⟩
  · exact hseam
  · rcases h with h | h
    · exact absurd hs (h s (by simp))
    · exact absurd ht (h t rfl)

/-! ## What stands in one of the templates stands in both -/

/-- A segment of the first template stands there still if something follows. -/
theorem Stands.append_right (hsep : Separable families) {a before : Text} {s : Segment}
    (h : Stands families a before s) (b : Text) : Stands families (a ++ b) before s := by
  have hinside : before.length + s.raw.length ≤ a.length :=
    OccursAt.add_length_le h.raw_ne_nil h.here
  refine ⟨OccursAt.append_right h.raw_ne_nil h.here b, h.raw_ne_nil, h.offset, h.position, ?_, ?_⟩
  · intro hk k hlt
    exact hsep.noneAt_append_right (by omega) (h.text hk k hlt) b
  · intro key hk
    obtain ⟨family, inner, hfirst, hkey, hraw, hmin⟩ := h.tag key hk
    refine ⟨family, inner, hsep.isFirstAt_append_right hfirst (hraw ▸ h.here) b, hkey, hraw, ?_⟩
    intro k hlt hoccurs
    refine hmin k hlt (hoccurs.of_append ?_)
    rw [hraw, List.length_append, List.length_append] at hinside
    omega

/-- A segment of the second template stands after the first one, at the place that it then has. -/
theorem Stands.append_left {b before : Text} {s : Segment} (h : Stands families b before s)
    (a : Text) :
    Stands families (a ++ b) (a ++ before) (s.moved (Position.start.advance a).beyond) := by
  have hposition : (Position.start.advance a).beyond s.position =
      Position.start.advance (a ++ before) := by
    rw [h.position, Position.beyond_advance, Position.advance_append]
  refine ⟨?_, h.raw_ne_nil, ?_, hposition, ?_, ?_⟩
  · rw [List.length_append, List.drop_length_add_append]
    exact h.here
  · rw [moved, hposition, Position.offset_advance]
    exact Nat.zero_add _
  · intro hk k hlt
    rw [List.length_append, Nat.add_assoc, noneAt_append]
    exact h.text hk k hlt
  · intro key hk
    obtain ⟨family, inner, hfirst, hkey, hraw, hmin⟩ := h.tag key hk
    refine ⟨family, inner, ?_, hkey, hraw, fun k hlt hoccurs => hmin k hlt ?_⟩
    · rw [List.length_append, isFirstAt_append]
      exact hfirst
    · rw [List.length_append, Nat.add_assoc, Nat.add_assoc, occursAt_append, ← Nat.add_assoc]
        at hoccurs
      exact hoccurs

theorem Laid.append_right (hsep : Separable families) {a before : Text} {segments : List Segment}
    (h : Laid families a before segments) (b : Text) : Laid families (a ++ b) before segments := by
  induction segments generalizing before with
  | nil => trivial
  | cons s rest ih => exact ⟨h.1.append_right hsep b, h.2.1, ih h.2.2⟩

theorem Laid.append_left {b before : Text} {segments : List Segment}
    (h : Laid families b before segments) (a : Text) :
    Laid families (a ++ b) (a ++ before)
      (segments.map (moved (Position.start.advance a).beyond)) := by
  induction segments generalizing before with
  | nil => trivial
  | cons s rest ih =>
    refine ⟨h.1.append_left a, fun hk next hnext => ?_, ?_⟩
    · rw [List.head?_map] at hnext
      obtain ⟨t, ht, rfl⟩ := Option.map_eq_some_iff.mp hnext
      exact h.2.1 hk t ht
    · have hrest := ih h.2.2
      rw [← List.append_assoc] at hrest
      exact hrest

/-- A layout of two rows is a layout of each. -/
theorem Laid.of_append {before : Text} {a b : List Segment}
    (h : Laid families source before (a ++ b)) :
    Laid families source before a ∧ Laid families source (before ++ joined a) b ∧
      ∀ s ∈ a.getLast?, s.kind = .text → ∀ next ∈ b.head?, next.kind ≠ .text := by
  induction a generalizing before with
  | nil => exact ⟨trivial, by simpa using h, fun s hs => nomatch hs⟩
  | cons s a ih =>
    obtain ⟨hs, hnext, hrest⟩ := h
    obtain ⟨ha, hb, hends⟩ := ih hrest
    rw [joined_cons, ← List.append_assoc]
    cases a with
    | nil =>
      refine ⟨⟨hs, (fun _ _ hnone => nomatch hnone), trivial⟩, hb, fun u hu hk => ?_⟩
      obtain rfl := Option.some.inj hu
      exact hnext hk
    | cons s' a => exact ⟨⟨hs, hnext, ha⟩, hb, fun u hu => hends u (by simpa using hu)⟩

/-- Two texts in a row stand as one. -/
theorem Stands.melt {before : Text} {s t : Segment} (hs : Stands families source before s)
    (ht : Stands families source (before ++ s.raw) t) (hks : s.kind = .text)
    (hkt : t.kind = .text) :
    Stands families source before ⟨.text, s.raw ++ t.raw, s.position⟩ where
  here := by
    obtain ⟨u, hu⟩ := hs.here
    obtain ⟨v, hv⟩ := ht.here
    rw [List.length_append, ← List.drop_drop, ← hu, List.drop_left] at hv
    exact ⟨v, by rw [← hu, ← hv, List.append_assoc]⟩
  raw_ne_nil := by simp [hs.raw_ne_nil]
  offset := hs.offset
  position := hs.position
  text := by
    intro _ k hlt
    rw [List.length_append] at hlt
    by_cases hk : k < s.raw.length
    · exact hs.text hks k hk
    · have h := ht.text hkt (k - s.raw.length) (by omega)
      rw [List.length_append, Nat.add_assoc, Nat.add_sub_cancel' (by omega)] at h
      exact h
  tag := fun _ hk => nomatch hk

/-- Two layouts, one after the other, are one if a text at the seam is made one. -/
theorem laid_seam {before : Text} {a b : List Segment} (ha : Laid families source before a)
    (hb : Laid families source (before ++ joined a) b) :
    Laid families source before (seam a b) := by
  rcases seam_cases a b with ⟨h, hends⟩ | ⟨front, s, t, rest, rfl, rfl, hs, ht, h⟩
  · rw [h]
    exact laid_append ha hb hends
  · rw [h]
    -- the text before the seam had no text before it, and that after it none after it
    obtain ⟨hfront, ⟨hstands, -, -⟩, hlast⟩ := ha.of_append
    rw [joined_append, ← List.append_assoc, joined_cons, joined_nil, List.append_nil] at hb
    refine laid_append hfront ⟨hstands.melt hb.1 hs ht, fun _ => hb.2.1 ht, ?_⟩ ?_
    · rw [← List.append_assoc]
      exact hb.2.2
    · intro u hu hk next hnext
      exact absurd hs (hlast u hu hk s rfl)

/-- **Two templates put together are cut into the pieces of both**, those of the second moved behind
the first, and two texts that meet made one. -/
theorem cut_append (hsep : Separable families) {a b : Text} {sa sb : List Segment}
    (ha : cut families a = .ok sa) (hb : cut families b = .ok sb) :
    cut families (a ++ b) =
      .ok (seam sa (sb.map (moved (Position.start.advance a).beyond))) := by
  have hda := describes_cut families a
  have hdb := describes_cut families b
  rw [ha] at hda
  rw [hb] at hdb
  refine (describes_cut families (a ++ b)).unique ⟨?_, laid_seam (hda.2.append_right hsep b) ?_⟩
  · rw [joined_seam, joined_map_moved, hda.1, hdb.1]
  · rw [List.nil_append, hda.1]
    simpa using hdb.2.append_left a

end Segment
end Stencil
