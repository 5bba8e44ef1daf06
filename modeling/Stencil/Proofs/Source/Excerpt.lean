import Stencil.Proofs.Source.Concatenation

/-! # Cutting a part of a template

Pieces that make up a part of a template are the pieces of this part on its own, at the places that
they have in it (`cut_excerpt`).  For whatever opens or closes in the part does so in the template,
at the same distance from the beginning of the part; so what does not there does not here.
-/

namespace Stencil
namespace Segment
open Text Family

variable {families : List Family} {before part after : Text}

/-- Segments one after the other, behind a text. -/
def placed (front : Text) : List Segment → List Segment
  | [] => []
  | s :: rest => { s with position := Position.start.advance front } :: placed (front ++ s.raw) rest

theorem joined_placed (front : Text) (segments : List Segment) :
    joined (placed front segments) = joined segments := by
  induction segments generalizing front with
  | nil => rfl
  | cons s rest ih => rw [placed, joined_cons, joined_cons, ih]

/-- What occurs in a part of a template occurs in the template. -/
theorem occursAt_of_excerpt {pattern front : Text} (hp : pattern ≠ []) {k : Nat}
    (h : OccursAt pattern part (front.length + k)) :
    OccursAt pattern (before ++ (part ++ after)) ((before ++ front).length + k) := by
  rw [List.length_append, Nat.add_assoc, occursAt_append]
  exact h.append_right hp after

/-- A segment in a part of a template stands there on its own. -/
theorem Stands.excerpt {front : Text} {s : Segment}
    (h : Stands families (before ++ (part ++ after)) (before ++ front) s)
    (hinside : front ++ s.raw <+: part) :
    Stands families part front { s with position := Position.start.advance front } where
  here := by
    obtain ⟨rest, rfl⟩ := hinside
    rw [List.append_assoc, List.drop_left]
    exact List.prefix_append _ _
  raw_ne_nil := h.raw_ne_nil
  offset := by
    rw [Position.offset_advance]
    exact Nat.zero_add _
  position := rfl
  text := by
    intro hkind k hk f hf hoccurs
    exact h.text hkind k hk f hf (occursAt_of_excerpt f.opener_ne_nil hoccurs)
  tag := by
    intro key hkind
    obtain ⟨family, inner, ⟨earlier, later, hsplit, -, hearlier⟩, hkey, hraw, hinner⟩ :=
      h.tag key hkind
    refine ⟨family, inner, ⟨earlier, later, hsplit, ?_, fun e he hoccurs => ?_⟩, hkey, hraw,
      fun k hk hoccurs => ?_⟩
    · obtain ⟨rest, rfl⟩ := hinside
      rw [OccursAt, hraw, List.append_assoc, List.drop_left, List.append_assoc, List.append_assoc]
      exact List.prefix_append _ _
    · exact hearlier e he (occursAt_of_excerpt (k := 0) e.opener_ne_nil hoccurs)
    · refine hinner k hk ?_
      rw [Nat.add_assoc] at hoccurs ⊢
      exact occursAt_of_excerpt family.closer_ne_nil hoccurs

/-- Segments in a part of a template are laid out in it. -/
theorem Laid.excerpt {front : Text} {segments : List Segment}
    (h : Laid families (before ++ (part ++ after)) (before ++ front) segments)
    (hinside : front ++ joined segments <+: part) :
    Laid families part front (placed front segments) := by
  induction segments generalizing front with
  | nil => trivial
  | cons s rest ih =>
    obtain ⟨hs, hnext, hrest⟩ := h
    rw [joined_cons, ← List.append_assoc] at hinside
    refine ⟨hs.excerpt ((List.prefix_append _ _).trans hinside), fun hkind next hhead => ?_, ?_⟩
    · cases rest with
      | nil => cases hhead
      | cons t more =>
        obtain rfl := Option.some.inj hhead
        exact hnext hkind t rfl
    · rw [List.append_assoc] at hrest
      exact ih hrest hinside

/-- **A part of a template is cut into the pieces that make it up.** -/
theorem cut_excerpt {template : Text} {a b c : List Segment}
    (h : cut families template = .ok (a ++ (b ++ c))) :
    cut families (joined b) = .ok (placed [] b) := by
  have hdescribes := describes_cut families template
  rw [h] at hdescribes
  obtain ⟨hjoined, hlaid⟩ := hdescribes
  obtain ⟨-, hlaid, -⟩ := hlaid.of_append
  obtain ⟨hlaid, -, -⟩ := hlaid.of_append
  rw [joined_append, joined_append] at hjoined
  have hfront : [] ++ joined a = joined a ++ [] := (List.append_nil _).symm
  rw [← hjoined, hfront] at hlaid
  have hpart : Laid families (joined b) [] (placed [] b) := hlaid.excerpt (List.prefix_refl _)
  exact (describes_cut families (joined b)).unique ⟨joined_placed [] b, hpart⟩

end Segment
end Stencil
