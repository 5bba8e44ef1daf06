import Stencil.Proofs.Source.Searching

/-! # Cutting is the leftmost tokenization

What it means for segments to be the pieces of a template, without any search.  `Stands` says of one
segment that it stands after a given beginning of the source: it is what the source has there, is
not empty, and knows its place; inside a text no family opens; a tag is an opener, something, and a
closer, where the family is the first of those that open at this place and its closer does not occur
earlier.  `Laid` says it of all segments, each after those before it, no two texts in a row.

A tokenization is laid out from the beginning to the end of the source (`IsTokenization`).  There is
none if a tag is reached that no closer follows; then the segments before it are laid out and the
fault names the tag (`IsDangling`).  Two layouts of one source that cannot go on are the same
(`Laid.unique`): where they part, one has a text over an opener, or a tag that ends too late.  The
outcome of `cut` is such a layout (`describes_cutFrom`), so it is the only one (`cut_eq_iff`).
-/

namespace Stencil

namespace Position

theorem advance_append (p : Position) (a b : Text) :
    p.advance (a ++ b) = (p.advance a).advance b := List.foldl_append

theorem offset_next (p : Position) (c : Char) : (p.next c).offset = p.offset + 1 := by
  rw [next]
  split <;> rfl

theorem offset_advance (p : Position) (t : Text) : (p.advance t).offset = p.offset + t.length := by
  induction t generalizing p with
  | nil => rfl
  | cons c t ih =>
    rw [show p.advance (c :: t) = (p.next c).advance t from rfl, ih, offset_next, List.length_cons]
    omega

end Position

namespace Segment
open Text Family

@[simp] theorem joined_nil : joined [] = [] := rfl

@[simp] theorem joined_cons (s : Segment) (rest : List Segment) :
    joined (s :: rest) = s.raw ++ joined rest := rfl

@[simp] theorem joined_append (a b : List Segment) : joined (a ++ b) = joined a ++ joined b := by
  simp [joined]

variable (families : List Family) (source : Text)

/-- A segment stands in the source after a given beginning of it. -/
structure Stands (before : Text) (s : Segment) : Prop where
  here : s.raw <+: source.drop before.length
  raw_ne_nil : s.raw ≠ []
  offset : s.position.offset = before.length
  position : s.position = Position.start.advance before
  /-- No family opens inside a text. -/
  text : s.kind = .text → ∀ k < s.raw.length, NoneAt families source (before.length + k)
  /-- A tag goes from the opener of the family that is the first to open there to the first closer
  of this family after the opener. -/
  tag : ∀ key, s.kind = .tag key → ∃ family inner,
    IsFirstAt families source before.length family ∧ key = some family.key ∧
    s.raw = family.opener ++ inner ++ family.closer ∧
    ∀ k < inner.length,
      ¬ OccursAt family.closer source (before.length + family.opener.length + k)

/-- Segments stand in the source one after the other, from where `before` ends, and no two texts
are neighbours. -/
def Laid : Text → List Segment → Prop
  | _, [] => True
  | before, s :: rest =>
    Stands families source before s ∧
    (s.kind = .text → ∀ next ∈ rest.head?, next.kind ≠ .text) ∧
    Laid (before ++ s.raw) rest

/-- At this offset a tag begins that has no closer. -/
def DanglesAt (offset : Nat) (family : Family) : Prop :=
  IsFirstAt families source offset family ∧
    ∀ k, ¬ OccursAt family.closer source (offset + family.opener.length + k)

/-- The segments are the pieces of the source. -/
def IsTokenization (segments : List Segment) : Prop :=
  joined segments = source ∧ Laid families source [] segments

/-- From left to right, the source has pieces up to a tag without closer, which the fault is
about. -/
def IsDangling (fault : Unterminated) : Prop :=
  ∃ done family, Laid families source [] done ∧
    DanglesAt families source (joined done).length family ∧
    fault = ⟨family.opener, family.closer, Position.start.advance (joined done)⟩

/-- An outcome of cutting says what the source is like. -/
def Describes : Except Unterminated (List Segment) → Prop
  | .ok segments => IsTokenization families source segments
  | .error fault => IsDangling families source fault

/-- A layout that ends here cannot go on. -/
def Stops (offset : Nat) : Prop :=
  offset = source.length ∨ ∃ family, DanglesAt families source offset family

variable {families source}

/-! ## One layout only -/

/-- The closer of a tag occurs after its opener and what is inside. -/
theorem Stands.occursAt_closer {before : Text} {s : Segment} (h : Stands families source before s)
    {family : Family} {inner : Text} (hraw : s.raw = family.opener ++ inner ++ family.closer) :
    OccursAt family.closer source (before.length + family.opener.length + inner.length) := by
  obtain ⟨rest, hrest⟩ := h.here
  rw [hraw] at hrest
  rw [OccursAt, Nat.add_assoc, ← List.drop_drop, ← hrest, List.append_assoc, ← List.length_append,
    List.drop_left]
  exact List.prefix_append _ _

/-- Nothing stands at the end of the source, or where a tag dangles. -/
theorem Stands.not_stops {before : Text} {s : Segment} (h : Stands families source before s) :
    ¬ Stops families source before.length := by
  rintro (hend | ⟨family, hfirst, hnever⟩)
  · have := h.here
    rw [hend, List.drop_length, List.prefix_nil] at this
    exact h.raw_ne_nil this
  · cases hk : s.kind with
    | text =>
      have hpos : 0 < s.raw.length := List.length_pos_iff.mpr h.raw_ne_nil
      exact hfirst.not_noneAt (h.text hk 0 hpos)
    | tag key =>
      obtain ⟨f, inner, hf, -, hraw, -⟩ := h.tag key hk
      obtain rfl := hfirst.unique hf
      exact hnever inner.length (h.occursAt_closer hraw)

/-- A text and a tag do not stand at the same place. -/
theorem Stands.text_of_text {before : Text} {s s' : Segment} (h : Stands families source before s)
    (h' : Stands families source before s') (hk : s.kind = .text) : s'.kind = .text := by
  cases hk' : s'.kind with
  | text => rfl
  | tag key =>
    obtain ⟨f, -, hf, -⟩ := h'.tag key hk'
    exact absurd (h.text hk 0 (List.length_pos_iff.mpr h.raw_ne_nil)) hf.not_noneAt

/-- At a place there is at most one tag. -/
theorem Stands.eq_of_tag {before : Text} {s s' : Segment} (h : Stands families source before s)
    (h' : Stands families source before s') {key : Option Value} (hk : s.kind = .tag key)
    {key' : Option Value} (hk' : s'.kind = .tag key') : s = s' := by
  obtain ⟨f, inner, hf, hkey, hraw, hmin⟩ := h.tag key hk
  obtain ⟨f', inner', hf', hkey', hraw', hmin'⟩ := h'.tag key' hk'
  obtain rfl := hf.unique hf'
  have hlen : inner.length = inner'.length := by
    rcases Nat.lt_trichotomy inner.length inner'.length with hlt | heq | hlt
    · exact absurd (h.occursAt_closer hraw) (hmin' _ hlt)
    · exact heq
    · exact absurd (h'.occursAt_closer hraw') (hmin _ hlt)
  have hraws : s.raw = s'.raw := by
    refine (List.prefix_of_prefix_length_le h.here h'.here ?_).eq_of_length ?_
    all_goals simp [hraw, hraw', hlen]
  have hkinds : s.kind = s'.kind := by rw [hk, hk', hkey, hkey']
  have hpositions : s.position = s'.position := by rw [h.position, h'.position]
  cases s
  cases s'
  simp_all

/-- After a text that is not the last of its layout a family opens. -/
theorem Laid.opens_after_text {before : Text} {s : Segment} {rest : List Segment}
    (h : Laid families source before (s :: rest)) (hk : s.kind = .text)
    (hstop : Stops families source (before ++ s.raw ++ joined rest).length) :
    before.length + s.raw.length = source.length ∨
      ¬ NoneAt families source (before.length + s.raw.length) := by
  obtain ⟨-, hnext, hrest⟩ := h
  cases rest with
  | nil =>
    rw [joined_nil, List.append_nil, List.length_append] at hstop
    rcases hstop with hend | ⟨family, hfirst, -⟩
    · exact Or.inl hend
    · exact Or.inr hfirst.not_noneAt
  | cons s' rest =>
    have hstands := hrest.1
    cases hk' : s'.kind with
    | text => exact absurd hk' (hnext hk s' rfl)
    | tag key =>
      obtain ⟨f, -, hf, -⟩ := hstands.tag key hk'
      rw [List.length_append] at hf
      exact Or.inr hf.not_noneAt

/-- The first text of a layout that stops reaches as far as that of any other. -/
theorem Laid.text_length_le {before : Text} {s s' : Segment} {rest : List Segment}
    (h : Laid families source before (s :: rest)) (hk : s.kind = .text)
    (hstop : Stops families source (before ++ s.raw ++ joined rest).length)
    (h' : Stands families source before s') (hk' : s'.kind = .text) :
    s'.raw.length ≤ s.raw.length := by
  apply Classical.byContradiction
  intro hlt
  rcases h.opens_after_text hk hstop with hend | hopens
  · have := h'.here.length_le
    rw [List.length_drop] at this
    omega
  · exact hopens (h'.text hk' s.raw.length (by omega))

/-- **A source has at most one layout that cannot go on.** -/
theorem Laid.unique {before : Text} {a b : List Segment} (ha : Laid families source before a)
    (hb : Laid families source before b)
    (hstopa : Stops families source (before ++ joined a).length)
    (hstopb : Stops families source (before ++ joined b).length) : a = b := by
  induction a generalizing before b with
  | nil =>
    cases b with
    | nil => rfl
    | cons s rest =>
      rw [joined_nil, List.append_nil] at hstopa
      exact absurd hstopa hb.1.not_stops
  | cons s rest ih =>
    cases b with
    | nil =>
      rw [joined_nil, List.append_nil] at hstopb
      exact absurd hstopb ha.1.not_stops
    | cons s' rest' =>
      rw [joined_cons, ← List.append_assoc] at hstopa hstopb
      -- at one place there is a text or a tag; the text ends where a family opens, the tag at its
      -- first closer
      have hs : s = s' := by
        cases hk : s.kind with
        | text =>
          have hk' := ha.1.text_of_text hb.1 hk
          have hlen : s.raw.length = s'.raw.length :=
            Nat.le_antisymm (hb.text_length_le hk' hstopb ha.1 hk)
              (ha.text_length_le hk hstopa hb.1 hk')
          have hraws : s.raw = s'.raw :=
            (List.prefix_of_prefix_length_le ha.1.here hb.1.here (Nat.le_of_eq hlen)).eq_of_length
              hlen
          have hpositions : s.position = s'.position := by rw [ha.1.position, hb.1.position]
          cases s
          cases s'
          simp_all
        | tag key =>
          cases hk' : s'.kind with
          | text =>
            have := hb.1.text_of_text ha.1 hk'
            rw [hk] at this
            cases this
          | tag key' => exact ha.1.eq_of_tag hb.1 hk hk'
      subst hs
      rw [ih ha.2.2 hb.2.2 hstopa hstopb]

/-! ## Cutting gives it -/

theorem laid_append {before : Text} {a b : List Segment} (ha : Laid families source before a)
    (hb : Laid families source (before ++ joined a) b)
    (hends : ∀ s ∈ a.getLast?, s.kind = .text → ∀ next ∈ b.head?, next.kind ≠ .text) :
    Laid families source before (a ++ b) := by
  induction a generalizing before with
  | nil => simpa using hb
  | cons s rest ih =>
    obtain ⟨hs, hnext, hrest⟩ := ha
    rw [joined_cons, ← List.append_assoc] at hb
    refine ⟨hs, ?_, ih hrest hb ?_⟩
    · cases rest with
      | nil => exact fun hk => hends s rfl hk
      | cons s' rest => exact hnext
    · cases rest with
      | nil => exact fun s hs => absurd hs (by simp)
      | cons s' rest => exact fun s hs => hends s (by simpa using hs)

/-- No segment of a layout is empty. -/
theorem Laid.raw_ne_nil {before : Text} {segments : List Segment}
    (h : Laid families source before segments) : ∀ s ∈ segments, s.raw ≠ [] := by
  induction segments generalizing before with
  | nil => exact fun s hs => absurd hs List.not_mem_nil
  | cons s rest ih =>
    intro t ht
    rcases List.mem_cons.mp ht with rfl | ht
    · exact h.1.raw_ne_nil
    · exact ih h.2.2 t ht

/-- A stretch without openers stands in the source as a text, if there is any of it. -/
theorem laid_ofText {before t : Text} (rest : Text) (hsource : source = before ++ t ++ rest)
    (hnone : ∀ k < t.length, NoneAt families source (before.length + k)) :
    Laid families source before (ofText (Position.start.advance before) t) := by
  rw [ofText]
  split
  · trivial
  · rename_i ht
    refine ⟨⟨?_, ?_, ?_, rfl, fun _ => hnone, fun key hk => by cases hk⟩, ?_, trivial⟩
    · rw [hsource, List.append_assoc, List.drop_left]
      exact List.prefix_append _ _
    · simpa using ht
    · rw [Position.offset_advance]
      exact Nat.zero_add _
    · intro _ next hnext
      simp at hnext

theorem joined_ofText (position : Position) (t : Text) : joined (ofText position t) = t := by
  rw [ofText]
  split
  · rename_i ht
    rw [List.isEmpty_iff.mp ht, joined_nil]
  · simp

/-- The tag that begins at an offset and has its first closer after so many characters. -/
theorem exists_eq_tag {t : Text} {k m : Nat} {family : Family}
    (hopener : OccursAt family.opener t k)
    (hcloser : OccursAt family.closer (t.drop (k + family.opener.length)) m) :
    ∃ text inner rest, t = text ++ (family.opener ++ inner ++ family.closer) ++ rest ∧
      text.length = k ∧ inner.length = m := by
  have hk := hopener.lt_length family.opener_ne_nil
  have hm := hcloser.lt_length family.closer_ne_nil
  obtain ⟨inside, hinside⟩ := hopener
  have hdrop : t.drop (k + family.opener.length) = inside := by
    rw [← List.drop_drop, ← hinside, List.drop_left]
  rw [hdrop] at hcloser hm
  obtain ⟨rest, hrest⟩ := hcloser
  refine ⟨t.take k, inside.take m, rest, ?_, ?_, ?_⟩
  · rw [List.append_assoc, List.append_assoc, List.append_assoc, hrest, List.take_append_drop,
      hinside, List.take_append_drop]
  · rw [List.length_take]
    omega
  · rw [List.length_take]
    omega

/-- Where a tag in a text, what is inside it, and what comes after it begin. -/
theorem drop_of_tag {t text opener inner closer rest : Text}
    (h : t = text ++ (opener ++ inner ++ closer) ++ rest) :
    t.drop text.length = opener ++ inner ++ closer ++ rest ∧
      t.drop (text.length + opener.length) = inner ++ closer ++ rest ∧
      t.drop (text.length + (opener ++ inner ++ closer).length) = rest := by
  have htag : t.drop text.length = opener ++ inner ++ closer ++ rest := by
    rw [h, List.append_assoc, List.drop_left]
  refine ⟨htag, ?_, ?_⟩
  · rw [← List.drop_drop, htag, List.append_assoc, List.append_assoc, List.drop_left,
      List.append_assoc]
  · rw [← List.drop_drop, htag, List.drop_left]

/-- If no family opens in the rest, it is a text. -/
theorem cutFrom_of_none {t : Text} (h : next? families t = none) (p : Position) :
    cutFrom families p t = .ok (ofText p t) := by
  cases t with
  | nil =>
    rw [cutFrom]
    rfl
  | cons c rest =>
    rw [cutFrom]
    simp only [h]

/-- Cutting fails at a tag that no closer follows. -/
theorem cutFrom_of_unclosed {text rest : Text} {family : Family}
    (hnext : next? families (text ++ (family.opener ++ rest)) = some (text.length, family))
    (hindex : indexOf? family.closer rest = none) (p : Position) :
    cutFrom families p (text ++ (family.opener ++ rest)) =
      .error ⟨family.opener, family.closer, p.advance text⟩ := by
  have hinside : (text ++ (family.opener ++ rest)).drop (text.length + family.opener.length) =
      rest := by
    rw [← List.drop_drop, List.drop_left, List.drop_left]
  have htext : (text ++ (family.opener ++ rest)).take text.length = text := List.take_left
  generalize text ++ (family.opener ++ rest) = t at *
  cases t with
  | nil => cases hnext
  | cons c more =>
    rw [cutFrom]
    simp only [hnext, hinside, hindex, htext]

/-- A text, if any, and the tag after it are cut off. -/
theorem cutFrom_of_tag {t text inner rest : Text} {family : Family}
    (ht : t = text ++ (family.opener ++ inner ++ family.closer) ++ rest)
    (hnext : next? families t = some (text.length, family))
    (hindex : indexOf? family.closer (inner ++ family.closer ++ rest) = some inner.length)
    (p : Position) :
    cutFrom families p t =
      (cutFrom families (p.advance (text ++ (family.opener ++ inner ++ family.closer))) rest).map
        fun more => ofText p text ++
          ⟨.tag (some family.key), family.opener ++ inner ++ family.closer, p.advance text⟩ ::
            more := by
  obtain ⟨htag, hinside, hrest⟩ := drop_of_tag ht
  have htext : t.take text.length = text := by
    rw [ht, List.append_assoc, List.take_left]
  have hlength : (family.opener ++ inner ++ family.closer).length =
      family.opener.length + inner.length + family.closer.length := by
    rw [List.length_append, List.length_append]
  have hopener : 0 < family.opener.length := List.length_pos_iff.mpr family.opener_ne_nil
  clear ht
  cases t with
  | nil => cases hnext
  | cons c more =>
    -- cutting goes on in what comes after the first character, which is not counted there
    have hmore : more.drop
        (text.length + (family.opener ++ inner ++ family.closer).length - 1) = rest := by
      have hone : text.length + (family.opener ++ inner ++ family.closer).length =
          text.length + (family.opener ++ inner ++ family.closer).length - 1 + 1 := by
        omega
      rw [hone, List.drop_succ_cons] at hrest
      exact hrest
    rw [cutFrom]
    simp only [hnext, hinside, hindex, htext, htag, ← hlength, hmore, List.take_left,
      Position.advance_append]

/-- **What a step of cutting does**: the rest is a text; or it has a tag without closer; or a text,
if any, and a tag are cut off, and cutting goes on after them. -/
theorem cutFrom_cases (families : List Family) (p : Position) (t : Text) :
    ((∀ k, NoneAt families t k) ∧ cutFrom families p t = .ok (ofText p t)) ∨
    (∃ text family rest, t = text ++ (family.opener ++ rest) ∧
      IsFirstAt families t text.length family ∧ (∀ j < text.length, NoneAt families t j) ∧
      (∀ m, ¬ OccursAt family.closer rest m) ∧
      cutFrom families p t = .error ⟨family.opener, family.closer, p.advance text⟩) ∨
    ∃ text family inner rest, t = text ++ (family.opener ++ inner ++ family.closer) ++ rest ∧
      IsFirstAt families t text.length family ∧ (∀ j < text.length, NoneAt families t j) ∧
      (∀ m < inner.length, ¬ OccursAt family.closer (inner ++ family.closer ++ rest) m) ∧
      cutFrom families p t =
        (cutFrom families (p.advance (text ++ (family.opener ++ inner ++ family.closer))) rest).map
          fun more => ofText p text ++
            ⟨.tag (some family.key), family.opener ++ inner ++ family.closer, p.advance text⟩ ::
              more := by
  cases hnext : next? families t with
  | none => exact Or.inl ⟨next?_eq_none_iff.mp hnext, cutFrom_of_none hnext p⟩
  | some r =>
    obtain ⟨k, family⟩ := r
    obtain ⟨hfirst, hmin⟩ := next?_eq_some_iff.mp hnext
    refine Or.inr ?_
    cases hindex : indexOf? family.closer (t.drop (k + family.opener.length)) with
    | none =>
      obtain ⟨rest, hrest⟩ := hfirst.occursAt
      obtain ⟨text, rfl, rfl⟩ : ∃ text, text.length = k ∧ t = text ++ (family.opener ++ rest) := by
        refine ⟨t.take k, ?_, by rw [hrest, List.take_append_drop]⟩
        have := hfirst.occursAt.lt_length family.opener_ne_nil
        rw [List.length_take]
        omega
      rw [← List.drop_drop, List.drop_left, List.drop_left] at hindex
      exact Or.inl ⟨text, family, rest, rfl, hfirst, hmin, indexOf?_eq_none_iff.mp hindex,
        cutFrom_of_unclosed hnext hindex p⟩
    | some m =>
      obtain ⟨hm, -⟩ := indexOf?_eq_some_iff.mp hindex
      obtain ⟨text, inner, rest, hsplit, rfl, rfl⟩ := exists_eq_tag hfirst.occursAt hm
      rw [(drop_of_tag hsplit).2.1] at hindex
      exact Or.inr ⟨text, family, inner, rest, hsplit, hfirst, hmin,
        (indexOf?_eq_some_iff.mp hindex).2, cutFrom_of_tag hsplit hnext hindex p⟩

/-- A tag with the first closer after its opener stands in the source. -/
theorem stands_tag {before inner rest : Text} {family : Family}
    (hsource : source = before ++ (family.opener ++ inner ++ family.closer ++ rest))
    (hfirst : IsFirstAt families source before.length family)
    (hmin : ∀ k < inner.length, ¬ OccursAt family.closer (inner ++ family.closer ++ rest) k) :
    Stands families source before
      ⟨.tag (some family.key), family.opener ++ inner ++ family.closer,
        Position.start.advance before⟩ where
  here := by
    rw [hsource, List.drop_left]
    exact List.prefix_append _ _
  raw_ne_nil := by simp [family.opener_ne_nil]
  offset := by
    rw [Position.offset_advance]
    exact Nat.zero_add _
  position := rfl
  text := fun hk => nomatch hk
  tag := by
    rintro key hkey
    obtain rfl := Segment.Kind.tag.inj hkey
    refine ⟨family, inner, hfirst, rfl, rfl, fun k hk hoccurs => hmin k hk ?_⟩
    rw [hsource, Nat.add_assoc, occursAt_append, List.append_assoc, List.append_assoc,
      occursAt_append, ← List.append_assoc] at hoccurs
    exact hoccurs

/-- A text, if any, and the tag after it stand in the source, and so does what is laid after
them. -/
theorem laid_text_tag {before text inner rest : Text} {family : Family} {more : List Segment}
    (hsource : source =
      before ++ (text ++ (family.opener ++ inner ++ family.closer) ++ rest))
    (hfirst : IsFirstAt families (text ++ (family.opener ++ inner ++ family.closer) ++ rest)
      text.length family)
    (hnone : ∀ j < text.length,
      NoneAt families (text ++ (family.opener ++ inner ++ family.closer) ++ rest) j)
    (hmin : ∀ k < inner.length, ¬ OccursAt family.closer (inner ++ family.closer ++ rest) k)
    (hmore : Laid families source
      (before ++ (text ++ (family.opener ++ inner ++ family.closer))) more) :
    Laid families source before
      (ofText (Position.start.advance before) text ++
        ⟨.tag (some family.key), family.opener ++ inner ++ family.closer,
          (Position.start.advance before).advance text⟩ :: more) := by
  have hbefore : source =
      before ++ text ++ (family.opener ++ inner ++ family.closer ++ rest) := by
    rw [hsource]
    simp only [List.append_assoc]
  refine laid_append (laid_ofText _ hbefore fun j hj => ?_) ?_ fun s _ _ next hnext => ?_
  · rw [hsource, noneAt_append]
    exact hnone j hj
  · rw [joined_ofText, ← Position.advance_append]
    refine ⟨stands_tag hbefore ?_ hmin, (fun hk => nomatch hk), ?_⟩
    · rw [hsource, List.length_append, isFirstAt_append]
      exact hfirst
    · rw [List.append_assoc]
      exact hmore
  · obtain rfl := Option.some.inj hnext
    exact fun hk => nomatch hk

/-- **What `cutFrom` gives is a layout of the rest of the source**, or of what comes before a tag
without closer. -/
theorem describes_cutFrom {before t : Text} (hsource : source = before ++ t) :
    match cutFrom families (Position.start.advance before) t with
    | .ok segments => joined segments = t ∧ Laid families source before segments
    | .error fault => ∃ done family, Laid families source before done ∧
        DanglesAt families source (before ++ joined done).length family ∧
        fault = ⟨family.opener, family.closer, Position.start.advance (before ++ joined done)⟩ := by
  -- on the length of the rest, which every tag makes shorter
  induction hn : t.length using Nat.strongRecOn generalizing t before with
  | ind n ih =>
  rcases cutFrom_cases families (Position.start.advance before) t with
    ⟨hnone, hcut⟩ | ⟨text, family, rest, rfl, hfirst, hnone, hnever, hcut⟩ |
    ⟨text, family, inner, rest, rfl, hfirst, hnone, hmin, hcut⟩
  · rw [hcut]
    refine ⟨joined_ofText _ _, laid_ofText [] (by rw [List.append_nil]; exact hsource) ?_⟩
    intro k _
    rw [hsource, noneAt_append]
    exact hnone k
  · rw [hcut]
    refine ⟨ofText (Position.start.advance before) text, family,
      laid_ofText (family.opener ++ rest) (by rw [hsource, List.append_assoc]) ?_, ?_, ?_⟩
    · intro j hj
      rw [hsource, noneAt_append]
      exact hnone j hj
    · rw [joined_ofText, List.length_append]
      refine ⟨by rw [hsource, isFirstAt_append]; exact hfirst, fun m hm => hnever m ?_⟩
      rw [hsource, Nat.add_assoc, Nat.add_assoc, occursAt_append, occursAt_append,
        occursAt_append] at hm
      exact hm
    · rw [joined_ofText, Position.advance_append]
  · have hlt : rest.length < n := by
      have := List.length_pos_iff.mpr family.opener_ne_nil
      simp only [List.length_append] at hn
      omega
    have hsource' : source =
        before ++ (text ++ (family.opener ++ inner ++ family.closer)) ++ rest := by
      rw [hsource]
      simp only [List.append_assoc]
    have hrest := ih _ hlt hsource' rfl
    rw [Position.advance_append Position.start before] at hrest
    rw [hcut]
    cases hmore : cutFrom families ((Position.start.advance before).advance
        (text ++ (family.opener ++ inner ++ family.closer))) rest with
    | error fault =>
      rw [hmore] at hrest
      obtain ⟨done, family', hlaid, hdangles, rfl⟩ := hrest
      simp only [Except.map]
      refine ⟨_, family', laid_text_tag hsource hfirst hnone hmin hlaid, ?_, ?_⟩
      · simpa [joined_ofText, List.append_assoc] using hdangles
      · simp [joined_ofText, List.append_assoc]
    | ok more =>
      rw [hmore] at hrest
      obtain ⟨hjoined, hlaid⟩ := hrest
      simp only [Except.map]
      refine ⟨?_, laid_text_tag hsource hfirst hnone hmin hlaid⟩
      simp [joined_ofText, hjoined, List.append_assoc]

/-- The outcome of cutting says what the source is like. -/
theorem describes_cut (families : List Family) (source : Text) :
    Describes families source (cut families source) := by
  have h := @describes_cutFrom families source [] source (List.nil_append source).symm
  rw [cut]
  rw [show Position.start = Position.start.advance [] from rfl]
  cases hcut : cutFrom families (Position.start.advance []) source with
  | error fault =>
    rw [hcut] at h
    obtain ⟨done, family, hlaid, hdangles, hfault⟩ := h
    exact ⟨done, family, hlaid, by simpa using hdangles, by simpa using hfault⟩
  | ok segments =>
    rw [hcut] at h
    exact h

/-- **A source is described by one outcome only.** -/
theorem Describes.unique {a b : Except Unterminated (List Segment)}
    (ha : Describes families source a) (hb : Describes families source b) : a = b := by
  -- no tag dangles at the end of the source, so an outcome of one kind excludes the other
  have hends : ∀ {family : Family}, ¬ DanglesAt families source source.length family := by
    intro family hdangles
    have := hdangles.1.occursAt.lt_length family.opener_ne_nil
    omega
  cases a with
  | ok segments =>
    have hstop : Stops families source ([] ++ joined segments).length :=
      Or.inl (congrArg List.length ha.1)
    cases b with
    | ok segments' => rw [ha.2.unique hb.2 hstop (Or.inl (congrArg List.length hb.1))]
    | error fault =>
      obtain ⟨done, family, hlaid, hdangles, -⟩ := hb
      obtain rfl := ha.2.unique hlaid hstop (Or.inr ⟨family, hdangles⟩)
      rw [ha.1] at hdangles
      exact absurd hdangles hends
  | error fault =>
    obtain ⟨done, family, hlaid, hdangles, rfl⟩ := ha
    have hstop : Stops families source ([] ++ joined done).length := Or.inr ⟨family, hdangles⟩
    cases b with
    | ok segments =>
      obtain rfl := hlaid.unique hb.2 hstop (Or.inl (congrArg List.length hb.1))
      rw [hb.1] at hdangles
      exact absurd hdangles hends
    | error fault' =>
      obtain ⟨done', family', hlaid', hdangles', rfl⟩ := hb
      obtain rfl := hlaid.unique hlaid' hstop (Or.inr ⟨family', hdangles'⟩)
      rw [hdangles.1.unique hdangles'.1]

/-- **Cutting is the leftmost tokenization, and the conditions on it determine the outcome.**
Whatever the families and the source, cutting ends; it gives segments exactly if they are the pieces
of the source, and a fault exactly if a tag is reached, from left to right, that no closer
follows. -/
theorem cut_eq_iff (families : List Family) (source : Text)
    (outcome : Except Unterminated (List Segment)) :
    cut families source = outcome ↔ Describes families source outcome :=
  ⟨fun h => h ▸ describes_cut families source, fun h => (describes_cut families source).unique h⟩

end Segment
end Stencil
