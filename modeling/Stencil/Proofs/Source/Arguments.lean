import Stencil.Proofs.Document.Steps

/-! # What is read off a tag stands in it

The text of a tag and its arguments are pieces of what stands between the delimiters: trimming and
cutting off delimiters and names takes away from the ends only (`trim_isInfix`, `inner_isInfix`),
and a placeholder is bound to a stretch of the text that the pattern is matched with
(`ArgumentPattern.isInfix_of_mem_extract`).  So whatever a handler is given is somewhere in the
template (`Tag.inside_of_read`), and so is the name of a closing tag (`Tag.read_eq_closing`).
-/

namespace Stencil

namespace Text

theorem trimStart_isSuffix (t : Text) : trimStart t <:+ t := List.dropWhile_suffix isBlank

theorem trimEnd_isPrefix (t : Text) : trimEnd t <+: t := by
  rw [← List.reverse_suffix]
  have h : t.reverse.dropWhile isBlank <:+ t.reverse := List.dropWhile_suffix isBlank
  rwa [trimEnd, List.reverse_reverse]

theorem trim_isInfix (t : Text) : trim t <:+: t :=
  (trimEnd_isPrefix _).isInfix.trans (trimStart_isSuffix t).isInfix

end Text

namespace Arguments

theorem mem_put {name value : Text} {arguments : Arguments} {a : Text × Text}
    (h : a ∈ put name value arguments) : a = (name, value) ∨ a ∈ arguments := by
  induction arguments with
  | nil => exact Or.inl (List.mem_singleton.mp h)
  | cons b rest ih =>
    rw [put] at h
    split at h
    · rcases List.mem_cons.mp h with rfl | h
      · exact Or.inl rfl
      · exact Or.inr (List.mem_cons_of_mem b h)
    · rcases List.mem_cons.mp h with rfl | h
      · exact Or.inr List.mem_cons_self
      · exact (ih h).imp id (List.mem_cons_of_mem b)

/-- Every argument is one of the bindings that it is made from. -/
theorem mem_ofBindings {bindings : List (Text × Text)} {a : Text × Text}
    (h : a ∈ ofBindings bindings) : a ∈ bindings := by
  have hall : ∀ a ∈ ofBindings bindings, a ∈ bindings := by
    refine List.foldlRecOn (motive := fun done => ∀ a ∈ done, a ∈ bindings) _ _ ?_ ?_
    · exact fun a ha => absurd ha List.not_mem_nil
    · intro done hdone b hb a ha
      rcases mem_put ha with rfl | ha
      · exact hb
      · exact hdone a ha
  exact hall a h

end Arguments

namespace ArgumentPattern

/-- A placeholder stands for a piece of the text. -/
theorem isInfix_of_mem_bind {places bindings : List (Text × Text)} {t : Text}
    (h : bind places t = some bindings) : ∀ b ∈ bindings, b.2 <:+: t := by
  fun_induction bind places t generalizing bindings with
  | case1 t hempty =>
    obtain rfl := Option.some.inj h
    exact fun b hb => absurd hb List.not_mem_nil
  | case2 t hempty => cases h
  | case3 name literal t hsuffix =>
    obtain rfl := Option.some.inj h
    intro b hb
    rw [List.mem_singleton.mp hb]
    exact (List.take_prefix _ t).isInfix
  | case4 name literal t hsuffix => cases h
  | case5 name literal more t hmore hnone => cases h
  | case6 name literal more t hmore n hn ih =>
    obtain ⟨later, hlater, rfl⟩ := Option.map_eq_some_iff.mp h
    intro b hb
    rcases List.mem_cons.mp hb with rfl | hb
    · exact (List.take_prefix n t).isInfix
    · exact (ih hlater b hb).trans (List.drop_suffix _ t).isInfix

/-- **An argument is a piece of the text.** -/
theorem isInfix_of_mem_extract {pattern : ArgumentPattern} {t : Text} {a : Text × Text}
    (h : a ∈ pattern.extract t) : a.2 <:+: t := by
  rw [extract, match?] at h
  split at h
  · cases hbind : bind pattern.places ((Text.trim t).drop pattern.head.length) with
    | none => simp [hbind] at h
    | some bindings =>
      simp only [hbind, Option.map_some, Option.getD_some] at h
      obtain ⟨b, hb, rfl⟩ := List.mem_map.mp (Arguments.mem_ofBindings h)
      have hstretch : b.2 <:+: (Text.trim t).drop pattern.head.length :=
        isInfix_of_mem_bind hbind b hb
      have hrest : (Text.trim t).drop pattern.head.length <:+: t :=
        (List.drop_suffix _ _).isInfix.trans (Text.trim_isInfix t)
      exact (Text.trim_isInfix b.2).trans (hstretch.trans hrest)
  · exact absurd h List.not_mem_nil

end ArgumentPattern

namespace Tag

/-- The text of a tag and its arguments stand in a text. -/
def Inside (t : Text) : Tag → Prop
  | .anonymous _ raw arguments => raw <:+: t ∧ ∀ a ∈ arguments, a.2 <:+: t
  | .opening _ _ _ _ raw arguments => raw <:+: t ∧ ∀ a ∈ arguments, a.2 <:+: t
  | .closing _ _ _ _ => True

theorem Inside.trans {tag : Tag} {t u : Text} (h : tag.Inside t) (htu : t <:+: u) :
    tag.Inside u := by
  cases tag with
  | anonymous | opening => exact ⟨h.1.trans htu, fun a ha => (h.2 a ha).trans htu⟩
  | closing => trivial

theorem isInfix_of_extract {t : Text} {pattern : Value} {arguments : Arguments}
    (h : extract t pattern = .ok arguments) {a : Text × Text} (ha : a ∈ arguments) :
    a.2 <:+: t := by
  unfold extract at h
  split at h
  · obtain rfl := Except.ok.inj h
    exact absurd ha List.not_mem_nil
  · split at h
    · obtain rfl := Except.ok.inj h
      exact ArgumentPattern.isInfix_of_mem_extract ha
    · obtain rfl := Except.ok.inj h
      exact absurd ha List.not_mem_nil
    · cases h

theorem inner_isInfix (family : Family) (raw : Text) : inner family raw <:+: raw :=
  (List.drop_suffix _ _).isInfix.trans (List.take_prefix _ raw).isInfix

theorem inside_of_readAnonymousIn {family : Family} {raw : Text} {tag : Tag}
    (h : readAnonymousIn family raw = .ok tag) : tag.Inside raw := by
  rw [readAnonymousIn] at h
  cases he : extract (inner family raw) family.arguments with
  | error fault => simp [he, Except.map] at h
  | ok arguments =>
    simp only [he, Except.map, Except.ok.injEq] at h
    subst h
    have hinner := inner_isInfix family raw
    exact ⟨hinner, fun a ha => (isInfix_of_extract he ha).trans hinner⟩

/-- **What is read off a tag stands in it.** -/
theorem inside_of_read {families : List Family} {raw : Text} {tag : Tag}
    (h : read families raw = .ok (some tag)) : tag.Inside raw := by
  obtain ⟨family, -, ⟨-, names, -, hnamed⟩ | ⟨-, arguments, hextract, rfl⟩⟩ := read_eq_some h
  · have htrim : Text.trim (inner family raw) <:+: raw :=
      (Text.trim_isInfix _).trans (inner_isInfix family raw)
    obtain ⟨_, _, _, -, -, rfl⟩ | ⟨name, _, _, _, -, hextract, rfl⟩ := readNamed_eq_some hnamed
    · trivial
    · generalize Text.trim (inner family raw) = t at htrim hextract ⊢
      have hrest : Text.trimStart (t.drop name.length) <:+: raw :=
        ((Text.trimStart_isSuffix _).isInfix.trans (List.drop_suffix _ t).isInfix).trans htrim
      exact ⟨hrest, fun a ha => (isInfix_of_extract hextract ha).trans hrest⟩
  · have hinner := inner_isInfix family raw
    exact ⟨hinner, fun a ha => (isInfix_of_extract hextract ha).trans hinner⟩

/-- A closing tag is a slash with its name right behind it, but for whitespace around them. -/
theorem read_eq_closing {families : List Family} {raw name : Text} {key : Value}
    {isolated verbatim : Bool}
    (h : read families raw = .ok (some (.closing name key isolated verbatim))) :
    ∃ family, Family.next? families raw = some (0, family) ∧ family.hasNames = true ∧
      '/' :: name <+: Text.trim (inner family raw) := by
  obtain ⟨family, hnext, ⟨hnames, names, -, hnamed⟩ | ⟨-, _, -, htag⟩⟩ := read_eq_some h
  · refine ⟨family, hnext, hnames, ?_⟩
    obtain ⟨rest, _, _, ht, hlongest, htag⟩ | ⟨_, _, _, _, -, -, htag⟩ := readNamed_eq_some hnamed
    · obtain ⟨rfl, -⟩ := Tag.closing.inj htag
      rw [ht]
      exact List.cons_prefix_cons.mpr ⟨rfl, isPrefix_of_longest? hlongest⟩
    · cases htag
  · cases htag

theorem inside_of_readAnonymous {families : List Family} {key : Option Value} {raw : Text}
    {tag : Tag} (h : readAnonymous families key raw = .ok tag) : tag.Inside raw := by
  rw [readAnonymous] at h
  split at h
  · split at h
    · cases h
    · split at h
      · exact inside_of_readAnonymousIn h
      · cases h
  · split at h
    · exact inside_of_readAnonymousIn h
    · cases h

end Tag
end Stencil
