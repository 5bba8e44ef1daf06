import Stencil.Proofs.Expression.Lexemes
import Stencil.Source.ArgumentPattern

/-! # Taking a pattern apart

A pattern is taken apart at its placeholders, from left to right.  A placeholder is a word in
braces, so that no two of them overlap, and what lies between them holds none.  There is only one
way to take a pattern apart like that (`ArgumentPattern.parts_eq_iff`).
-/

namespace Stencil

namespace ArgumentPattern
open Text

/-- A placeholder as it is written. -/
def placeholder (name : Text) : Text := '\x7b' :: (name ++ ['\x7d'])

/-- A text holds no placeholder. -/
def Plain (t : Text) : Prop := ∀ name, IsWord name → ¬ placeholder name <:+: t

/-- Placeholders as they are written, with a literal after each. -/
def writtenPlaces (places : List (Text × Text)) : Text :=
  places.flatMap fun place => placeholder place.1 ++ place.2

/-- A text is a literal and then placeholders, with a literal after each. -/
structure Parted (t head : Text) (places : List (Text × Text)) : Prop where
  written : head ++ writtenPlaces places = t
  names : ∀ place ∈ places, IsWord place.1
  head : Plain head
  literals : ∀ place ∈ places, Plain place.2

/-! ## Placeholders -/

theorem isWord_brace : isWord '\x7b' = false ∧ isWord '\x7d' = false := by decide

/-- A placeholder is a word and a closing brace behind the opening one. -/
theorem placeholder?_eq_some_iff {t name : Text} :
    placeholder? t = some name ↔ IsWord name ∧ name ++ ['\x7d'] <+: t := by
  rw [placeholder?]
  constructor
  · intro h
    have hword : ∀ c ∈ t.takeWhile isWord, isWord c = true := fun c hc => List.mem_takeWhile_imp hc
    have hstart : t.takeWhile isWord <+: t := List.takeWhile_prefix isWord
    generalize t.takeWhile isWord = word at h hword hstart
    obtain ⟨rest, rfl⟩ := hstart
    rw [List.drop_left] at h
    cases rest with
    | nil => cases h
    | cons c rest =>
      dsimp only at h
      split at h
      · rename_i hend
        obtain rfl := Option.some.inj h
        obtain ⟨rfl, hne⟩ := by simpa using hend
        exact ⟨⟨hne, hword⟩, rest, by simp⟩
      · cases h
  · rintro ⟨⟨hne, hword⟩, rest, rfl⟩
    have htake : (name ++ ['\x7d'] ++ rest).takeWhile isWord = name := by
      rw [List.append_assoc, List.takeWhile_append_of_pos hword, List.singleton_append,
        List.takeWhile_cons_of_neg (by simp [isWord_brace]), List.append_nil]
    rw [htake, List.append_assoc, List.drop_left]
    simp [hne]

/-- What follows a placeholder whose opening brace has been passed. -/
theorem drop_name (name after : Text) :
    (name ++ ['\x7d'] ++ after).drop (name.length + 1) = after := by
  rw [← List.length_singleton, ← List.length_append, List.drop_left]

theorem placeholder_ne_nil (name : Text) : placeholder name ≠ [] := List.cons_ne_nil _ _

theorem plain_nil : Plain [] := fun name _ h =>
  placeholder_ne_nil name (List.infix_nil.mp h)

/-- A text that follows a character holds no placeholder if both together hold none. -/
theorem Plain.tail {c : Char} {t : Text} (h : Plain (c :: t)) : Plain t :=
  fun name hname hpiece => h name hname (hpiece.trans (List.suffix_cons c t).isInfix)

/-- A character makes no placeholder of what follows it, unless it opens one. -/
theorem Plain.cons {c : Char} {t : Text}
    (hc : ∀ name, ¬ (c = '\x7b' ∧ placeholder? t = some name)) (h : Plain t) : Plain (c :: t) := by
  intro name hname hpiece
  rcases List.infix_cons_iff.mp hpiece with hstart | hpiece
  · obtain ⟨rfl, hrest⟩ := List.cons_prefix_cons.mp hstart
    exact hc name ⟨rfl, placeholder?_eq_some_iff.mpr ⟨hname, hrest⟩⟩
  · exact h name hname hpiece

/-- A word up to a closing brace is known by the text that it begins. -/
theorem name_unique {name name' rest rest' : Text} (hname : IsWord name) (hname' : IsWord name')
    (h : name ++ '\x7d' :: rest = name' ++ '\x7d' :: rest') : name = name' ∧ rest = rest' := by
  have hfound : ∀ {n r : Text}, IsWord n → placeholder? (n ++ '\x7d' :: r) = some n :=
    fun hn => placeholder?_eq_some_iff.mpr ⟨hn, _, by rw [List.append_assoc]; rfl⟩
  have hsame := (hfound hname).symm.trans ((congrArg placeholder? h).trans (hfound hname'))
  obtain rfl := Option.some.inj hsame
  exact ⟨rfl, (List.cons.inj (List.append_cancel_left h)).2⟩

/-! ## One way to take a pattern apart -/

theorem writtenPlaces_cons (name literal : Text) (places : List (Text × Text)) :
    writtenPlaces ((name, literal) :: places) =
      '\x7b' :: (name ++ '\x7d' :: (literal ++ writtenPlaces places)) := by
  simp [writtenPlaces, placeholder]

theorem opened_eq_some_iff {c : Char} {rest name : Text} :
    (if c = '\x7b' then placeholder? rest else none) = some name ↔
      c = '\x7b' ∧ placeholder? rest = some name :=
  Option.ite_none_right_eq_some

/-- Taking apart gives placeholders and literals that hold none. -/
theorem parted_parts (t : Text) : Parted t (parts t).1 (parts t).2 := by
  fun_induction parts t with
  | case1 => exact ⟨rfl, List.forall_mem_nil _, plain_nil, List.forall_mem_nil _⟩
  | case2 c rest name hname literal places hparts ih =>
    obtain ⟨rfl, hfound⟩ := opened_eq_some_iff.mp hname
    obtain ⟨hword, after, rfl⟩ := placeholder?_eq_some_iff.mp hfound
    rw [drop_name] at hparts ih
    rw [hparts] at ih
    refine ⟨?_, List.forall_mem_cons.mpr ⟨hword, ih.names⟩, plain_nil,
      List.forall_mem_cons.mpr ⟨ih.head, ih.literals⟩⟩
    rw [List.nil_append, writtenPlaces_cons, ih.written, List.append_assoc]
    rfl
  | case3 c rest hnone literal places hparts ih =>
    rw [hparts] at ih
    refine ⟨?_, ih.names, ih.head.cons fun name hname => ?_, ih.literals⟩
    · rw [List.cons_append, ih.written]
    · -- a placeholder in the literal would be one in the pattern
      obtain ⟨hopen, hfound⟩ := hname
      obtain ⟨hword, hstart⟩ := placeholder?_eq_some_iff.mp hfound
      have hrest : literal <+: rest := ⟨_, ih.written⟩
      have hsome := opened_eq_some_iff.mpr ⟨hopen, placeholder?_eq_some_iff.mpr
        ⟨hword, hstart.trans hrest⟩⟩
      cases hnone.symm.trans hsome

/-- Where a pattern begins with a placeholder, no literal stands before it. -/
theorem Parted.head_eq_nil {rest head name : Text} {places : List (Text × Text)}
    (h : Parted ('\x7b' :: rest) head places) (hname : placeholder? rest = some name) :
    head = [] := by
  obtain ⟨hword, hstart⟩ := placeholder?_eq_some_iff.mp hname
  cases head with
  | nil => rfl
  | cons c head =>
    exfalso
    obtain ⟨rfl, hwritten⟩ := List.cons.inj h.written
    rcases List.prefix_or_prefix_of_prefix hstart ⟨_, hwritten⟩ with hinside | ⟨back, hback⟩
    · exact h.head name hword (List.cons_prefix_cons.mpr ⟨rfl, hinside⟩).isInfix
    · cases back with
      | nil =>
        rw [List.append_nil] at hback
        exact h.head name hword (hback ▸ List.infix_rfl)
      | cons d back =>
        -- the literal ends inside the placeholder, where no other one opens
        obtain ⟨after, hafter⟩ := hstart
        rw [← hback, ← hwritten, List.append_assoc] at hafter
        have hplaces := List.append_cancel_left hafter
        cases places with
        | nil => cases hplaces
        | cons place places =>
          obtain ⟨rfl, -⟩ := List.cons.inj (hplaces.trans (writtenPlaces_cons _ _ _))
          have hmem : '\x7b' ∈ name ++ ['\x7d'] :=
            hback ▸ List.mem_append_right head List.mem_cons_self
          rcases List.mem_append.mp hmem with hmem | hmem
          · exact absurd (hword.2 _ hmem) (by simp [isWord_brace])
          · exact absurd hmem (by decide)

/-- What follows a placeholder at the front is taken apart on its own. -/
theorem Parted.of_placeholder {name after head : Text} {places : List (Text × Text)}
    (hname : IsWord name) (h : Parted ('\x7b' :: (name ++ ['\x7d'] ++ after)) head places) :
    head = [] ∧ ∃ literal more, places = (name, literal) :: more ∧ Parted after literal more := by
  obtain rfl := h.head_eq_nil (placeholder?_eq_some_iff.mpr ⟨hname, List.prefix_append _ _⟩)
  refine ⟨rfl, ?_⟩
  cases places with
  | nil => cases h.written
  | cons place places =>
    obtain ⟨name', literal⟩ := place
    obtain ⟨hname', hnames⟩ := List.forall_mem_cons.mp h.names
    obtain ⟨hliteral, hliterals⟩ := List.forall_mem_cons.mp h.literals
    have hwritten := h.written
    rw [List.nil_append, writtenPlaces_cons, List.append_assoc] at hwritten
    obtain ⟨rfl, rfl⟩ := name_unique hname' hname (List.cons.inj hwritten).2
    exact ⟨literal, places, rfl, rfl, hnames, hliteral, hliterals⟩

/-- Where no placeholder is at the front, the literal before the first one begins. -/
theorem Parted.of_char {c : Char} {rest head : Text} {places : List (Text × Text)}
    (hnone : (if c = '\x7b' then placeholder? rest else none) = none)
    (h : Parted (c :: rest) head places) : ∃ tail, head = c :: tail ∧ Parted rest tail places := by
  cases head with
  | cons d tail =>
    obtain ⟨rfl, hwritten⟩ := List.cons.inj h.written
    exact ⟨tail, rfl, hwritten, h.names, h.head.tail, h.literals⟩
  | nil =>
    exfalso
    cases places with
    | nil => cases h.written
    | cons place places =>
      obtain ⟨hword, -⟩ := List.forall_mem_cons.mp h.names
      obtain ⟨rfl, rfl⟩ := List.cons.inj ((writtenPlaces_cons _ _ _).symm.trans h.written)
      have hstart : place.1 ++ ['\x7d'] <+:
          place.1 ++ '\x7d' :: (place.2 ++ writtenPlaces places) :=
        ⟨_, by rw [List.append_assoc]; rfl⟩
      have hsome := opened_eq_some_iff.mpr ⟨rfl, placeholder?_eq_some_iff.mpr ⟨hword, hstart⟩⟩
      cases hnone.symm.trans hsome

/-- **There is one way to take a pattern apart.** -/
theorem parts_eq_iff {t head : Text} {places : List (Text × Text)} :
    parts t = (head, places) ↔ Parted t head places := by
  constructor
  · intro h
    have hparted := parted_parts t
    rwa [h] at hparted
  · intro h
    fun_induction parts t generalizing head places with
    | case1 =>
      obtain ⟨rfl, hplaces⟩ := List.append_eq_nil_iff.mp h.written
      cases places with
      | nil => rfl
      | cons place places => cases hplaces
    | case2 c rest name hname literal more hparts ih =>
      obtain ⟨rfl, hfound⟩ := opened_eq_some_iff.mp hname
      obtain ⟨hword, after, rfl⟩ := placeholder?_eq_some_iff.mp hfound
      obtain ⟨rfl, literal', more', rfl, hafter⟩ := h.of_placeholder hword
      rw [drop_name] at hparts ih
      obtain ⟨rfl, rfl⟩ := Prod.mk.inj (hparts.symm.trans (ih hafter))
      rfl
    | case3 c rest hnone literal more hparts ih =>
      obtain ⟨tail, rfl, hrest⟩ := h.of_char hnone
      obtain ⟨rfl, rfl⟩ := Prod.mk.inj (hparts.symm.trans (ih hrest))
      rfl

end ArgumentPattern
end Stencil
