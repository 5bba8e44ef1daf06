import Stencil.Proofs.Source.Arguments
import Stencil.Proofs.Source.Concatenation
import Stencil.Proofs.Source.Placeholders

/-! # Matching a pattern is lazy

A text follows a pattern if it is the head and, for each placeholder, a stretch of text with the
literal after it (`ArgumentPattern.Follows`).  Of all rows of stretches that a text can be cut into
like that, matching finds the one with the least lengths, the first being the most important
(`ArgumentPattern.Least`), and it fails only if there is none.

The search for the next literal never goes back.  It need not: where a row of stretches has the
literal later than at its first occurrence, the stretch before it can be made shorter and the next
one longer (`Stretches.lengthen`), so that a text with any row of stretches has one that starts like
the search.  Only the last literal is fixed, by the end of the text.
-/

namespace Stencil

namespace ArgumentPattern
open Text

/-- A text is stretches, one for each placeholder, with the literal after it. -/
inductive Stretches : List (Text × Text) → List Text → Text → Prop where
  | nil : Stretches [] [] []
  | cons {name literal value rest : Text} {places : List (Text × Text)} {values : List Text}
      (h : Stretches places values rest) :
      Stretches ((name, literal) :: places) (value :: values) (value ++ literal ++ rest)

/-- A text is the head of a pattern and then stretches for its placeholders. -/
def Follows (pattern : ArgumentPattern) (values : List Text) (t : Text) : Prop :=
  ∃ rest, t = pattern.head ++ rest ∧ Stretches pattern.places values rest

/-- No other row of stretches comes earlier in the order of their lengths. -/
def Least (fits : List Text → Prop) (values : List Text) : Prop :=
  fits values ∧ ∀ other, fits other →
    ¬ List.Lex (· < ·) (other.map List.length) (values.map List.length)

/-- A mapping has each name once, in the order in which they came up, with the last of its stretches
without the whitespace around it. -/
structure Binds (names values : List Text) (arguments : Arguments) : Prop where
  keys : arguments.map Prod.fst = names.eraseDups
  last : ∀ name, arguments.find? name = ((names.zip values).reverse.lookup name).map Text.trim

/-! ## Stretches -/

variable {places : List (Text × Text)} {values : List Text} {t : Text}

theorem Stretches.length_eq (h : Stretches places values t) : values.length = places.length := by
  induction h with
  | nil => rfl
  | cons h ih => rw [List.length_cons, List.length_cons, ih]

/-- A literal occurs where the stretch before it ends. -/
theorem occursAt_length (value literal rest : Text) :
    OccursAt literal (value ++ literal ++ rest) value.length := by
  rw [OccursAt, List.append_assoc, List.drop_left]
  exact List.prefix_append _ _

/-- What stands before stretches can be put to the first of them. -/
theorem Stretches.lengthen (h : Stretches places values t) (hne : places ≠ []) (front : Text) :
    ∃ values', Stretches places values' (front ++ t) := by
  cases h with
  | nil => exact absurd rfl hne
  | @cons name literal value rest places values h =>
    refine ⟨(front ++ value) :: values, ?_⟩
    have hcons : Stretches ((name, literal) :: places) ((front ++ value) :: values)
        (front ++ value ++ literal ++ rest) := h.cons
    rwa [List.append_assoc, List.append_assoc, ← List.append_assoc value] at hcons

theorem stretches_single_iff {name literal : Text} :
    Stretches [(name, literal)] values t ↔ ∃ value, values = [value] ∧ t = value ++ literal := by
  constructor
  · intro h
    cases h with
    | cons h =>
      cases h
      exact ⟨_, rfl, List.append_nil _⟩
  · rintro ⟨value, rfl, rfl⟩
    have hcons : Stretches [(name, literal)] [value] (value ++ literal ++ []) := .cons .nil
    rwa [List.append_nil] at hcons

/-- The lengths of stretches tell where they are. -/
theorem Stretches.eq_of_lengths_eq {other : List Text} (h : Stretches places values t)
    (h' : Stretches places other t)
    (hlengths : values.map List.length = other.map List.length) : values = other := by
  induction h generalizing other with
  | nil =>
    cases h'
    rfl
  | @cons name literal value rest places values h ih =>
    generalize ht : value ++ literal ++ rest = t at h'
    cases h' with
    | @cons _ _ value' rest' _ values' h' =>
      obtain ⟨hlength, hmore⟩ := List.cons.inj hlengths
      rw [List.append_assoc, List.append_assoc] at ht
      obtain ⟨rfl, hrest⟩ := List.append_inj ht hlength
      obtain rfl := List.append_cancel_left hrest
      rw [ih h' hmore]

/-! ## The search is lazy -/

/-- Where the first stretch cannot be shorter and the others are least, all of them are least. -/
theorem least_cons (name literal value : Text) {rest : Text}
    (hleast : Least (Stretches places · rest) values)
    (hfirst : ∀ k < value.length, ¬ OccursAt literal (value ++ literal ++ rest) k) :
    Least (Stretches ((name, literal) :: places) · (value ++ literal ++ rest))
      (value :: values) := by
  refine ⟨hleast.1.cons, fun other hother hless => ?_⟩
  generalize ht : value ++ literal ++ rest = t at hfirst hother
  cases hother with
  | @cons _ _ value' rest' _ values' hrest' =>
    rw [List.map_cons, List.map_cons, List.cons_lex_cons_iff] at hless
    rcases hless with hlt | ⟨heq, hless⟩
    · exact hfirst _ hlt (occursAt_length _ _ _)
    · rw [List.append_assoc, List.append_assoc] at ht
      obtain ⟨rfl, hrest⟩ := List.append_inj ht heq.symm
      obtain rfl := List.append_cancel_left hrest
      exact hleast.2 _ hrest' hless

/-- A single stretch is fixed by the end of the text. -/
theorem least_single (name literal value : Text) :
    Least (Stretches [(name, literal)] · (value ++ literal)) [value] := by
  refine ⟨stretches_single_iff.mpr ⟨value, rfl, rfl⟩, fun other hother hless => ?_⟩
  obtain ⟨value', rfl, hvalue⟩ := stretches_single_iff.mp hother
  rw [List.append_cancel_right hvalue] at hless
  exact List.lex_irrefl Nat.lt_irrefl _ hless

theorem least_nil : Least (Stretches [] · []) [] := by
  refine ⟨.nil, fun other hother hless => ?_⟩
  cases hother
  cases hless

/-- Where no literal but the last occurs in the stretch before it and itself any earlier than at the
end of the stretch, no stretch can be shorter. -/
theorem Stretches.least (h : Stretches places values t)
    (hfirst : ∀ b ∈ ((places.map Prod.snd).zip values).dropLast,
      ∀ k < b.2.length, ¬ OccursAt b.1 (b.2 ++ b.1) k) : Least (Stretches places · t) values := by
  induction h with
  | nil => exact least_nil
  | @cons name literal value rest places values h ih =>
    cases h with
    | nil =>
      rw [List.append_nil]
      exact least_single name literal value
    | cons h =>
      rw [List.map_cons, List.map_cons, List.zip_cons_cons, List.zip_cons_cons,
        List.dropLast_cons_cons] at hfirst
      obtain ⟨hvalue, hlater⟩ := List.forall_mem_cons.mp hfirst
      refine least_cons name literal value (ih hlater) fun k hk hoccurs =>
        hvalue k hk (hoccurs.of_append ?_)
      rw [List.length_append]
      exact Nat.add_le_add_right (Nat.le_of_lt hk) _

/-- The text up to the first occurrence of a literal, the literal, and what follows. -/
theorem eq_of_indexOf? {literal : Text} {n : Nat} (h : indexOf? literal t = some n) :
    (t.take n).length = n ∧ t = t.take n ++ literal ++ t.drop (n + literal.length) := by
  obtain ⟨hoccurs, hmin⟩ := indexOf?_eq_some_iff.mp h
  have hle : n ≤ t.length := by
    by_contra hlt
    -- beyond the end there is nothing that is not there at the end already
    refine hmin t.length (Nat.lt_of_not_le hlt) ?_
    rw [OccursAt, List.drop_eq_nil_of_le (Nat.le_of_not_le hlt)] at hoccurs
    rwa [OccursAt, List.drop_length]
  refine ⟨by rw [List.length_take, Nat.min_eq_left hle], ?_⟩
  obtain ⟨rest, hrest⟩ := hoccurs
  rw [← List.drop_drop, ← hrest, List.drop_left, List.append_assoc, hrest, List.take_append_drop]

theorem bind_eq_some {bindings : List (Text × Text)} (h : bind places t = some bindings) :
    ∃ values, bindings = (places.map Prod.fst).zip values ∧
      Least (Stretches places · t) values := by
  fun_induction bind places t generalizing bindings with
  | case1 t hempty =>
    obtain rfl := Option.some.inj h
    obtain rfl := List.isEmpty_iff.mp hempty
    exact ⟨[], rfl, least_nil⟩
  | case2 => cases h
  | case3 name literal t hsuffix =>
    obtain rfl := Option.some.inj h
    have ht := List.suffix_iff_eq_append.mp (List.isSuffixOf_iff_suffix.mp hsuffix)
    have hleast := least_single name literal (t.take (t.length - literal.length))
    rw [ht] at hleast
    exact ⟨_, rfl, hleast⟩
  | case4 => cases h
  | case5 => cases h
  | case6 name literal more t hmore n hn ih =>
    obtain ⟨later, hlater, rfl⟩ := Option.map_eq_some_iff.mp h
    obtain ⟨values, rfl, hleast⟩ := ih hlater
    obtain ⟨hlength, ht⟩ := eq_of_indexOf? hn
    refine ⟨t.take n :: values, rfl, ?_⟩
    have hcons := least_cons name literal (t.take n) hleast
    rw [← ht, hlength] at hcons
    exact hcons (indexOf?_eq_some_iff.mp hn).2

theorem bind_eq_none (h : bind places t = none) (values : List Text) :
    ¬ Stretches places values t := by
  intro hstretches
  fun_induction bind places t generalizing values with
  | case1 => cases h
  | case2 t hne =>
    cases hstretches
    exact hne rfl
  | case3 => cases h
  | case4 name literal t hsuffix =>
    obtain ⟨value, -, rfl⟩ := stretches_single_iff.mp hstretches
    exact hsuffix (List.isSuffixOf_iff_suffix.mpr (List.suffix_append _ _))
  | case5 name literal more t hmore hnone =>
    cases hstretches with
    | cons hrest => exact indexOf?_eq_none_iff.mp hnone _ (occursAt_length _ _ _)
  | case6 name literal more t hmore n hn ih =>
    have hnone := Option.map_eq_none_iff.mp h
    -- the first stretch can be cut short at the first occurrence of its literal
    cases hstretches with
    | @cons _ _ value rest _ values hrest =>
      have hle : n ≤ value.length := by
        by_contra hlt
        exact (indexOf?_eq_some_iff.mp hn).2 _ (Nat.lt_of_not_le hlt) (occursAt_length _ _ _)
      have hdrop : (value ++ literal ++ rest).drop (n + literal.length) =
          (value ++ literal).drop (n + literal.length) ++ rest :=
        List.drop_append_of_le_length (by rw [List.length_append]; omega)
      rw [hdrop] at hnone ih
      obtain ⟨values', hvalues'⟩ := hrest.lengthen hmore _
      exact ih hnone values' hvalues'

end ArgumentPattern

/-! ## The last binding of a name counts -/

namespace Arguments

theorem ofBindings_concat (bindings : List (Text × Text)) (b : Text × Text) :
    ofBindings (bindings ++ [b]) = put b.1 b.2 (ofBindings bindings) := by
  rw [ofBindings, List.foldl_append]
  rfl

theorem keys_put (name value : Text) (arguments : Arguments) :
    (put name value arguments).map Prod.fst =
      if name ∈ arguments.map Prod.fst then arguments.map Prod.fst
      else arguments.map Prod.fst ++ [name] := by
  induction arguments with
  | nil => rfl
  | cons a rest ih =>
    rw [put, List.map_cons]
    by_cases hname : name = a.1
    · rw [if_pos hname, if_pos (hname ▸ List.mem_cons_self), List.map_cons, hname]
    · rw [if_neg hname, List.map_cons, ih]
      by_cases hrest : name ∈ rest.map Prod.fst
      · rw [if_pos hrest, if_pos (List.mem_cons_of_mem _ hrest)]
      · rw [if_neg hrest, if_neg (by simp [hname, hrest]), List.cons_append]

theorem find?_cons (a : Text × Text) (rest : Arguments) (key : Text) :
    find? (a :: rest) key = if key = a.1 then some a.2 else rest.find? key := by
  rw [find?, List.lookup_cons]
  split
  · rename_i hkey
    rw [if_pos (beq_iff_eq.mp hkey)]
  · rename_i hkey
    rw [if_neg (beq_eq_false_iff_ne.mp hkey)]
    rfl

theorem find?_put (name value key : Text) (arguments : Arguments) :
    (put name value arguments).find? key =
      if key = name then some value else arguments.find? key := by
  induction arguments with
  | nil => exact find?_cons (name, value) [] key
  | cons a rest ih =>
    rw [put]
    by_cases hname : name = a.1
    · rw [if_pos hname, find?_cons, find?_cons, ← hname]
      by_cases hkey : key = name
      · rw [if_pos hkey, if_pos hkey]
      · rw [if_neg hkey, if_neg hkey, if_neg hkey]
    · rw [if_neg hname, find?_cons, find?_cons, ih]
      by_cases hkey : key = a.1
      · rw [if_pos hkey, if_neg (hkey ▸ Ne.symm hname), if_pos hkey]
      · rw [if_neg hkey, if_neg hkey]

/-- Each name is kept once, where it came up first. -/
theorem keys_ofBindings (bindings : List (Text × Text)) :
    (ofBindings bindings).map Prod.fst = (bindings.map Prod.fst).eraseDups := by
  induction bindings using List.reverseRecOn with
  | nil => rfl
  | append_singleton bindings b ih =>
    rw [ofBindings_concat, keys_put, ih, List.map_append, List.eraseDups_append]
    by_cases hmem : b.1 ∈ bindings.map Prod.fst
    · have hnone : [b.1].removeAll (bindings.map Prod.fst) = [] := by simp [List.removeAll, hmem]
      rw [if_pos (List.mem_eraseDups.mpr hmem), List.map_singleton, hnone, List.eraseDups_nil,
        List.append_nil]
    · have hone : [b.1].removeAll (bindings.map Prod.fst) = [b.1] := by
        simpa [List.removeAll] using hmem
      rw [if_neg (fun h => hmem (List.mem_eraseDups.mp h)), List.map_singleton, hone]
      rfl

/-- What is found under a name is its last binding. -/
theorem find?_ofBindings (bindings : List (Text × Text)) (name : Text) :
    (ofBindings bindings).find? name = bindings.reverse.lookup name := by
  induction bindings using List.reverseRecOn with
  | nil => rfl
  | append_singleton bindings b ih =>
    rw [ofBindings_concat, find?_put, ih, List.reverse_append]
    exact (find?_cons b bindings.reverse name).symm

theorem nodup_keys_ofBindings (bindings : List (Text × Text)) :
    ((ofBindings bindings).map Prod.fst).Nodup := by
  induction bindings using List.reverseRecOn with
  | nil => exact List.nodup_nil
  | append_singleton bindings b ih =>
    rw [ofBindings_concat, keys_put]
    split
    · exact ih
    · rename_i hmem
      rw [← List.concat_eq_append]
      exact ih.concat hmem

/-- Mappings are known by their names, in order, and by what is found under them. -/
theorem eq_of_keys_eq {a b : Arguments} (hkeys : a.map Prod.fst = b.map Prod.fst)
    (hnodup : (a.map Prod.fst).Nodup) (hfind : ∀ name, a.find? name = b.find? name) : a = b := by
  induction a generalizing b with
  | nil => exact (List.map_eq_nil_iff.mp hkeys.symm).symm
  | cons first rest ih =>
    cases b with
    | nil => cases hkeys
    | cons first' rest' =>
      obtain ⟨hname, hrest⟩ := List.cons.inj hkeys
      obtain ⟨hnotMem, hnodup⟩ := List.nodup_cons.mp hnodup
      have hnone : ∀ {c : Arguments}, first.1 ∉ c.map Prod.fst → c.find? first.1 = none := by
        intro c hc
        refine List.lookup_eq_none_iff.mpr fun entry hentry => bne_iff_ne.mpr fun heq => hc ?_
        exact heq ▸ List.mem_map_of_mem hentry
      have hvalue : first.2 = first'.2 := by
        have h := hfind first.1
        rw [find?_cons, find?_cons, if_pos rfl, if_pos hname] at h
        exact Option.some.inj h
      rw [Prod.ext hname hvalue, ih hrest hnodup fun name => ?_]
      -- under the first name the rest has nothing
      by_cases heq : name = first.1
      · rw [heq, hnone hnotMem, hnone (hrest ▸ hnotMem)]
      · have h := hfind name
        rwa [find?_cons, find?_cons, if_neg heq, if_neg (hname ▸ heq)] at h

/-- A new name is put behind the others. -/
theorem put_of_notMem {name : Text} {arguments : Arguments}
    (h : name ∉ arguments.map Prod.fst) (value : Text) :
    put name value arguments = arguments ++ [(name, value)] := by
  induction arguments with
  | nil => rfl
  | cons a rest ih =>
    rw [List.map_cons, List.mem_cons, not_or] at h
    rw [put, if_neg h.1, ih h.2, List.cons_append]

/-- Bindings of different names are kept as they are. -/
theorem ofBindings_of_nodup {bindings : List (Text × Text)}
    (h : (bindings.map Prod.fst).Nodup) : ofBindings bindings = bindings := by
  induction bindings using List.reverseRecOn with
  | nil => rfl
  | append_singleton bindings b ih =>
    rw [List.map_append, List.map_singleton, ← List.concat_eq_append, List.nodup_concat] at h
    rw [ofBindings_concat, ih h.2, put_of_notMem h.1]

end Arguments

namespace ArgumentPattern
open Text

variable {pattern : ArgumentPattern} {arguments : Arguments} {values : List Text} {t : Text}

/-- The mapping of stretches to names is what the bindings make. -/
theorem binds_iff {names values : List Text} {arguments : Arguments}
    (hlength : values.length = names.length) :
    Binds names values arguments ↔
      arguments = Arguments.ofBindings ((names.zip values).map fun b => (b.1, Text.trim b.2)) := by
  have hkeys : ((names.zip values).map fun b => (b.1, Text.trim b.2)).map Prod.fst = names := by
    rw [List.map_map]
    exact List.map_fst_zip (Nat.le_of_eq hlength.symm)
  have hlookup : ∀ (bindings : List (Text × Text)) (name : Text),
      (bindings.map fun b => (b.1, Text.trim b.2)).lookup name =
        (bindings.lookup name).map Text.trim := by
    intro bindings name
    induction bindings with
    | nil => rfl
    | cons b rest ih =>
      rw [List.map_cons, List.lookup_cons, List.lookup_cons, ih]
      split <;> rfl
  have hbinds : Binds names values
      (Arguments.ofBindings ((names.zip values).map fun b => (b.1, Text.trim b.2))) := by
    refine ⟨by rw [Arguments.keys_ofBindings, hkeys], fun name => ?_⟩
    rw [Arguments.find?_ofBindings, ← List.map_reverse, hlookup]
  constructor
  · intro h
    refine Arguments.eq_of_keys_eq (h.keys.trans hbinds.keys.symm) ?_ fun name =>
      (h.last name).trans (hbinds.last name).symm
    rw [h.keys, ← hbinds.keys]
    exact Arguments.nodup_keys_ofBindings _
  · rintro rfl
    exact hbinds

/-! ## Matching -/

theorem follows_append_iff {rest : Text} :
    pattern.Follows values (pattern.head ++ rest) ↔ Stretches pattern.places values rest :=
  ⟨fun ⟨_, ht, h⟩ => List.append_cancel_left ht ▸ h, fun h => ⟨rest, rfl, h⟩⟩

/-- What follows a pattern begins with its head. -/
theorem match?_of_head {rest : Text} (h : Text.trim t = pattern.head ++ rest) :
    pattern.match? t = (bind pattern.places rest).map fun bindings =>
      Arguments.ofBindings (bindings.map fun b => (b.1, Text.trim b.2)) := by
  have hhead : pattern.head.isPrefixOf (pattern.head ++ rest) = true :=
    List.isPrefixOf_iff_prefix.mpr (List.prefix_append _ _)
  rw [match?, h, if_pos hhead, List.drop_left]

theorem match?_of_not_head (h : ¬ pattern.head <+: Text.trim t) : pattern.match? t = none := by
  rw [match?]
  exact if_neg fun hhead => h (List.isPrefixOf_iff_prefix.mp hhead)

/-- Matching finds the least row of stretches. -/
theorem exists_of_match? (h : pattern.match? t = some arguments) :
    ∃ values, Least (pattern.Follows · (Text.trim t)) values ∧
      Binds pattern.names values arguments := by
  by_cases hhead : pattern.head <+: Text.trim t
  · obtain ⟨rest, hrest⟩ := hhead
    rw [match?_of_head hrest.symm] at h
    obtain ⟨bindings, hbind, rfl⟩ := Option.map_eq_some_iff.mp h
    obtain ⟨values, rfl, hleast⟩ := bind_eq_some hbind
    have hlength := hleast.1.length_eq
    refine ⟨values, ?_, (binds_iff (hlength.trans (List.length_map _).symm)).mpr rfl⟩
    rw [← hrest]
    exact ⟨follows_append_iff.mpr hleast.1, fun other hother =>
      hleast.2 other (follows_append_iff.mp hother)⟩
  · rw [match?_of_not_head hhead] at h
    cases h

/-- Matching fails only where there is no row of stretches. -/
theorem match?_eq_none_iff :
    pattern.match? t = none ↔ ∀ values, ¬ pattern.Follows values (Text.trim t) := by
  constructor
  · rintro h values ⟨rest, hrest, hstretches⟩
    rw [match?_of_head hrest] at h
    exact bind_eq_none (Option.map_eq_none_iff.mp h) values hstretches
  · intro h
    cases hmatch : pattern.match? t with
    | none => rfl
    | some arguments =>
      obtain ⟨values, hleast, -⟩ := exists_of_match? hmatch
      exact absurd hleast.1 (h values)

/-- There is one least row of stretches only. -/
theorem Least.unique {other : List Text} (h : Least (pattern.Follows · t) values)
    (h' : Least (pattern.Follows · t) other) : values = other := by
  obtain ⟨⟨rest, ht, hstretches⟩, hmin⟩ := h
  obtain ⟨⟨rest', ht', hstretches'⟩, hmin'⟩ := h'
  obtain rfl := List.append_cancel_left (ht.symm.trans ht')
  refine hstretches.eq_of_lengths_eq hstretches' ?_
  exact List.lex_trichotomous (fun x y hx hy => Nat.le_antisymm (Nat.le_of_not_lt hy)
    (Nat.le_of_not_lt hx)) (hmin _ ⟨rest, ht, hstretches'⟩) (hmin' _ ⟨rest, ht, hstretches⟩)

theorem match?_eq_some_iff :
    pattern.match? t = some arguments ↔
      ∃ values, Least (pattern.Follows · (Text.trim t)) values ∧
        Binds pattern.names values arguments := by
  refine ⟨exists_of_match?, fun ⟨values, hleast, hbinds⟩ => ?_⟩
  cases hmatch : pattern.match? t with
  | none => exact absurd hleast.1 (match?_eq_none_iff.mp hmatch values)
  | some found =>
    obtain ⟨values', hleast', hbinds'⟩ := exists_of_match? hmatch
    obtain rfl := hleast.unique hleast'
    obtain ⟨rest, -, hstretches⟩ := hleast.1
    have hlength : values.length = pattern.names.length :=
      hstretches.length_eq.trans (List.length_map _).symm
    rw [(binds_iff hlength).mp hbinds, (binds_iff hlength).mp hbinds']

/-- Stretches with different names and no whitespace around them are found as they are, if none of
them can be shorter. -/
theorem match?_of_follows (h : pattern.Follows values t) (htrim : Text.trim t = t)
    (hnames : pattern.names.Nodup) (hvalues : ∀ value ∈ values, Text.trim value = value)
    (hfirst : ∀ b ∈ ((pattern.places.map Prod.snd).zip values).dropLast,
      ∀ k < b.2.length, ¬ OccursAt b.1 (b.2 ++ b.1) k) :
    pattern.match? t = some (pattern.names.zip values) := by
  obtain ⟨rest, rfl, hstretches⟩ := h
  have hlength : values.length = pattern.names.length :=
    hstretches.length_eq.trans (List.length_map _).symm
  have hleast := hstretches.least hfirst
  refine match?_eq_some_iff.mpr ⟨values, ?_, (binds_iff hlength).mpr ?_⟩
  · rw [htrim]
    exact ⟨follows_append_iff.mpr hleast.1, fun other hother =>
      hleast.2 other (follows_append_iff.mp hother)⟩
  · have htrimmed : ∀ b ∈ pattern.names.zip values, (b.1, Text.trim b.2) = b := fun b hb =>
      Prod.ext rfl (hvalues b.2 (List.of_mem_zip hb).2)
    have hkeys : (pattern.names.zip values).map Prod.fst = pattern.names :=
      List.map_fst_zip (Nat.le_of_eq hlength.symm)
    rw [List.map_congr_left htrimmed, List.map_id', Arguments.ofBindings_of_nodup]
    rwa [hkeys]

/-- **Matching is exact and lazy.**  A pattern is taken apart in the one way there is.  A text is
matched exactly if it is, without the whitespace around it, the head and stretches with the literals
after them; then the names are bound to the stretches of least lengths, the first being the most
important.  Otherwise there are no arguments.  In particular, what was filled in for different names
is found again, if none of the literals but the last comes earlier than it was put. -/
theorem match?_least (pattern : Text) :
    ∃ p : ArgumentPattern, ofText pattern = p ∧
      (∀ head places, Parted pattern head places ↔ p = ⟨pattern, head, places⟩) ∧
      ∀ t : Text,
        (∀ arguments, p.match? t = some arguments ↔
          ∃ values, Least (p.Follows · (Text.trim t)) values ∧ Binds p.names values arguments) ∧
        (p.match? t = none ↔ ∀ values, ¬ p.Follows values (Text.trim t)) ∧
        (p.match? t = none → p.extract t = []) ∧
        ∀ values, p.Follows values t → Text.trim t = t → p.names.Nodup →
          (∀ value ∈ values, Text.trim value = value) →
          (∀ b ∈ ((p.places.map Prod.snd).zip values).dropLast,
            ∀ k < b.2.length, ¬ OccursAt b.1 (b.2 ++ b.1) k) →
          p.match? t = some (p.names.zip values) := by
  refine ⟨ofText pattern, rfl, fun head places => ?_, fun t => ⟨fun arguments =>
    match?_eq_some_iff, match?_eq_none_iff, fun hnone => ?_, fun values hfollows htrim hnames
      hvalues hfirst => match?_of_follows hfollows htrim hnames hvalues hfirst⟩⟩
  · rw [← parts_eq_iff, ofText]
    constructor
    · intro hparts
      rw [hparts]
    · intro hpattern
      exact Prod.ext (congrArg ArgumentPattern.head hpattern)
        (congrArg ArgumentPattern.places hpattern)
  · rw [extract, hnone]
    rfl

/-- The literal between two placeholders occurs twice, and the first stretch ends where it occurs
first. -/
theorem match?_least_twice :
    ofText (ofString "\x7ba\x7d in \x7bb\x7d") =
        ⟨ofString "\x7ba\x7d in \x7bb\x7d", [], [(['a'], ofString " in "), (['b'], [])]⟩ ∧
      (ofText (ofString "\x7ba\x7d in \x7bb\x7d")).match? (ofString "x in y in z") =
        some [(['a'], ['x']), (['b'], ofString "y in z")] := by
  have hparts : ofText (ofString "\x7ba\x7d in \x7bb\x7d") =
      ⟨ofString "\x7ba\x7d in \x7bb\x7d", [], [(['a'], ofString " in "), (['b'], [])]⟩ := by
    cbv
  obtain ⟨_, rfl, -, hmatch⟩ := match?_least (ofString "\x7ba\x7d in \x7bb\x7d")
  obtain ⟨-, -, -, hfound⟩ := hmatch (ofString "x in y in z")
  rw [hparts] at hfound ⊢
  exact ⟨rfl, hfound [['x'], ofString "y in z"] ⟨_, rfl, .cons (.cons .nil)⟩ (by decide) (by decide)
    (by decide) (by decide)⟩

end ArgumentPattern
end Stencil
