import Stencil.CommandLine.Assignment
import Stencil.Proofs.Value.Paths

/-! # Setting values in data

A value is set at the end of a path (`leads_assign_self`).  A path that diverges from it leads where
it led (`leads_assign_of_diverge`): there is a last map that both paths pass, and from it they go on
under different names.  Of two values on such paths either can be set first, which shows in the
order of entries only (`assign_comm`).

This is so where a path passes maps without an identity (`assignTo_of_leads`).  Where it passes one
with an identity, the value is set in all places of that map.  A path that passes none itself is
then concerned only if there is one in what it leads to (`leads_assignTo_of_diverge`).
-/

namespace Stencil

namespace CommandLine

open Value (Diverge Leads Reordered named)

variable {value : Value} {path other : List Text} {entries entries' : List (Value × Value)}
  {found : Option Value}

/-! ## Setting a value in entries -/

/-- What stands under the first name of a path after a value is set at its end, by what is left of
the path and what stood there. -/
def grown (value : Value) : List Text → Option Value → Value
  | [], _ => value
  | name :: rest, old => .map (assign value (name :: rest) (entriesOf old))

theorem assign_cons (value : Value) (name : Text) (rest : List Text)
    (entries : List (Value × Value)) :
    assign value (name :: rest) entries =
      Value.put (.text name) (grown value rest (named name entries)) entries := by
  cases rest <;> rfl

theorem named_assign_self (value : Value) (name : Text) (rest : List Text)
    (entries : List (Value × Value)) :
    named name (assign value (name :: rest) entries) =
      some (grown value rest (named name entries)) := by
  rw [assign_cons]
  exact Value.lookup_put_self rfl _ _

theorem named_assign_of_ne {name name' : Text} (h : name ≠ name') (value : Value)
    (rest : List Text) (entries : List (Value × Value)) :
    named name' (assign value (name :: rest) entries) = named name' entries := by
  rw [assign_cons]
  exact Value.lookup_put_of_not_sameKey (fun hsame => h (Value.sameKey_text hsame).symm) _ _

/-- **A value is found where it was set.** -/
theorem leads_assign_self (h : path ≠ []) (value : Value) (entries : List (Value × Value)) :
    Leads path (.map (assign value path entries)) (some value) := by
  induction path generalizing entries with
  | nil => exact absurd rfl h
  | cons name rest ih =>
    refine .inside (named_assign_self value name rest entries) ?_
    cases rest with
    | nil => exact .here value
    | cons => exact ih (List.cons_ne_nil _ _) _

theorem entriesOf_of_isJoint_eq_false {v : Value} (h : v.isJoint = false) :
    entriesOf (some v) = [] := by
  cases v <;> first | rfl | cases h

/-- Entries below a first name are those of what stands there, or none. -/
theorem leads_entriesOf {name next : Text} {rest : List Text}
    (h : Leads (name :: next :: rest) (.map entries) found) :
    Leads (next :: rest) (.map (entriesOf (named name entries))) found := by
  cases h with
  | blocked hjoint => cases hjoint
  | absent hnone =>
    rw [hnone]
    exact .absent rfl
  | inside hsome hnext =>
    rw [hsome]
    cases hnext with
    | blocked hjoint =>
      rw [entriesOf_of_isJoint_eq_false hjoint]
      exact .absent rfl
    | absent hnone => exact .absent hnone
    | inside hbelow hrest => exact .inside hbelow hrest

/-- A path with another first name leads where it led. -/
theorem leads_assign_of_ne {name name' : Text} {rest rest' : List Text} (hne : name ≠ name')
    (h : Leads (name' :: rest') (.map entries) found) (value : Value) :
    Leads (name' :: rest') (.map (assign value (name :: rest) entries)) found := by
  have hkeep := named_assign_of_ne hne value rest entries
  cases h with
  | blocked h => cases h
  | absent h => exact .absent (hkeep.trans h)
  | inside h hnext => exact .inside (hkeep.trans h) hnext

/-- **A path that diverges from the assigned one leads where it led.** -/
theorem leads_assign_of_diverge (hdiverge : Diverge path other)
    (h : Leads other (.map entries) found) (value : Value) :
    Leads other (.map (assign value path entries)) found := by
  induction path, other, hdiverge using Diverge.induction generalizing entries with
  | fork name name' rest rest' hne => exact leads_assign_of_ne hne h value
  | common name a b rest rest' _ ih =>
    exact .inside (named_assign_self value name (a :: rest) entries) (ih (leads_entriesOf h))

/-- A path still passes no value with an identity if none is set on it. -/
theorem exists_leads_assign (hvalue : path <+: other → value.IsTree)
    (h : Leads other (.map entries) found) :
    ∃ found', Leads other (.map (assign value path entries)) found' := by
  induction path generalizing other entries with
  | nil => exact ⟨found, h⟩
  | cons name rest ih =>
    cases other with
    | nil => exact ⟨_, .here _⟩
    | cons name' rest' =>
      by_cases hname : name = name'
      · subst hname
        have hself := named_assign_self value name rest entries
        cases rest with
        | nil =>
          have htree := hvalue (List.cons_prefix_cons.mpr ⟨rfl, List.nil_prefix⟩)
          obtain ⟨found', hleads, -⟩ := htree.exists_leads rest'
          exact ⟨found', .inside hself hleads⟩
        | cons =>
          cases rest' with
          | nil => exact ⟨_, .inside hself (.here _)⟩
          | cons =>
            have hrest := fun hprefix => hvalue (List.cons_prefix_cons.mpr ⟨rfl, hprefix⟩)
            obtain ⟨found', hleads⟩ := ih hrest (leads_entriesOf h)
            exact ⟨found', .inside hself hleads⟩
      · exact ⟨found, leads_assign_of_ne hname h value⟩

/-- **Values can be set on diverging paths in either order.** -/
theorem assign_comm (hdiverge : Diverge path other) (value value' : Value)
    (entries : List (Value × Value)) :
    Reordered (assign value' other (assign value path entries))
      (assign value path (assign value' other entries)) := by
  induction path, other, hdiverge using Diverge.induction generalizing entries with
  | fork name name' rest rest' hne =>
    have hkeys : ¬ Value.sameKey (.text name) (.text name') = true := fun hsame =>
      hne (Value.sameKey_text hsame)
    rw [assign_cons value', assign_cons value _ _ (assign value' _ _), named_assign_of_ne hne,
      named_assign_of_ne (Ne.symm hne), assign_cons, assign_cons]
    exact .perm (Value.put_put_perm hkeys _ _ _)
  | common name a b rest rest' _ ih =>
    -- the entries below the name are set twice, in one order or the other
    rw [assign_cons value', assign_cons value _ _ (assign value' _ _), named_assign_self,
      named_assign_self, assign_cons, assign_cons, Value.put_put rfl, Value.put_put rfl]
    exact (ih _).put_map _ _

/-- The entries below a name of a tree are those of a tree. -/
theorem isTree_entriesOf (h : (Value.map entries).IsTree) (name : Text) :
    (Value.map (entriesOf (named name entries))).IsTree := by
  have hnil : (Value.map []).IsTree := .of_parts List.Pairwise.nil rfl
  cases hnamed : named name entries with
  | none => exact hnil
  | some v =>
    cases v with
    | map => exact h.named hnamed
    | _ => exact hnil

/-- A tree stays one when a tree is set in it. -/
theorem isTree_assign (h : (Value.map entries).IsTree) (hvalue : value.IsTree) (path : List Text) :
    (Value.map (assign value path entries)).IsTree := by
  induction path generalizing entries with
  | nil => exact h
  | cons name rest ih =>
    rw [assign_cons]
    refine h.put ?_
    cases rest with
    | nil => exact hvalue
    | cons => exact ih (isTree_entriesOf h name)

/-- The entries below a name can be reordered. -/
theorem reordered_entriesOf (h : Reordered entries entries') (htree : (Value.map entries).IsTree)
    (name : Text) :
    Reordered (entriesOf (named name entries)) (entriesOf (named name entries')) := by
  induction h with
  | perm h =>
    rw [named, named, (Value.isTree_map.mp htree).1.lookup_perm h]
    exact .refl _
  | @inside entries entries' before key after h _ =>
    clear htree
    induction before with
    | nil =>
      by_cases hkey : Value.sameKey (.text name) key = true
      · rw [List.nil_append, List.nil_append, named, named, Value.lookup_cons_of_sameKey hkey,
          Value.lookup_cons_of_sameKey hkey]
        exact h
      · rw [List.nil_append, List.nil_append, named, named, Value.lookup_cons_of_not_sameKey hkey,
          Value.lookup_cons_of_not_sameKey hkey]
        exact .refl _
    | cons e rest ih =>
      rw [List.cons_append, List.cons_append]
      by_cases he : Value.sameKey (.text name) e.1 = true
      · rw [named, named, Value.lookup_cons_of_sameKey he, Value.lookup_cons_of_sameKey he]
        exact .refl _
      · rw [named, named, Value.lookup_cons_of_not_sameKey he, Value.lookup_cons_of_not_sameKey he]
        exact ih
  | trans h _ ih ih' => exact (ih htree).trans (ih' (h.isTree htree))

/-- A value can be set in a reordered tree. -/
theorem reordered_assign (h : Reordered entries entries') (htree : (Value.map entries).IsTree)
    (value : Value) (path : List Text) :
    Reordered (assign value path entries) (assign value path entries') := by
  induction path generalizing entries entries' with
  | nil => exact h
  | cons name rest ih =>
    rw [assign_cons, assign_cons]
    cases rest with
    | nil => exact h.put htree _ _
    | cons =>
      have hinside := ih (reordered_entriesOf h htree name) (isTree_entriesOf htree name)
      exact (h.put htree _ _).trans (hinside.put_map _ _)

/-! ## Setting a value in data -/

theorem changedAll_eq_map (id : Nat) (change : Value → Value) (items : List Value) :
    changedAll id change items = items.map (changed id change) := by
  induction items with
  | nil => rfl
  | cons v rest ih => rw [changedAll, ih, List.map_cons]

theorem changedEntries_eq_map (id : Nat) (change : Value → Value)
    (entries : List (Value × Value)) :
    changedEntries id change entries = entries.map fun e => (e.1, changed id change e.2) := by
  induction entries with
  | nil => rfl
  | cons e rest ih => rw [changedEntries, ih, List.map_cons]

theorem named_changedEntries (id : Nat) (change : Value → Value) (name : Text)
    (entries : List (Value × Value)) :
    named name (changedEntries id change entries) =
      (named name entries).map (changed id change) := by
  rw [changedEntries_eq_map, named, Value.lookup, List.find?_map, Option.map_map, named,
    Value.lookup, Option.map_map]
  rfl

/-- A tree has nothing to be changed in. -/
theorem changed_of_isTree {v : Value} (h : v.IsTree) (id : Nat) (change : Value → Value) :
    changed id change v = v := by
  induction h with
  | @intro v here inside ih =>
    cases v with
    | list items | tuple items =>
      have hall : ∀ u ∈ items, changed id change u = u := ih
      rw [changed, changedAll_eq_map, List.map_congr_left hall, List.map_id']
    | map entries =>
      have hall : ∀ e ∈ entries, (e.1, changed id change e.2) = e := fun e he => by
        rw [ih e.2 (List.mem_append_right _ (List.mem_map_of_mem he))]
      rw [changed, changedEntries_eq_map, List.map_congr_left hall, List.map_id']
    | shared => exact here.elim
    | _ => rfl

/-- A path that passes no value with an identity passes none after a change. -/
theorem leads_changed {v : Value} (h : Leads path v found) (id : Nat) (change : Value → Value) :
    Leads path (changed id change v) (found.map (changed id change)) := by
  induction h with
  | here v => exact .here _
  | @blocked name rest v h =>
    have hjoint : (changed id change v).isJoint = false := by
      cases v <;> first | rfl | cases h
    exact .blocked hjoint
  | absent h =>
    refine .absent ?_
    rw [named_changedEntries, h, Option.map_none]
  | inside h _ ih =>
    refine .inside ?_ ih
    rw [named_changedEntries, h, Option.map_some]

/-- Where a path is followed from when it comes to a value. -/
def arrive (start : Place) (path : List Text) : Value → Place
  | .shared id _ => ⟨some id, path⟩
  | _ => start

theorem arrive_of_identity_eq_none {start : Place} {v : Value}
    (h : (arrive start path v).identity = none) : arrive start path v = start := by
  cases v <;> first | rfl | cases h

theorem placeFrom_cons (start : Place) (name : Text) (rest : List Text) (v : Value) :
    placeFrom start (name :: rest) v =
      match v.entries?.bind (named name) with
      | none => arrive start (name :: rest) v
      | some next =>
        if next.entries?.isSome && !rest.isEmpty
        then placeFrom (arrive start (name :: rest) v) rest next
        else arrive start (name :: rest) v := by
  cases v <;> rfl

/-- A place without an identity is where it was started from. -/
theorem placeFrom_of_identity_eq_none {start : Place} {v : Value}
    (h : (placeFrom start path v).identity = none) : placeFrom start path v = start := by
  induction path generalizing start v with
  | nil => rfl
  | cons name rest ih =>
    rw [placeFrom_cons] at h ⊢
    split at h
    · exact arrive_of_identity_eq_none h
    · split at h
      · rename_i hfurther
        have hnext := ih h
        rw [hnext] at h
        rw [if_pos hfurther]
        exact hnext.trans (arrive_of_identity_eq_none h)
      · rename_i hlast
        rw [if_neg hlast]
        exact arrive_of_identity_eq_none h

/-- A path that passes no value with an identity is followed from the start. -/
theorem placeFrom_of_leads {v : Value} (h : Leads path v found) (start : Place) :
    placeFrom start path v = start := by
  induction h with
  | here v => rfl
  | @blocked name rest v h =>
    rw [placeFrom_cons, Value.entries?_of_isJoint_eq_false h]
    cases v <;> first | rfl | cases h
  | @absent name rest entries h =>
    have hnamed : (Value.map entries).entries?.bind (named name) = none := h
    rw [placeFrom_cons, hnamed]
    rfl
  | @inside name rest entries next found h _ ih =>
    have hnamed : (Value.map entries).entries?.bind (named name) = some next := h
    rw [placeFrom_cons, hnamed]
    dsimp only [arrive]
    split
    · exact ih
    · rfl

/-- **A value is set in entries where its path passes no value with an identity.** -/
theorem assignTo_of_leads (h : Leads path (.map entries) found) (value : Value) :
    assignTo value path (.map entries) = .map (assign value path entries) := by
  have hplace : place path (.map entries) = ⟨none, path⟩ := placeFrom_of_leads h _
  rw [assignTo, hplace]
  rfl

/-- Data stay a map. The value is set in its entries, or it is changed where an identity is. -/
theorem assignTo_map_cases (value : Value) (path : List Text) (entries : List (Value × Value)) :
    assignTo value path (.map entries) = .map (assign value path entries) ∨
      ∃ id change,
        assignTo value path (.map entries) = .map (changedEntries id change entries) := by
  rw [assignTo]
  cases hidentity : (place path (.map entries)).identity with
  | none =>
    have hplace : place path (.map entries) = ⟨none, path⟩ :=
      placeFrom_of_identity_eq_none hidentity
    refine Or.inl ?_
    rw [hplace]
    rfl
  | some id => exact Or.inr ⟨id, _, rfl⟩

/-- **A path of trees that diverges from the assigned one leads where it led**, wherever the value
is set. -/
theorem leads_assignTo_of_diverge (hdiverge : Diverge path other)
    (h : Leads other (.map entries) found) (htree : ∀ v, found = some v → v.IsTree)
    (value : Value) :
    ∃ entries', assignTo value path (.map entries) = .map entries' ∧
      Leads other (.map entries') found := by
  rcases assignTo_map_cases value path entries with heq | ⟨id, change, heq⟩
  · exact ⟨_, heq, leads_assign_of_diverge hdiverge h value⟩
  · have hchanged := leads_changed h id change
    have hfound : found.map (changed id change) = found := by
      cases found with
      | none => rfl
      | some v => rw [Option.map_some, changed_of_isTree (htree v rfl)]
    rw [hfound] at hchanged
    exact ⟨_, heq, hchanged⟩

/-- A path still passes no value with an identity if none is set on it. -/
theorem exists_leads_assignTo (hvalue : path <+: other → value.IsTree)
    (h : Leads other (.map entries) found) :
    ∃ entries' found', assignTo value path (.map entries) = .map entries' ∧
      Leads other (.map entries') found' := by
  rcases assignTo_map_cases value path entries with heq | ⟨id, change, heq⟩
  · obtain ⟨found', hleads⟩ := exists_leads_assign hvalue h
    exact ⟨_, found', heq, hleads⟩
  · exact ⟨_, _, heq, leads_changed h id change⟩

end CommandLine

end Stencil
