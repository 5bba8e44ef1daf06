import Stencil.Proofs.Grammar.Registration
import Stencil.Proofs.Value.Parts

/-! # Paths into maps

A path of names leads from a map to a value inside, or to nothing (`Value.at?`).  Two paths diverge
if neither is a part of the other that it begins with (`Value.Diverge`); then they have a name each
at which they part.

Values that stand in several places have an identity.  A tree has no such value in it, and no two
keys that are the same (`Value.IsTree`).  Data into which other values are put need not stay a tree,
but a path may still lead through maps without an identity only (`Value.Leads`); such a path is not
concerned when a value with an identity is changed.

The order in which entries are put into a map is the order in which the map shows them.  Maps that
differ in this only, at any depth, are `Value.Reordered`.
-/

namespace Stencil

namespace Value

/-! ## Entries -/

variable {k l u v w : Value} {entries entries' : List (Value × Value)}

theorem sameKey_text {name name' : Text} (h : sameKey (.text name) (.text name') = true) :
    name = name' :=
  Value.text.inj ((IsText.text name).eq_of_sameKey (.text name') h)

/-- Entries of which no two keys are the same. -/
def Distinct (entries : List (Value × Value)) : Prop :=
  entries.Pairwise fun e f => ¬ sameKey e.1 f.1 = true

instance (entries : List (Value × Value)) : Decidable (Distinct entries) :=
  inferInstanceAs (Decidable (List.Pairwise _ _))

theorem put_cons_of_sameKey (h : sameKey k l = true) :
    put k v ((l, w) :: entries) = (l, v) :: entries := by
  rw [put, if_pos h]

theorem put_cons_of_not_sameKey (h : ¬ sameKey k l = true) :
    put k v ((l, w) :: entries) = (l, w) :: put k v entries := by
  rw [put, if_neg h]

theorem lookup_cons_of_sameKey (h : sameKey k l = true) :
    lookup k ((l, w) :: entries) = some w := by
  rw [lookup, List.find?_cons, h]
  rfl

theorem lookup_cons_of_not_sameKey (h : ¬ sameKey k l = true) :
    lookup k ((l, w) :: entries) = lookup k entries := by
  rw [lookup, List.find?_cons_of_neg (by exact h), lookup]

/-- What is put under a key is found there. -/
theorem lookup_put_self (hk : k.isKey = true) (v : Value) (entries : List (Value × Value)) :
    lookup k (put k v entries) = some v := by
  induction entries with
  | nil => exact lookup_cons_of_sameKey (sameKey_self hk)
  | cons e rest ih =>
    by_cases he : sameKey k e.1 = true
    · rw [put_cons_of_sameKey he]
      exact lookup_cons_of_sameKey he
    · rw [put_cons_of_not_sameKey he, lookup_cons_of_not_sameKey he, ih]

/-- What is found under another key stays. -/
theorem lookup_put_of_not_sameKey (h : ¬ sameKey l k = true) (v : Value)
    (entries : List (Value × Value)) : lookup l (put k v entries) = lookup l entries := by
  induction entries with
  | nil => exact lookup_cons_of_not_sameKey h
  | cons e rest ih =>
    by_cases he : sameKey k e.1 = true
    · have hl : ¬ sameKey l e.1 = true := fun hl => h (sameKey_trans hl (sameKey_symm he))
      rw [put_cons_of_sameKey he, lookup_cons_of_not_sameKey hl, lookup_cons_of_not_sameKey hl]
    · rw [put_cons_of_not_sameKey he]
      by_cases hl : sameKey l e.1 = true
      · rw [lookup_cons_of_sameKey hl, lookup_cons_of_sameKey hl]
      · rw [lookup_cons_of_not_sameKey hl, lookup_cons_of_not_sameKey hl, ih]

/-- Of two values put under one key, the second stays. -/
theorem put_put (hk : k.isKey = true) (u v : Value) (entries : List (Value × Value)) :
    put k v (put k u entries) = put k v entries := by
  induction entries with
  | nil => exact put_cons_of_sameKey (sameKey_self hk)
  | cons e rest ih =>
    by_cases he : sameKey k e.1 = true
    · rw [put_cons_of_sameKey he, put_cons_of_sameKey he, put_cons_of_sameKey he]
    · rw [put_cons_of_not_sameKey he, put_cons_of_not_sameKey he, put_cons_of_not_sameKey he, ih]

/-- Values can be put under two keys in either order, which shows in the order of the entries
only. -/
theorem put_put_perm (h : ¬ sameKey k l = true) (v w : Value) (entries : List (Value × Value)) :
    (put l w (put k v entries)).Perm (put k v (put l w entries)) := by
  have h' : ¬ sameKey l k = true := fun hsame => h (sameKey_symm hsame)
  induction entries with
  | nil =>
    rw [put, put, put_cons_of_not_sameKey h', put_cons_of_not_sameKey h]
    exact List.Perm.swap _ _ _
  | cons e rest ih =>
    by_cases hk : sameKey k e.1 = true
    · have hl : ¬ sameKey l e.1 = true := fun hl => h (sameKey_trans hk (sameKey_symm hl))
      rw [put_cons_of_sameKey hk, put_cons_of_not_sameKey hl, put_cons_of_not_sameKey hl,
        put_cons_of_sameKey hk]
    · by_cases hl : sameKey l e.1 = true
      · rw [put_cons_of_not_sameKey hk, put_cons_of_sameKey hl, put_cons_of_sameKey hl,
          put_cons_of_not_sameKey hk]
      · rw [put_cons_of_not_sameKey hk, put_cons_of_not_sameKey hl, put_cons_of_not_sameKey hl,
          put_cons_of_not_sameKey hk]
        exact ih.cons e

/-- What holds of all keys and values holds of them after a value is put that it holds of. -/
theorem forall_mem_put {P Q : Value → Prop} (hk : P k) (hv : Q v)
    (h : ∀ e ∈ entries, P e.1 ∧ Q e.2) : ∀ e ∈ put k v entries, P e.1 ∧ Q e.2 := by
  induction entries with
  | nil => exact List.forall_mem_singleton.mpr ⟨hk, hv⟩
  | cons e rest ih =>
    obtain ⟨he, hrest⟩ := List.forall_mem_cons.mp h
    rw [put]
    split
    · exact List.forall_mem_cons.mpr ⟨⟨he.1, hv⟩, hrest⟩
    · exact List.forall_mem_cons.mpr ⟨he, ih hrest⟩

theorem Distinct.put (h : Distinct entries) (k v : Value) : Distinct (put k v entries) := by
  induction entries with
  | nil => exact List.pairwise_singleton _ _
  | cons e rest ih =>
    obtain ⟨hfirst, hrest⟩ := List.pairwise_cons.mp h
    by_cases he : sameKey k e.1 = true
    · rw [put_cons_of_sameKey he]
      exact List.pairwise_cons.mpr ⟨hfirst, hrest⟩
    · rw [put_cons_of_not_sameKey he]
      refine List.pairwise_cons.mpr ⟨fun f hf => ?_, ih hrest⟩
      have hkey : ∀ f ∈ rest, ¬ sameKey e.1 f.1 = true ∧ True := fun f hf => ⟨hfirst f hf, trivial⟩
      have he' : ¬ sameKey e.1 k = true := fun hsame => he (sameKey_symm hsame)
      exact (forall_mem_put (P := fun key => ¬ sameKey e.1 key = true) (Q := fun _ => True) he'
        trivial hkey f hf).1

theorem Distinct.perm (h : Distinct entries) (hperm : entries.Perm entries') : Distinct entries' :=
  hperm.pairwise h fun hne hsame => hne (sameKey_symm hsame)

/-- What is found in distinct entries does not depend on their order. -/
theorem Distinct.lookup_perm (h : Distinct entries) (hperm : entries.Perm entries') (k : Value) :
    lookup k entries = lookup k entries' := by
  induction hperm with
  | nil => rfl
  | cons e _ ih =>
    by_cases he : sameKey k e.1 = true
    · rw [lookup_cons_of_sameKey he, lookup_cons_of_sameKey he]
    · rw [lookup_cons_of_not_sameKey he, lookup_cons_of_not_sameKey he,
        ih (List.pairwise_cons.mp h).2]
  | swap e f rest =>
    have hne : ¬ sameKey f.1 e.1 = true := (List.pairwise_cons.mp h).1 e List.mem_cons_self
    by_cases hf : sameKey k f.1 = true
    · have he : ¬ sameKey k e.1 = true := fun he => hne (sameKey_trans (sameKey_symm hf) he)
      rw [lookup_cons_of_sameKey hf, lookup_cons_of_not_sameKey he, lookup_cons_of_sameKey hf]
    · by_cases he : sameKey k e.1 = true
      · rw [lookup_cons_of_not_sameKey hf, lookup_cons_of_sameKey he, lookup_cons_of_sameKey he]
      · rw [lookup_cons_of_not_sameKey hf, lookup_cons_of_not_sameKey he,
          lookup_cons_of_not_sameKey he, lookup_cons_of_not_sameKey hf]
  | trans hfirst _ ih ih' => rw [ih h, ih' (h.perm hfirst)]

/-- A value can be put into distinct entries in any order. -/
theorem Distinct.put_perm (h : Distinct entries) (hperm : entries.Perm entries') (k v : Value) :
    (Value.put k v entries).Perm (Value.put k v entries') := by
  induction hperm with
  | nil => exact List.Perm.refl _
  | cons e hrest ih =>
    by_cases he : sameKey k e.1 = true
    · rw [put_cons_of_sameKey he, put_cons_of_sameKey he]
      exact hrest.cons _
    · rw [put_cons_of_not_sameKey he, put_cons_of_not_sameKey he]
      exact (ih (List.pairwise_cons.mp h).2).cons e
  | swap e f rest =>
    have hne : ¬ sameKey f.1 e.1 = true := (List.pairwise_cons.mp h).1 e List.mem_cons_self
    by_cases hf : sameKey k f.1 = true
    · have he : ¬ sameKey k e.1 = true := fun he => hne (sameKey_trans (sameKey_symm hf) he)
      rw [put_cons_of_sameKey hf, put_cons_of_not_sameKey he, put_cons_of_sameKey hf]
      exact List.Perm.swap _ _ _
    · rw [put_cons_of_not_sameKey hf]
      by_cases he : sameKey k e.1 = true
      · rw [put_cons_of_sameKey he, put_cons_of_sameKey he]
        exact List.Perm.swap _ _ _
      · rw [put_cons_of_not_sameKey he, put_cons_of_not_sameKey he, put_cons_of_not_sameKey hf]
        exact List.Perm.swap _ _ _
  | trans hfirst _ ih ih' => exact (ih h).trans (ih' (h.perm hfirst))

/-! ## Paths -/

/-- What a path leads to. -/
def at? : List Text → Value → Option Value
  | [], v => some v
  | name :: rest, v => (v.entries?.bind (named name)).bind (at? rest)

/-- Two paths of which neither begins with the other. -/
def Diverge (p q : List Text) : Prop := ¬ p <+: q ∧ ¬ q <+: p

instance (p q : List Text) : Decidable (Diverge p q) :=
  inferInstanceAs (Decidable (_ ∧ _))

theorem Diverge.symm {p q : List Text} (h : Diverge p q) : Diverge q p := ⟨h.2, h.1⟩

theorem Diverge.ne_nil {p q : List Text} (h : Diverge p q) : p ≠ [] := fun hp =>
  h.1 (hp ▸ List.nil_prefix)

theorem not_diverge_nil {q : List Text} : ¬ Diverge [] q := fun h => h.ne_nil rfl

/-- Two paths part at their first names or later. -/
theorem diverge_cons {name name' : Text} {p q : List Text} :
    Diverge (name :: p) (name' :: q) ↔ name ≠ name' ∨ Diverge p q := by
  rw [Diverge, Diverge, List.cons_prefix_cons, List.cons_prefix_cons]
  by_cases h : name = name'
  · simp [h]
  · simp [h, Ne.symm h]

/-- Diverging paths have the same names up to where they part. -/
@[elab_as_elim]
theorem Diverge.induction {motive : ∀ p q : List Text, Diverge p q → Prop}
    (fork : ∀ (name name' : Text) (p q : List Text) (hne : name ≠ name'),
      motive (name :: p) (name' :: q) (diverge_cons.mpr (Or.inl hne)))
    (common : ∀ (name a b : Text) (p q : List Text) (h : Diverge (a :: p) (b :: q)),
      motive (a :: p) (b :: q) h →
      motive (name :: a :: p) (name :: b :: q) (diverge_cons.mpr (Or.inr h)))
    (p q : List Text) (h : Diverge p q) : motive p q h := by
  induction p generalizing q with
  | nil => exact absurd h not_diverge_nil
  | cons name p ih =>
    cases q with
    | nil => exact absurd h.symm not_diverge_nil
    | cons name' q =>
      by_cases hname : name = name'
      · subst hname
        have hrest := (diverge_cons.mp h).resolve_left (· rfl)
        cases p with
        | nil => exact absurd hrest not_diverge_nil
        | cons a p =>
          cases q with
          | nil => exact absurd hrest.symm not_diverge_nil
          | cons b q => exact common name a b p q hrest (ih _ hrest)
      · exact fork name name' p q hname

/-- A value that has no identity, a map with distinct keys. -/
def Untied : Value → Prop
  | .shared _ _ => False
  | .again _ => False
  | .map entries => Distinct entries
  | _ => True

/-- A value in which nothing has an identity, with maps of distinct keys only. -/
def IsTree (v : Value) : Prop := v.Throughout Untied

theorem isTree_map : (Value.map entries).IsTree ↔
    Distinct entries ∧ ∀ e ∈ entries, e.1.IsTree ∧ e.2.IsTree := by
  constructor
  · exact fun h => ⟨h.here, h.of_map⟩
  · rintro ⟨hdistinct, hall⟩
    refine .intro hdistinct (List.forall_mem_append.mpr ⟨?_, ?_⟩)
    · exact List.forall_mem_map.mpr fun e he => (hall e he).1
    · exact List.forall_mem_map.mpr fun e he => (hall e he).2

/-- Putting a tree into a tree gives a tree. -/
theorem IsTree.put {name : Text} (h : (Value.map entries).IsTree) (hv : v.IsTree) :
    (Value.map (put (.text name) v entries)).IsTree := by
  obtain ⟨hdistinct, hall⟩ := isTree_map.mp h
  have hname : (Value.text name).IsTree := .of_parts trivial rfl
  exact isTree_map.mpr ⟨hdistinct.put _ _, forall_mem_put hname hv hall⟩

/-- A map is a tree in any order. -/
theorem IsTree.perm (h : (Value.map entries).IsTree) (hperm : entries.Perm entries') :
    (Value.map entries').IsTree := by
  obtain ⟨hdistinct, hall⟩ := isTree_map.mp h
  exact isTree_map.mpr ⟨hdistinct.perm hperm, fun e he => hall e (hperm.mem_iff.mpr he)⟩

/-- Whether a value is a map, or has an identity. -/
def isJoint : Value → Bool
  | .map _ | .shared _ _ => true
  | _ => false

/-- A path that passes no value with an identity, and what it leads to.  What stands at its end may
have one. -/
inductive Leads : List Text → Value → Option Value → Prop
  | here (v : Value) : Leads [] v (some v)
  /-- There is a value on the way that is no map. -/
  | blocked {name : Text} {rest : List Text} {v : Value} (h : v.isJoint = false) :
      Leads (name :: rest) v none
  | absent {name : Text} {rest : List Text} {entries : List (Value × Value)}
      (h : named name entries = none) : Leads (name :: rest) (.map entries) none
  | inside {name : Text} {rest : List Text} {entries : List (Value × Value)} {next : Value}
      {found : Option Value} (h : named name entries = some next) (hnext : Leads rest next found) :
      Leads (name :: rest) (.map entries) found

theorem entries?_of_isJoint_eq_false (h : v.isJoint = false) : v.entries? = none := by
  cases v <;> first | rfl | cases h

theorem Leads.at? {path : List Text} {found : Option Value} (h : Leads path v found) :
    at? path v = found := by
  induction h with
  | here v => rfl
  | blocked h => rw [Value.at?, entries?_of_isJoint_eq_false h, Option.bind_none, Option.bind_none]
  | absent h =>
    show (named _ _).bind _ = none
    rw [h, Option.bind_none]
  | inside h _ ih =>
    show (named _ _).bind _ = _
    rw [h, Option.bind_some, ih]

/-- What stands in a tree is a tree. -/
theorem IsTree.named {name : Text} {found : Value} (h : (Value.map entries).IsTree)
    (hfound : named name entries = some found) : found.IsTree :=
  throughout_of_named h hfound

/-- In a tree every path passes values without identity, and leads to a tree if to anything. -/
theorem IsTree.exists_leads (h : v.IsTree) (path : List Text) :
    ∃ found, Leads path v found ∧ ∀ u, found = some u → u.IsTree := by
  induction path generalizing v with
  | nil => exact ⟨some v, .here v, fun u hu => Option.some.inj hu ▸ h⟩
  | cons name rest ih =>
    cases v with
    | map entries =>
      cases hnamed : Value.named name entries with
      | none => exact ⟨none, .absent hnamed, nofun⟩
      | some next =>
        obtain ⟨found, hleads, htree⟩ := ih (h.named hnamed)
        exact ⟨found, .inside hnamed hleads, htree⟩
    | shared id inside => exact absurd h.here not_false
    | _ => exact ⟨none, .blocked rfl, nofun⟩

/-! ## The order of entries -/

/-- Entries that are the same but for their order, and the order of entries in maps inside. -/
inductive Reordered : List (Value × Value) → List (Value × Value) → Prop
  | perm {entries entries' : List (Value × Value)} (h : entries.Perm entries') :
      Reordered entries entries'
  | inside {entries entries' : List (Value × Value)} (before : List (Value × Value)) (key : Value)
      (after : List (Value × Value)) (h : Reordered entries entries') :
      Reordered (before ++ (key, .map entries) :: after) (before ++ (key, .map entries') :: after)
  | trans {entries entries' entries'' : List (Value × Value)} (h : Reordered entries entries')
      (h' : Reordered entries' entries'') : Reordered entries entries''

/-- Maps that are the same but for the order of entries, in them and in maps inside. -/
def Rearranged (v w : Value) : Prop :=
  ∃ entries entries', v = .map entries ∧ w = .map entries' ∧ Reordered entries entries'

theorem Reordered.refl (entries : List (Value × Value)) : Reordered entries entries :=
  .perm (List.Perm.refl entries)

theorem Reordered.cons (h : Reordered entries entries') (e : Value × Value) :
    Reordered (e :: entries) (e :: entries') := by
  induction h with
  | perm h => exact .perm (h.cons e)
  | inside before key after h _ => exact .inside (e :: before) key after h
  | trans _ _ ih ih' => exact ih.trans ih'

/-- What is put under a key can be reordered. -/
theorem Reordered.put_map (h : Reordered entries entries') (k : Value)
    (others : List (Value × Value)) :
    Reordered (put k (.map entries) others) (put k (.map entries') others) := by
  induction others with
  | nil => exact .inside [] k [] h
  | cons e rest ih =>
    by_cases he : sameKey k e.1 = true
    · rw [put_cons_of_sameKey he, put_cons_of_sameKey he]
      exact .inside [] e.1 rest h
    · rw [put_cons_of_not_sameKey he, put_cons_of_not_sameKey he]
      exact ih.cons e

/-- A reordered tree is a tree. -/
theorem Reordered.isTree (h : Reordered entries entries') (htree : (Value.map entries).IsTree) :
    (Value.map entries').IsTree := by
  induction h with
  | perm h => exact htree.perm h
  | @inside entries entries' before key after _ ih =>
    obtain ⟨hdistinct, hall⟩ := isTree_map.mp htree
    obtain ⟨hbefore, hrest⟩ := List.forall_mem_append.mp hall
    obtain ⟨hinside, hafter⟩ := List.forall_mem_cons.mp hrest
    refine isTree_map.mpr ⟨?_, List.forall_mem_append.mpr
      ⟨hbefore, List.forall_mem_cons.mpr ⟨⟨hinside.1, ih hinside.2⟩, hafter⟩⟩⟩
    -- whether keys are the same is seen from the row of keys, which stays
    rw [Distinct, ← List.pairwise_map (f := Prod.fst) (R := fun k l => ¬ sameKey k l = true)]
      at hdistinct ⊢
    simpa only [List.map_append, List.map_cons] using hdistinct
  | trans _ _ ih ih' => exact ih' (ih htree)

/-- A value can be put into a reordered tree. -/
theorem Reordered.put (h : Reordered entries entries') (htree : (Value.map entries).IsTree)
    (k v : Value) : Reordered (put k v entries) (put k v entries') := by
  induction h with
  | perm h => exact .perm ((isTree_map.mp htree).1.put_perm h k v)
  | @inside entries entries' before key after h _ =>
    clear htree
    induction before with
    | nil =>
      by_cases hk : sameKey k key = true
      · rw [List.nil_append, List.nil_append, put_cons_of_sameKey hk, put_cons_of_sameKey hk]
        exact .refl _
      · rw [List.nil_append, List.nil_append, put_cons_of_not_sameKey hk,
          put_cons_of_not_sameKey hk]
        exact .inside [] key _ h
    | cons e rest ih =>
      rw [List.cons_append, List.cons_append]
      by_cases he : sameKey k e.1 = true
      · rw [put_cons_of_sameKey he, put_cons_of_sameKey he]
        exact .inside ((e.1, v) :: rest) key after h
      · rw [put_cons_of_not_sameKey he, put_cons_of_not_sameKey he]
        exact ih.cons e
  | trans h _ ih ih' => exact (ih htree).trans (ih' (h.isTree htree))

end Value

end Stencil
