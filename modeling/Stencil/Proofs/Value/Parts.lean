import Stencil.Execution.Iteration

/-! # What holds throughout a value

A value has other values inside: items, keys and values of entries, attributes.  A property may hold
of a value and of all that it has inside, at any depth (`Value.Throughout`).

The value of an expression is found in the scope, or stands in the expression as a constant, or is
made on the way: a truth value, a part of a date, a byte.  A loop makes the indexes of its items.
So let a property be `Value.Kept`: it holds of what is made, and is not lost where a collection is
put in the place that refers to it.  If it holds throughout a scope, it holds throughout the value
of every expression (`Expression.throughout_value`) and throughout what every loop goes through
(`Pairs.throughout_of`).
-/

namespace Stencil

namespace Value

/-- The values that a value has directly inside. -/
def parts : Value → List Value
  | .list items => items
  | .tuple items => items
  | .map entries => entries.map Prod.fst ++ entries.map Prod.snd
  | .stream _ items => items
  | .object _ attributes => attributes.map Prod.snd
  | .shared _ inside => [inside]
  | _ => []

/-- The number of items that have an index. -/
def extent : Value → Nat
  | .list items => items.length
  | .tuple items => items.length
  | .stream _ items => items.length
  | .bytes b => b.length
  | _ => 0

/-- Whether a value is one of those that are made in a run: an absent value, a truth value, a date
or moment, a part of one, a byte, or the empty map. -/
def isModest : Value → Bool
  | .null | .bool _ | .date _ | .moment _ | .map [] => true
  | .int n => 0 ≤ n && n < 1000000
  | _ => false

/-- A property of a value and of all that it has inside, at any depth. -/
inductive Throughout (P : Value → Prop) : Value → Prop
  | intro {v : Value} (here : P v) (inside : ∀ u ∈ v.parts, Throughout P u) : Throughout P v

/-- A property that values keep in a run. -/
structure Kept (P : Value → Prop) : Prop where
  /-- It does not depend on what stands in the place of a reference inside. -/
  filled : ∀ {v : Value}, P v → (∀ n, v ≠ .again n) → ∀ id whole, P (filled id whole v)
  modest : ∀ {v : Value}, v.isModest = true → P v
  /-- The index of an item has it. -/
  index : ∀ {v : Value} {n : Nat}, P v → n < v.extent → P (.int n)

theorem filledAll_eq_map (id : Nat) (whole : Value) (items : List Value) :
    filledAll id whole items = items.map (filled id whole) := by
  induction items with
  | nil => rfl
  | cons v rest ih => rw [filledAll, ih, List.map_cons]

theorem filledEntries_eq_map (id : Nat) (whole : Value) (entries : List (Value × Value)) :
    filledEntries id whole entries = entries.map fun e => (e.1, filled id whole e.2) := by
  induction entries with
  | nil => rfl
  | cons e rest ih => rw [filledEntries, ih, List.map_cons]

/-- Whether a value is a list, a tuple or a map, or one of them with an identity. -/
def isCollection : Value → Bool
  | .list _ | .tuple _ | .map _ | .shared _ _ => true
  | _ => false

variable {P : Value → Prop} {v : Value}

/-- Only collections change where a collection is put in. -/
theorem filled_eq_or_isCollection (h : ∀ n, v ≠ .again n) (id : Nat) (whole : Value) :
    filled id whole v = v ∨ (filled id whole v).isCollection = true := by
  cases v with
  | again n => exact absurd rfl (h n)
  | list | tuple | map => exact Or.inr (by rw [filled]; rfl)
  | shared n inside =>
    rw [filled]
    split <;> exact Or.inr rfl
  | _ => exact Or.inl rfl

/-- A property of all collections, integers and values that are made is one that values keep. -/
theorem kept_of_collections (collection : ∀ v, v.isCollection = true → P v) (int : ∀ n, P (.int n))
    (modest : ∀ v, v.isModest = true → P v) : Kept P where
  filled {v} h hv id whole := by
    rcases filled_eq_or_isCollection hv id whole with heq | hcollection
    · rw [heq]
      exact h
    · exact collection _ hcollection
  modest h := modest _ h
  index _ _ := int _

theorem Throughout.here (h : v.Throughout P) : P v := by
  cases h with
  | intro here inside => exact here

theorem Throughout.inside (h : v.Throughout P) : ∀ u ∈ v.parts, u.Throughout P := by
  cases h with
  | intro here inside => exact inside

theorem Throughout.of_map {entries : List (Value × Value)} (h : (Value.map entries).Throughout P) :
    ∀ e ∈ entries, e.1.Throughout P ∧ e.2.Throughout P := fun e he =>
  ⟨h.inside e.1 (List.mem_append_left _ (List.mem_map_of_mem he)),
    h.inside e.2 (List.mem_append_right _ (List.mem_map_of_mem he))⟩

/-- A value without parts has a property throughout if it has it. -/
theorem Throughout.of_parts (here : P v) (hparts : v.parts = []) : v.Throughout P :=
  .intro here fun _ hu => absurd (hparts ▸ hu) List.not_mem_nil

theorem parts_of_isModest (h : v.isModest = true) : v.parts = [] := by
  unfold isModest at h
  split at h
  all_goals first | rfl | cases h

/-- Putting a collection into a value keeps the property throughout. -/
theorem Throughout.filled (hP : Kept P) (h : v.Throughout P) {id : Nat} {whole : Value}
    (hwhole : whole.Throughout P) : (filled id whole v).Throughout P := by
  induction h with
  | @intro v here inside ih =>
    cases v with
    | again n =>
      rw [Value.filled]
      split
      · exact hwhole
      · exact .intro here inside
    | shared n inner =>
      have hinner := ih inner List.mem_cons_self
      have hfilled := hP.filled here nofun id whole
      rw [Value.filled] at hfilled ⊢
      split
      · exact .intro here inside
      · rename_i hne
        rw [if_neg hne] at hfilled
        exact .intro hfilled (List.forall_mem_singleton.mpr hinner)
    | list items | tuple items =>
      have hfilled := hP.filled here nofun id whole
      rw [Value.filled, filledAll_eq_map] at hfilled ⊢
      exact .intro hfilled (List.forall_mem_map.mpr ih)
    | map entries =>
      have hfilled := hP.filled here nofun id whole
      rw [Value.filled, filledEntries_eq_map] at hfilled ⊢
      refine .intro hfilled (List.forall_mem_append.mpr ⟨?_, ?_⟩)
      · rw [List.map_map]
        exact fun u hu => inside u (List.mem_append_left _ hu)
      · rw [List.map_map]
        refine List.forall_mem_map.mpr fun e he => ?_
        exact ih e.2 (List.mem_append_right _ (List.mem_map_of_mem he))
    | _ => exact .intro here inside

theorem Throughout.exposed (hP : Kept P) (h : v.Throughout P) : v.exposed.Throughout P := by
  cases v with
  | shared id inside => exact (h.inside inside List.mem_cons_self).filled hP h
  | _ => exact h

/-- What is stored in entries. -/
theorem throughout_of_named {name : Text} {entries : List (Value × Value)} {found : Value}
    (h : (Value.map entries).Throughout P) (hfound : named name entries = some found) :
    found.Throughout P := by
  rw [named, lookup] at hfound
  obtain ⟨e, he, rfl⟩ := Option.map_eq_some_iff.mp hfound
  exact (h.of_map e (List.mem_of_find?_eq_some he)).2

/-- A value in a list of named values is one of them. -/
theorem throughout_of_lookup {α : Type} [BEq α] [LawfulBEq α] {name : α} {named : List (α × Value)}
    {found : Value} (h : ∀ b ∈ named, b.2.Throughout P) (hfound : named.lookup name = some found) :
    found.Throughout P := by
  obtain ⟨before, after, hsplit, -⟩ := List.lookup_eq_some_iff.mp hfound
  exact h (name, found) (by rw [hsplit]; simp)

/-- Modest values, whatever their names. -/
theorem throughout_of_lookup_modest (hP : Kept P) {part : String} {named : List (String × Value)}
    {found : Value} (h : (named.all fun b => b.2.isModest) = true)
    (hfound : named.lookup part = some found) : found.Throughout P := by
  refine throughout_of_lookup (fun b hb => ?_) hfound
  have hmodest := List.all_eq_true.mp h b hb
  exact .of_parts (hP.modest hmodest) (parts_of_isModest hmodest)

theorem isModest_natCast {n : Nat} (h : n < 1000000) : (Value.int n).isModest = true := by
  rw [isModest, Bool.and_eq_true, decide_eq_true_eq, decide_eq_true_eq]
  omega

/-- The items of a value with positions, which are as many as it has indexes. -/
theorem Throughout.of_sequence? (hP : Kept P) (h : v.Throughout P) {items : List Value}
    (hitems : v.sequence? = some items) :
    (∀ item ∈ items, item.Throughout P) ∧ items.length = v.exposed.extent := by
  have hexposed := h.exposed hP
  rw [sequence?] at hitems
  split at hitems
  · rename_i own heq
    obtain rfl := Option.some.inj hitems
    rw [heq] at hexposed ⊢
    exact ⟨hexposed.inside, rfl⟩
  · rename_i own heq
    obtain rfl := Option.some.inj hitems
    rw [heq] at hexposed ⊢
    exact ⟨hexposed.inside, rfl⟩
  · rename_i b heq
    obtain rfl := Option.some.inj hitems
    rw [heq]
    refine ⟨List.forall_mem_map.mpr fun x _ => ?_, List.length_map _⟩
    have hbyte : (Value.int x.toNat).isModest = true :=
      isModest_natCast (Nat.lt_trans x.toNat_lt (by decide))
    exact .of_parts (hP.modest hbyte) rfl
  · cases hitems

end Value

theorem Calendar.daysIn_le (year month : Nat) : daysIn year month ≤ 31 := by
  unfold daysIn
  split
  · split <;> decide
  · split <;> decide

theorem Date.day_le (d : Date) : d.day ≤ 31 :=
  Nat.le_trans d.day_mem.2 (Calendar.daysIn_le d.year d.month)

/-! ## Expressions -/

/-- What the host gives a value under a name has a property throughout, if the value has. -/
def Host.Keeps [Host] (P : Value → Prop) : Prop :=
  ∀ {v w : Value} {name : Text}, v.Throughout P → Host.attribute? v name = some w → w.Throughout P

/-- The host has no attributes of values but their own. -/
def Host.LendsNothing [Host] : Prop := ∀ (v : Value) (name : Text), Host.attribute? v name = none

theorem Host.LendsNothing.keeps [Host] (h : Host.LendsNothing) {P : Value → Prop} :
    Host.Keeps P := by
  intro v w name _ hw
  rw [h v name] at hw
  cases hw

/-- A scope of which all values have a property throughout. -/
structure Scope.Throughout (P : Value → Prop) (scope : Scope) : Prop where
  bindings : ∀ b ∈ scope.bindings, b.2.Throughout P
  data : scope.data.Throughout P

variable {P : Value → Prop}

theorem Scope.throughout_ofData [Host] (hP : Value.Kept P) {data : Value} (h : data.Throughout P) :
    (Scope.ofData data).Throughout P := by
  have hnone : ∀ b ∈ ([] : List (Text × Value)), b.2.Throughout P :=
    fun b hb => absurd hb List.not_mem_nil
  cases data with
  | null => exact ⟨hnone, .of_parts (hP.modest rfl) rfl⟩
  | _ => exact ⟨hnone, h⟩

theorem Scope.Throughout.extend {scope : Scope} (h : scope.Throughout P)
    {bindings : List (Text × Value)} (hbindings : ∀ b ∈ bindings, b.2.Throughout P) :
    (scope.extend bindings).Throughout P where
  bindings b hb := (List.mem_append.mp hb).elim (hbindings b) (h.bindings b)
  data := h.data

namespace Expression

/-- The constants in an expression. -/
def literals : Expression → List Literal
  | .literal constant => [constant]
  | .path _ _ => []
  | .compare _ l r => l.literals ++ r.literals
  | .both l r => l.literals ++ r.literals
  | .either l r => l.literals ++ r.literals
  | .negation e => e.literals
  | .group e => e.literals

theorem throughout_lookup (hP : Value.Kept P) {scope : Scope} (h : scope.Throughout P) {name : Text}
    {v : Value} (hv : lookup scope name = .ok v) : v.Throughout P := by
  rw [lookup] at hv
  split at hv
  · rename_i found
    obtain rfl := Except.ok.inj hv
    exact Value.throughout_of_lookup h.bindings found
  · have hdata := h.data.exposed hP
    rw [nameIn] at hv
    split at hv
    · rename_i entries hentries
      rw [hentries] at hdata
      split at hv
      · rename_i found
        obtain rfl := Except.ok.inj hv
        exact Value.throughout_of_named hdata found
      · cases hv
    all_goals cases hv

theorem throughout_datePart? (hP : Value.Kept P) {d : Date} {part : Text} {v : Value}
    (h : datePart? d part = some v) : v.Throughout P := by
  refine Value.throughout_of_lookup_modest hP ?_ h
  have hyear := Value.isModest_natCast (Nat.lt_of_le_of_lt d.year_mem.2 (by decide))
  have hmonth := Value.isModest_natCast (Nat.lt_of_le_of_lt d.month_mem.2 (by decide))
  have hday := Value.isModest_natCast (Nat.lt_of_le_of_lt d.day_le (by decide))
  simp only [List.all_cons, List.all_nil, hyear, hmonth, hday, Bool.true_and]
  rfl

theorem throughout_momentPart? (hP : Value.Kept P) {m : Moment} {part : Text} {v : Value}
    (h : momentPart? m part = some v) : v.Throughout P := by
  refine Value.throughout_of_lookup_modest hP ?_ h
  have hyear := Value.isModest_natCast (Nat.lt_of_le_of_lt m.date.year_mem.2 (by decide))
  have hmonth := Value.isModest_natCast (Nat.lt_of_le_of_lt m.date.month_mem.2 (by decide))
  have hday := Value.isModest_natCast (Nat.lt_of_le_of_lt m.date.day_le (by decide))
  have hhour := Value.isModest_natCast (Nat.lt_trans m.hour_lt (by decide))
  have hminute := Value.isModest_natCast (Nat.lt_trans m.minute_lt (by decide))
  have hsecond := Value.isModest_natCast (Nat.lt_trans m.second_lt (by decide))
  have hmicrosecond := Value.isModest_natCast m.microsecond_lt
  rw [List.all_append, Bool.and_eq_true]
  refine ⟨?_, by cases m.zone <;> rfl⟩
  simp only [List.all_cons, List.all_nil, hyear, hmonth, hday, hhour, hminute, hsecond,
    hmicrosecond, Bool.true_and]
  rfl

variable [Host]

theorem throughout_lent? (hhost : Host.Keeps P) {value v : Value} (h : value.Throughout P)
    {part : Text} (hv : lent? value part = some v) : v.Throughout P := by
  rw [lent?] at hv
  split at hv
  · cases hv
  · exact hhost h hv

/-- A step leads to a part, or to a modest value, or to one that the host has. -/
theorem throughout_step (hP : Value.Kept P) (hhost : Host.Keeps P) {value v : Value}
    (h : value.Throughout P) {part walked : Text} (hv : step value part walked = .ok v) :
    v.Throughout P := by
  have hexposed := h.exposed hP
  rw [step] at hv
  split at hv
  · rename_i entries hentries
    rw [hentries] at hexposed
    split at hv
    · rename_i found
      obtain rfl := Except.ok.inj hv
      exact Value.throughout_of_named hexposed found
    · cases hv
  · rename_i id attributes hattributes
    rw [hattributes] at hexposed
    split at hv
    · rename_i found
      obtain rfl := Except.ok.inj hv
      rw [attribute?] at found
      split at found
      · cases found
      · refine Value.throughout_of_lookup (fun b hb => ?_) found
        exact hexposed.inside b.2 (List.mem_map_of_mem (List.mem_reverse.mp hb))
    · cases hv
  · rename_i d hdate
    rw [hdate] at hexposed
    split at hv
    · rename_i found
      obtain rfl := Except.ok.inj hv
      rcases Option.or_eq_some_iff.mp found with hpart | ⟨-, hlent⟩
      · exact throughout_datePart? hP hpart
      · exact throughout_lent? hhost hexposed hlent
    · cases hv
  · rename_i m hmoment
    rw [hmoment] at hexposed
    split at hv
    · rename_i found
      obtain rfl := Except.ok.inj hv
      rcases Option.or_eq_some_iff.mp found with hpart | ⟨-, hlent⟩
      · exact throughout_momentPart? hP hpart
      · exact throughout_lent? hhost hexposed hlent
    · cases hv
  · -- all other values have items, and the part is a number, or only what the host gives them
    split at hv
    · split at hv
      · rename_i found
        obtain rfl := Except.ok.inj hv
        exact throughout_lent? hhost hexposed found
      · cases hv
    · rename_i items hitems
      split at hv
      · cases hv
      · split at hv
        · cases hv
        · split at hv
          · rename_i item hitem
            obtain rfl := Except.ok.inj hv
            exact (hexposed.of_sequence? hP hitems).1 _ (List.mem_of_getElem? hitem)
          · cases hv

theorem throughout_follow (hP : Value.Kept P) (hhost : Host.Keeps P) {steps : List Text}
    {value v : Value} (h : value.Throughout P) {walked : Text}
    (hv : follow value walked steps = .ok v) : v.Throughout P := by
  induction steps generalizing value walked with
  | nil =>
    obtain rfl := Except.ok.inj hv
    exact h
  | cons part rest ih =>
    rw [follow] at hv
    cases hstep : step value part walked with
    | error fault => simp [hstep] at hv
    | ok next =>
      simp only [hstep] at hv
      exact ih (throughout_step hP hhost h hstep) hv

/-- Where there is no room there is no value. -/
theorem exists_succ_of_value {scope : Scope} {room : Nat} {e : Expression} {v : Value}
    (h : value scope room e = .ok v) : ∃ rest, room = rest + 1 := by
  cases room with
  | zero => simp [value] at h
  | succ room => exact ⟨room, rfl⟩

/-- **What holds throughout a scope and of the constants of an expression holds throughout its
value**, if it holds throughout what the host gives. -/
theorem throughout_value (hP : Value.Kept P) (hhost : Host.Keeps P) {scope : Scope}
    (h : scope.Throughout P) {room : Nat} {e : Expression}
    (hliterals : ∀ constant ∈ e.literals, P constant.value) {v : Value}
    (hv : value scope room e = .ok v) : v.Throughout P := by
  have hbool (b : Bool) : (Value.bool b).Throughout P := .of_parts (hP.modest rfl) rfl
  obtain ⟨room, rfl⟩ := exists_succ_of_value hv
  induction e generalizing room v with
  | literal constant =>
    obtain rfl := Except.ok.inj hv
    exact .of_parts (hliterals constant List.mem_cons_self) (by cases constant <;> rfl)
  | path head steps =>
    rw [value] at hv
    cases hlookup : lookup scope head with
    | error fault => simp [hlookup] at hv
    | ok found =>
      simp only [hlookup] at hv
      exact throughout_follow hP hhost (throughout_lookup hP h hlookup) hv
  | compare comparison left right =>
    rw [value] at hv
    split at hv
    · cases hv
    · split at hv
      · cases hv
      · split at hv
        · obtain rfl := Except.ok.inj hv
          exact hbool _
        · cases hv
        · cases hv
  | both left right ihl ihr =>
    obtain ⟨hleft, hright⟩ := List.forall_mem_append.mp hliterals
    rw [value] at hv
    cases hl : value scope room left with
    | error fault => simp [hl] at hv
    | ok found =>
      obtain ⟨room, rfl⟩ := exists_succ_of_value hl
      simp only [hl] at hv
      split at hv
      · exact ihr hright room hv
      · obtain rfl := Except.ok.inj hv
        exact ihl hleft room hl
  | either left right ihl ihr =>
    obtain ⟨hleft, hright⟩ := List.forall_mem_append.mp hliterals
    rw [value] at hv
    cases hl : value scope room left with
    | error fault => simp [hl] at hv
    | ok found =>
      obtain ⟨room, rfl⟩ := exists_succ_of_value hl
      simp only [hl] at hv
      split at hv
      · obtain rfl := Except.ok.inj hv
        exact ihl hleft room hl
      · exact ihr hright room hv
  | negation operand ih =>
    rw [value] at hv
    cases ho : value scope room operand with
    | error fault => simp [ho, Except.map] at hv
    | ok found =>
      obtain rfl : Value.bool (!found.truthy) = v := by simpa [ho, Except.map] using hv
      exact hbool _
  | group inner ih =>
    rw [value] at hv
    obtain ⟨room, rfl⟩ := exists_succ_of_value hv
    exact ih hliterals room hv

end Expression

/-- An expression has the same value wherever the template asks for it. -/
theorem Scope.value_of_evaluateAt [Host] {scope : Scope} {e : Expression}
    {position : Option Position} {v : Value} (h : scope.evaluateAt e position = .ok v) :
    e.value scope scope.room = .ok v := by
  rw [Scope.evaluateAt, Expression.evaluate] at h
  cases hvalue : e.value scope scope.room with
  | error fault =>
    rw [hvalue] at h
    cases h
  | ok found =>
    rw [hvalue] at h
    rw [Except.ok.inj h]

/-! ## Loops -/

namespace Pairs

/-- Pairs to come, in which a property holds throughout all keys and values; of a stream it holds
throughout the items and of their indexes. -/
def Throughout (P : Value → Prop) : Pairs → Prop
  | .fixed pairs => ∀ pair ∈ pairs, pair.1.Throughout P ∧ pair.2.Throughout P
  | .stream _ items _ => (∀ v ∈ items, v.Throughout P) ∧ ∀ n < items.length, P (.int n)

theorem throughout_enumerate {items : List Value} (h : ∀ v ∈ items, v.Throughout P) (index : Nat)
    (hindex : ∀ n < index + items.length, P (.int n)) :
    (Pairs.fixed (enumerate index items)).Throughout P := by
  induction items generalizing index with
  | nil => exact fun p hp => absurd hp List.not_mem_nil
  | cons v rest ih =>
    rw [List.length_cons] at hindex
    intro p hp
    rcases List.mem_cons.mp hp with rfl | hp
    · exact ⟨.of_parts (hindex index (by omega)) rfl, h v List.mem_cons_self⟩
    · exact ih (fun u hu => h u (List.mem_cons_of_mem v hu)) (index + 1)
        (fun n hn => hindex n (by omega)) p hp

/-- The items of a value that has so many indexes, with their indexes. -/
theorem throughout_enumerate_of_extent (hP : Value.Kept P) {v : Value} (h : P v)
    {items : List Value} (hitems : ∀ item ∈ items, item.Throughout P)
    (hlength : items.length = v.extent) : (Pairs.fixed (enumerate 0 items)).Throughout P :=
  throughout_enumerate hitems 0 fun n hn => hP.index h (by omega)

/-- **What holds throughout a collection holds throughout what a loop over it goes through.** -/
theorem throughout_of (hP : Value.Kept P) {mode : LoopMode} {collection : Expression}
    {position : Option Position} {v : Value} (h : v.Throughout P) {pairs : Pairs}
    (hpairs : Pairs.of mode collection position v = .ok pairs) : pairs.Throughout P := by
  have hexposed := h.exposed hP
  unfold Pairs.of at hpairs
  split at hpairs
  · split at hpairs
    · rename_i items hitems
      obtain rfl := Except.ok.inj hpairs
      obtain ⟨hall, hlength⟩ := hexposed.of_sequence? hP hitems
      rw [indexed_eq_enumerate]
      exact throughout_enumerate_of_extent hP (hexposed.exposed hP).here hall hlength
    · cases hpairs
  · rename_i entries hentries
    obtain rfl := Except.ok.inj hpairs
    rw [hentries] at hexposed
    exact hexposed.of_map
  · rename_i items hitems
    obtain rfl := Except.ok.inj hpairs
    rw [hitems] at hexposed
    exact throughout_enumerate_of_extent hP hexposed.here hexposed.inside rfl
  · rename_i items hitems
    obtain rfl := Except.ok.inj hpairs
    rw [hitems] at hexposed
    exact throughout_enumerate_of_extent hP hexposed.here hexposed.inside rfl
  · rename_i id items hstream
    obtain rfl := Except.ok.inj hpairs
    rw [hstream] at hexposed
    exact ⟨hexposed.inside, fun n hn => hP.index hexposed.here hn⟩
  · split at hpairs <;> cases hpairs

end Pairs

/-- A property holds throughout what all streams have left. -/
def Store.Throughout (P : Value → Prop) (store : Store) : Prop :=
  ∀ entry ∈ store, ∀ v ∈ entry.2, v.Throughout P

theorem Store.throughout_leave {store : Store} (h : store.Throughout P) (id : Nat)
    {items : List Value} (hitems : ∀ v ∈ items, v.Throughout P) :
    (Store.leave id items store).Throughout P := by
  induction store with
  | nil => exact List.forall_mem_singleton.mpr hitems
  | cons entry rest ih =>
    obtain ⟨hentry, hrest⟩ := List.forall_mem_cons.mp h
    rw [leave]
    split
    · exact List.forall_mem_cons.mpr ⟨hitems, hrest⟩
    · exact List.forall_mem_cons.mpr ⟨hentry, ih hrest⟩

theorem Store.throughout_remaining {store : Store} (h : store.Throughout P) (id : Nat)
    {items : List Value} (hitems : ∀ v ∈ items, v.Throughout P) :
    ∀ v ∈ store.remaining id items, v.Throughout P := by
  rw [remaining]
  cases hfound : store.lookup id with
  | none => exact hitems
  | some left =>
    obtain ⟨before, after, hsplit, -⟩ := List.lookup_eq_some_iff.mp hfound
    exact h (id, left) (by rw [hsplit]; simp)

/-- The next pair, the pairs after it and the store have what the pairs and the store have. -/
theorem Pairs.throughout_next {pairs rest : Pairs} {store store' : Store} {pair : Value × Value}
    (hpairs : pairs.Throughout P) (hstore : store.Throughout P)
    (h : pairs.next? store = some (pair, rest, store')) :
    (pair.1.Throughout P ∧ pair.2.Throughout P) ∧ rest.Throughout P ∧ store'.Throughout P := by
  unfold Pairs.next? at h
  split at h
  · cases h
  · simp only [Option.some.injEq, Prod.mk.injEq] at h
    obtain ⟨rfl, rfl, rfl⟩ := h
    obtain ⟨hpair, hrest⟩ := List.forall_mem_cons.mp hpairs
    exact ⟨hpair, hrest, hstore⟩
  · rename_i id items taken
    obtain ⟨hitems, hindex⟩ := hpairs
    split at h
    · rename_i htaken
      split at h
      · cases h
      · rename_i v left hleft
        simp only [Option.some.injEq, Prod.mk.injEq] at h
        obtain ⟨rfl, rfl, rfl⟩ := h
        have hremaining := Store.throughout_remaining hstore id hitems
        rw [hleft] at hremaining
        obtain ⟨hv, hrest⟩ := List.forall_mem_cons.mp hremaining
        have hleave := Store.throughout_leave hstore id hrest
        exact ⟨⟨.of_parts (hindex taken htaken) rfl, hv⟩, ⟨hitems, hindex⟩, hleave⟩
    · cases h

end Stencil
