import Mathlib.Data.List.TakeWhile
import Stencil.Proofs.CommandLine.Setting

/-! # Assignments one after the other

Assignments are made in their order, and each sets a value on a path (`Says`).  Data that are a tree
have no map in several places; such maps come with the values of assignments.  So a path of the data
that diverges from all assigned paths leads where it led.  An assigned path leads to its value, and
assignments on diverging paths can change places, if no value with a map in several places has been
set on the way (`exists_lawful_assignAll`).  Otherwise a value may be lost to one on a path that
diverges (`assignAll_twofold`).
-/

namespace Stencil

namespace CommandLine

open Value (Diverge Leads Reordered)

/-- A path, and the value that is set at its end. -/
structure Setting where
  path : List Text
  value : Value

/-- The path that an assignment is made to. -/
def pathOf (assignment : Text) : List Text := keyPath (assignment.takeWhile (· ≠ '='))

/-- The text that the value of an assignment is read from. -/
def valueText (assignment : Text) : Text :=
  assignment.drop ((assignment.takeWhile (· ≠ '=')).length + 1)

/-- What assignments say, read with a first identity that is free: each has an equals sign, and
before it a key with a name in it. -/
inductive Says (load : Loading) : Nat → List Text → List Setting → Prop
  | nil (free : Nat) : Says load free [] []
  | cons {free next : Nat} {assignment : Text} {rest : List Text} {value : Value}
      {settings : List Setting} (hequals : '=' ∈ assignment) (hpath : pathOf assignment ≠ [])
      (hvalue : load free (valueText assignment) = .ok (value, next))
      (hrest : Says load next rest settings) :
      Says load free (assignment :: rest) (⟨pathOf assignment, value⟩ :: settings)

/-- The value of an assignment does not depend on which identities are free. -/
def IsGiven (load : Loading) (assignment : Text) : Prop :=
  ∃ value, ∀ free, ∃ next, load free (valueText assignment) = .ok (value, next)

/-- Data after settings one after the other. -/
def settle (data : Value) (settings : List Setting) : Value :=
  settings.foldl (fun data s => assignTo s.value s.path data) data

variable {load : Loading} {free : Nat} {assignments : List Text} {settings : List Setting}
  {value : Value} {other : List Text} {entries entries' : List (Value × Value)}
  {found : Option Value}

theorem length_takeWhile_ne {assignment : Text} (h : '=' ∈ assignment) :
    (assignment.takeWhile (· ≠ '=')).length ≠ assignment.length := by
  intro hlength
  have hself := (List.takeWhile_prefix _).eq_of_length hlength
  have hne := List.takeWhile_eq_self_iff.mp hself '=' h
  exact of_decide_eq_true hne rfl

/-- Assignments that say something are made. -/
theorem Says.assignAll_eq (h : Says load free assignments settings) (data : Value) :
    ∃ next, assignAll load ⟨data, free⟩ assignments = .ok ⟨settle data settings, next⟩ := by
  induction h generalizing data with
  | nil free => exact ⟨free, rfl⟩
  | @cons free next assignment rest value settings hequals hpath hvalue _ ih =>
    have hone : assignOne load ⟨data, free⟩ assignment =
        .ok ⟨assignTo value (pathOf assignment) data, next⟩ := by
      rw [assignOne, if_neg (length_takeWhile_ne hequals),
        if_neg (by rw [List.isEmpty_iff]; exact hpath)]
      show (load free (valueText assignment)).map _ = _
      rw [hvalue]
      rfl
    obtain ⟨last, hlast⟩ := ih (assignTo value (pathOf assignment) data)
    refine ⟨last, ?_⟩
    rw [assignAll, hone]
    exact hlast

/-- A path of trees that diverges from all assigned paths leads where it led. -/
theorem leads_settle_of_diverge (hdiverge : ∀ s ∈ settings, Diverge s.path other)
    (h : Leads other (.map entries) found) (htree : ∀ v, found = some v → v.IsTree) :
    ∃ entries', settle (.map entries) settings = .map entries' ∧
      Leads other (.map entries') found := by
  induction settings generalizing entries with
  | nil => exact ⟨entries, rfl, h⟩
  | cons s rest ih =>
    obtain ⟨hfirst, hrest⟩ := List.forall_mem_cons.mp hdiverge
    obtain ⟨entries', heq, hleads⟩ := leads_assignTo_of_diverge hfirst h htree s.value
    obtain ⟨last, hlast, hfound⟩ := ih hrest hleads
    refine ⟨last, ?_, hfound⟩
    rw [settle, List.foldl_cons, heq]
    exact hlast

/-- A path passes no value with an identity as long as none is set on it. -/
theorem exists_leads_settle (hvalues : ∀ s ∈ settings, s.path <+: other → s.value.IsTree)
    (h : Leads other (.map entries) found) :
    ∃ entries' found', settle (.map entries) settings = .map entries' ∧
      Leads other (.map entries') found' := by
  induction settings generalizing entries found with
  | nil => exact ⟨entries, found, rfl, h⟩
  | cons s rest ih =>
    obtain ⟨hfirst, hrest⟩ := List.forall_mem_cons.mp hvalues
    obtain ⟨entries', found', heq, hleads⟩ := exists_leads_assignTo hfirst h
    obtain ⟨last, found'', hlast, hfound⟩ := ih hrest hleads
    refine ⟨last, found'', ?_, hfound⟩
    rw [settle, List.foldl_cons, heq]
    exact hlast

theorem settle_append (data : Value) (before after : List Setting) :
    settle data (before ++ after) = settle (settle data before) after :=
  List.foldl_append

/-- Every assigned path has a name in it. -/
theorem Says.path_ne_nil (h : Says load free assignments settings) :
    ∀ s ∈ settings, s.path ≠ [] := by
  induction h with
  | nil free => exact fun s hs => absurd hs List.not_mem_nil
  | cons _ hpath _ _ ih => exact List.forall_mem_cons.mpr ⟨hpath, ih⟩

/-- **The value of an assignment is found where it was set**, if no later path is the same, a part
that the path begins with or one that begins with it, and no value with an identity inside was set
on the path. -/
theorem at?_settle_of_setting {before after : List Setting} {s : Setting}
    (hdata : (Value.map entries).IsTree) (hpath : s.path ≠ [])
    (hafter : ∀ t ∈ after, Diverge t.path s.path)
    (hvalues : ∀ t ∈ before ++ [s], t.path <+: s.path → t.value.IsTree) :
    (settle (.map entries) (before ++ s :: after)).at? s.path = some s.value := by
  obtain ⟨hbefore, hself⟩ := List.forall_mem_append.mp hvalues
  have htree := hself s List.mem_cons_self (List.prefix_refl _)
  obtain ⟨found, hleads, -⟩ := hdata.exists_leads s.path
  obtain ⟨entries', found', heq, hleads'⟩ := exists_leads_settle hbefore hleads
  have hset := leads_assign_self hpath s.value entries'
  obtain ⟨last, hlast, hfound⟩ := leads_settle_of_diverge hafter hset fun v hv =>
    Option.some.inj hv ▸ htree
  rw [settle_append, heq, settle, List.foldl_cons, assignTo_of_leads hleads']
  rw [settle] at hlast
  rw [hlast]
  exact hfound.at?

/-! ## The order of assignments -/

/-- Entries after settings one after the other. -/
def settleIn (entries : List (Value × Value)) (settings : List Setting) : List (Value × Value) :=
  settings.foldl (fun entries s => assign s.value s.path entries) entries

/-- Trees that are set in a tree are set in its entries. -/
theorem settle_of_isTree (hdata : (Value.map entries).IsTree)
    (hvalues : ∀ s ∈ settings, s.value.IsTree) :
    settle (.map entries) settings = .map (settleIn entries settings) ∧
      (Value.map (settleIn entries settings)).IsTree := by
  induction settings generalizing entries with
  | nil => exact ⟨rfl, hdata⟩
  | cons s rest ih =>
    obtain ⟨hfirst, hrest⟩ := List.forall_mem_cons.mp hvalues
    obtain ⟨found, hleads, -⟩ := hdata.exists_leads s.path
    rw [settle, List.foldl_cons, assignTo_of_leads hleads, settleIn, List.foldl_cons]
    exact ih (isTree_assign hdata hfirst s.path) hrest

theorem reordered_settleIn (h : Reordered entries entries') (htree : (Value.map entries).IsTree)
    (hvalues : ∀ s ∈ settings, s.value.IsTree) :
    Reordered (settleIn entries settings) (settleIn entries' settings) := by
  induction settings generalizing entries entries' with
  | nil => exact h
  | cons s rest ih =>
    obtain ⟨hfirst, hrest⟩ := List.forall_mem_cons.mp hvalues
    exact ih (reordered_assign h htree s.value s.path) (isTree_assign htree hfirst s.path) hrest

/-- **Two settings on diverging paths that stand next to each other can change places.** -/
theorem reordered_settleIn_swap {before after : List Setting} {s t : Setting}
    (hdata : (Value.map entries).IsTree) (hdiverge : Diverge s.path t.path)
    (hvalues : ∀ u ∈ before ++ s :: t :: after, u.value.IsTree) :
    Reordered (settleIn entries (before ++ s :: t :: after))
      (settleIn entries (before ++ t :: s :: after)) := by
  obtain ⟨hbefore, hrest⟩ := List.forall_mem_append.mp hvalues
  obtain ⟨hs, hrest⟩ := List.forall_mem_cons.mp hrest
  obtain ⟨ht, hafter⟩ := List.forall_mem_cons.mp hrest
  have htree := (settle_of_isTree hdata hbefore).2
  have htree' := isTree_assign (isTree_assign htree hs s.path) ht t.path
  rw [settleIn, settleIn, List.foldl_append, List.foldl_append]
  exact reordered_settleIn (assign_comm hdiverge s.value t.value _) htree' hafter

/-- A given value is read from any free identity on. -/
theorem IsGiven.exists_load {assignment : Text} {value : Value} {next : Nat}
    (h : IsGiven load assignment) (hvalue : load free (valueText assignment) = .ok (value, next))
    (free' : Nat) : ∃ next', load free' (valueText assignment) = .ok (value, next') := by
  obtain ⟨given, hgiven⟩ := h
  obtain ⟨_, hload⟩ := hgiven free
  obtain ⟨rfl, -⟩ := Prod.mk.inj (Except.ok.inj (hvalue.symm.trans hload))
  exact hgiven free'

/-- Assignments with given values say the same from any free identity on. -/
theorem Says.of_isGiven (h : Says load free assignments settings)
    (hgiven : ∀ a ∈ assignments, IsGiven load a) (free' : Nat) :
    Says load free' assignments settings := by
  induction h generalizing free' with
  | nil => exact .nil free'
  | cons hequals hpath hvalue _ ih =>
    obtain ⟨hfirst, hrest⟩ := List.forall_mem_cons.mp hgiven
    obtain ⟨next', hload⟩ := hfirst.exists_load hvalue free'
    exact .cons hequals hpath hload (ih hrest next')

/-- What is said when two assignments next to each other change places. -/
theorem Says.swap {before after : List Text} {a b : Text}
    (h : Says load free (before ++ a :: b :: after) settings)
    (hgiven : ∀ c ∈ a :: b :: after, IsGiven load c) :
    ∃ first s t last, settings = first ++ s :: t :: last ∧ s.path = pathOf a ∧
      t.path = pathOf b ∧ Says load free (before ++ b :: a :: after) (first ++ t :: s :: last) := by
  induction before generalizing free settings with
  | nil =>
    obtain ⟨ha, hrest⟩ := List.forall_mem_cons.mp hgiven
    obtain ⟨hb, hafter⟩ := List.forall_mem_cons.mp hrest
    rw [List.nil_append] at h
    obtain - | ⟨hequals, hpath, hvalue, h⟩ := h
    obtain - | ⟨hequals', hpath', hvalue', h⟩ := h
    obtain ⟨next, hload'⟩ := hb.exists_load hvalue' free
    obtain ⟨next', hload⟩ := ha.exists_load hvalue next
    exact ⟨[], _, _, _, rfl, rfl, rfl, .cons hequals' hpath' hload'
      (.cons hequals hpath hload (h.of_isGiven hafter next'))⟩
  | cons c rest ih =>
    rw [List.cons_append] at h
    obtain - | ⟨hequals, hpath, hvalue, h⟩ := h
    obtain ⟨first, s, t, last, rfl, hs, ht, hswapped⟩ := ih h
    exact ⟨_ :: first, s, t, last, rfl, hs, ht, .cons hequals hpath hvalue hswapped⟩

/-! ### Assignments that are read -/

/-- A value that is read as an integer. -/
theorem valueOf_eq_int {free : Nat} (next : Nat) {t : Text} {n : Int}
    (h : (match valueOf free t with
      | .ok (.int m, last) => decide (m = n ∧ last = next)
      | _ => false) = true) : valueOf free t = .ok (.int n, next) := by
  split at h
  · rename_i heq
    obtain ⟨rfl, rfl⟩ := of_decide_eq_true h
    exact heq
  · cases h

theorem Says.cons_of_eq {next : Nat} {assignment name : Text} {names : List Text} {rest : List Text}
    (hequals : '=' ∈ assignment) (hpath : pathOf assignment = name :: names)
    (hvalue : load free (valueText assignment) = .ok (value, next))
    (hrest : Says load next rest settings) :
    Says load free (assignment :: rest) (⟨name :: names, value⟩ :: settings) := by
  rw [← hpath]
  exact .cons hequals (by rw [hpath]; exact List.cons_ne_nil _ _) hvalue hrest

/-- What assignments do to a tree, `work` being what they make of it. -/
structure Lawful (load : Loading) (entries : List (Value × Value)) (free : Nat)
    (assignments : List Text) (settings : List Setting) (work : Workspace) : Prop where
  /-- A path that diverges from all assigned paths leads where it led. -/
  frame : ∀ path, (∀ s ∈ settings, Diverge s.path path) →
    work.data.at? path = (Value.map entries).at? path
  /-- The path of an assignment leads to its value if all later paths diverge from it. A value with
  an identity inside must not have been set on it. -/
  set : ∀ before s after, settings = before ++ s :: after →
    (∀ t ∈ after, Diverge t.path s.path) →
    (∀ t ∈ before ++ [s], t.path <+: s.path → t.value.IsTree) →
    work.data.at? s.path = some s.value
  /-- If no value has an identity inside, two assignments on diverging paths that stand next to each
  other can change places. -/
  swap : (∀ s ∈ settings, s.value.IsTree) →
    ∀ before a b after, assignments = before ++ a :: b :: after →
      (∀ c ∈ a :: b :: after, IsGiven load c) → Diverge (pathOf a) (pathOf b) →
      ∃ work', assignAll load ⟨.map entries, free⟩ (before ++ b :: a :: after) = .ok work' ∧
        work.data.Rearranged work'.data

/-- **Assignments that say something are made, and set what they say and nothing else.** -/
theorem exists_lawful_assignAll (hdata : (Value.map entries).IsTree)
    (hsaid : Says load free assignments settings) :
    ∃ work, assignAll load ⟨.map entries, free⟩ assignments = .ok work ∧
      Lawful load entries free assignments settings work := by
  obtain ⟨next, hall⟩ := hsaid.assignAll_eq (.map entries)
  refine ⟨_, hall, ⟨fun path hdiverge => ?frame, ?set, ?swap⟩⟩
  case frame =>
    obtain ⟨found, hleads, htree⟩ := hdata.exists_leads path
    obtain ⟨entries', heq, hleads'⟩ := leads_settle_of_diverge hdiverge hleads htree
    dsimp only
    rw [heq, hleads'.at?, hleads.at?]
  case set =>
    rintro before s after rfl hafter hvalues
    have hpath := hsaid.path_ne_nil s (List.mem_append_right _ List.mem_cons_self)
    exact at?_settle_of_setting hdata hpath hafter hvalues
  case swap =>
    rintro hvalues before a b after rfl hgiven hdiverge
    obtain ⟨first, s, t, last, rfl, hs, ht, hswapped⟩ := hsaid.swap hgiven
    rw [← hs, ← ht] at hdiverge
    obtain ⟨next', hall'⟩ := hswapped.assignAll_eq (.map entries)
    have hvalues' : ∀ u ∈ first ++ t :: s :: last, u.value.IsTree := fun u hu =>
      hvalues u (((List.Perm.swap s t last).append_left first).mem_iff.mp hu)
    refine ⟨_, hall', settleIn entries (first ++ s :: t :: last),
      settleIn entries (first ++ t :: s :: last), ?_, ?_, ?_⟩
    · exact (settle_of_isTree hdata hvalues).1
    · exact (settle_of_isTree hdata hvalues').1
    · exact reordered_settleIn_swap hdata hdiverge hvalues

/-- Data with a number under a name, and a number inside a map. -/
def sampleData : List (Value × Value) :=
  [(.text ['k'], .int 5), (.text ['a'], .map [(.text ['b'], .int 0)])]

/-- A number is replaced by a map on the way; two empty values are set besides. -/
def sampleAssignments : List Text := ["a.b.c=1", "a.d=", "a.e="].map Text.ofString

theorem exists_lawful_assignAll_sample :
    (Value.map sampleData).IsTree ∧
      Says valueOf 1 sampleAssignments
        [⟨[['a'], ['b'], ['c']], .int 1⟩, ⟨[['a'], ['d']], .text []⟩, ⟨[['a'], ['e']], .text []⟩] ∧
      ∃ work, assignAll valueOf ⟨.map sampleData, 1⟩ sampleAssignments = .ok work ∧
        work.data.at? [['k']] = some (.int 5) ∧
        work.data.at? [['a'], ['b'], ['c']] = some (.int 1) ∧
        ∃ work', assignAll valueOf ⟨.map sampleData, 1⟩
            (["a.b.c=1", "a.e=", "a.d="].map Text.ofString) = .ok work' ∧
          work.data.Rearranged work'.data := by
  have hint (n : Int) : (Value.int n).IsTree := .of_parts trivial rfl
  have htext (t : Text) : (Value.text t).IsTree := .of_parts trivial rfl
  have hinside : (Value.map [(.text ['b'], .int 0)]).IsTree :=
    Value.isTree_map.mpr ⟨by decide, by simp [hint, htext]⟩
  have hdata : (Value.map sampleData).IsTree :=
    Value.isTree_map.mpr ⟨by decide, by simp [sampleData, hint, htext, hinside]⟩
  have hsaid : Says valueOf 1 sampleAssignments
      [⟨[['a'], ['b'], ['c']], .int 1⟩, ⟨[['a'], ['d']], .text []⟩, ⟨[['a'], ['e']], .text []⟩] :=
    .cons_of_eq (by decide +kernel) (by decide +kernel) (valueOf_eq_int 2 (by decide +kernel))
      (.cons_of_eq (by decide +kernel) (by decide +kernel) rfl
        (.cons_of_eq (by decide +kernel) (by decide +kernel) rfl (.nil 2)))
  obtain ⟨work, hall, hlawful⟩ := exists_lawful_assignAll hdata hsaid
  refine ⟨hdata, hsaid, work, hall, ?_, ?_, ?_⟩
  · rw [hlawful.frame [['k']] (by decide)]
    rfl
  · refine hlawful.set [] _ _ rfl (by decide) fun t ht _ => ?_
    rw [List.mem_singleton.mp ht]
    exact hint 1
  · have hgiven : ∀ c ∈ [Text.ofString "a.d=", Text.ofString "a.e="], IsGiven valueOf c := by
      intro c hc
      simp only [List.mem_cons, List.not_mem_nil, or_false] at hc
      refine ⟨.text [], fun free => ⟨free, ?_⟩⟩
      rcases hc with rfl | rfl <;> rfl
    exact hlawful.swap (by simp [hint, htext]) [Text.ofString "a.b.c=1"] _ _ [] rfl hgiven
      (by decide +kernel)

/-- A map with one map in it, in two places. -/
def twofold : Text := Text.ofString "a=\x7bx: &m \x7b\x7d, y: *m\x7d"

/-- The value that it is read as. -/
def twofoldMap : Value :=
  .map [(.text ['x'], .shared 3 (.map [])), (.text ['y'], .shared 3 (.map []))]

/-- Whether that is what has been read. -/
def isTwofold : Except AssignmentFault (Value × Nat) → Bool
  | .ok (.map [(.text x, .shared i (.map [])), (.text y, .shared j (.map []))], next) =>
    x == ['x'] && i == 3 && y == ['y'] && j == 3 && next == 5
  | _ => false

theorem eq_of_isTwofold {result : Except AssignmentFault (Value × Nat)}
    (h : isTwofold result = true) : result = .ok (twofoldMap, 5) := by
  unfold isTwofold at h
  split at h
  · simp only [Bool.and_eq_true, beq_iff_eq] at h
    obtain ⟨⟨⟨⟨rfl, rfl⟩, rfl⟩, rfl⟩, rfl⟩ := h
    rfl
  · cases h

theorem valueOf_twofold : valueOf 1 (valueText twofold) = .ok (twofoldMap, 5) :=
  eq_of_isTwofold (by decide +kernel)

/-- Assignments to its first and to its second place. -/
def toFirst : Text := Text.ofString "a.x.p=1"

@[inherit_doc toFirst]
def toSecond : Text := Text.ofString "a.y.p=2"

/-- **What is set in one place of a map is lost when something is set in the other place**, on a
path that diverges; so it matters which is set first. -/
theorem assignAll_twofold :
    (Value.map []).IsTree ∧ Diverge [['a'], ['y'], ['p']] [['a'], ['x'], ['p']] ∧
      Says valueOf 1 [twofold, toFirst, toSecond]
        [⟨[['a']], twofoldMap⟩, ⟨[['a'], ['x'], ['p']], .int 1⟩,
          ⟨[['a'], ['y'], ['p']], .int 2⟩] ∧
      ∃ work work', assignAll valueOf ⟨.map [], 1⟩ [twofold, toFirst, toSecond] = .ok work ∧
        assignAll valueOf ⟨.map [], 1⟩ [twofold, toSecond, toFirst] = .ok work' ∧
        work.data.at? [['a'], ['x'], ['p']] = some (.int 2) ∧
        work'.data.at? [['a'], ['x'], ['p']] = some (.int 1) := by
  have hsaid : Says valueOf 1 [twofold, toFirst, toSecond]
      [⟨[['a']], twofoldMap⟩, ⟨[['a'], ['x'], ['p']], .int 1⟩,
        ⟨[['a'], ['y'], ['p']], .int 2⟩] :=
    .cons_of_eq (by decide +kernel) (by decide +kernel) valueOf_twofold
      (.cons_of_eq (by decide +kernel) (by decide +kernel) (valueOf_eq_int 6 (by decide +kernel))
        (.cons_of_eq (by decide +kernel) (by decide +kernel) (valueOf_eq_int 7 (by decide +kernel))
          (.nil 7)))
  have hswapped : Says valueOf 1 [twofold, toSecond, toFirst]
      [⟨[['a']], twofoldMap⟩, ⟨[['a'], ['y'], ['p']], .int 2⟩,
        ⟨[['a'], ['x'], ['p']], .int 1⟩] :=
    .cons_of_eq (by decide +kernel) (by decide +kernel) valueOf_twofold
      (.cons_of_eq (by decide +kernel) (by decide +kernel) (valueOf_eq_int 6 (by decide +kernel))
        (.cons_of_eq (by decide +kernel) (by decide +kernel) (valueOf_eq_int 7 (by decide +kernel))
          (.nil 7)))
  obtain ⟨next, hall⟩ := hsaid.assignAll_eq (.map [])
  obtain ⟨next', hall'⟩ := hswapped.assignAll_eq (.map [])
  refine ⟨.of_parts List.Pairwise.nil rfl, by decide, hsaid, _, _, hall, hall', ?_, ?_⟩
  · rfl
  · rfl

end CommandLine

end Stencil
