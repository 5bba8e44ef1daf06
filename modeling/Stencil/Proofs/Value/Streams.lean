import Stencil.Proofs.Value.Parts

/-! # Values without streams

A stream yields each item once in a run, so what a template writes for it depends on what was
written before.  Data that hold no stream anywhere (`Value.StreamFree`) give no stream: to be none is
a property that values keep (`Value.kept_isStream`), so no expression has a stream for a value
(`Scope.StreamFree.evaluateAt`), and a loop goes through pairs that are fixed and free of streams
themselves (`Pairs.of_streamFree`).
-/

namespace Stencil

namespace Value

/-- Whether a value has nothing inside and is no stream. -/
def isPlain : Value → Bool
  | .null | .bool _ | .int _ | .float _ | .text _ | .points _ | .bytes _ | .date _ | .moment _
  | .again _ => true
  | _ => false

/-- A value without a stream in it. -/
inductive StreamFree : Value → Prop
  | plain {v : Value} (h : v.isPlain = true) : StreamFree v
  | list {items : List Value} (h : ∀ v ∈ items, StreamFree v) : StreamFree (.list items)
  | tuple {items : List Value} (h : ∀ v ∈ items, StreamFree v) : StreamFree (.tuple items)
  | map {entries : List (Value × Value)} (hkeys : ∀ e ∈ entries, StreamFree e.1)
      (hvalues : ∀ e ∈ entries, StreamFree e.2) : StreamFree (.map entries)
  | object {id : Nat} {attributes : List (Text × Value)} (h : ∀ a ∈ attributes, StreamFree a.2) :
      StreamFree (.object id attributes)
  | shared {id : Nat} {inside : Value} (h : StreamFree inside) : StreamFree (.shared id inside)

/-- Whether a value is a stream. -/
def isStream : Value → Bool
  | .stream _ _ => true
  | _ => false

theorem throughout_of_streamFree {v : Value} (h : v.StreamFree) :
    v.Throughout fun u => u.isStream = false := by
  induction h with
  | @plain v hv =>
    unfold isPlain at hv
    split at hv
    all_goals first | exact .of_parts rfl rfl | cases hv
  | list h ih | tuple h ih => exact .intro rfl ih
  | map hkeys hvalues ihkeys ihvalues =>
    exact .intro rfl (List.forall_mem_append.mpr
      ⟨List.forall_mem_map.mpr ihkeys, List.forall_mem_map.mpr ihvalues⟩)
  | object h ih => exact .intro rfl (List.forall_mem_map.mpr ih)
  | shared h ih => exact .intro rfl (List.forall_mem_singleton.mpr ih)

theorem streamFree_of_throughout {v : Value} (h : v.Throughout fun u => u.isStream = false) :
    v.StreamFree := by
  induction h with
  | @intro v here inside ih =>
    cases v with
    | stream id items => cases here
    | list items => exact .list ih
    | tuple items => exact .tuple ih
    | map entries =>
      obtain ⟨hkeys, hvalues⟩ := List.forall_mem_append.mp ih
      exact .map (List.forall_mem_map.mp hkeys) (List.forall_mem_map.mp hvalues)
    | object id attributes => exact .object (List.forall_mem_map.mp ih)
    | shared id inner => exact .shared (ih inner List.mem_cons_self)
    | _ => exact .plain rfl

/-- **A value without streams** is none, and has none inside at any depth. -/
theorem streamFree_iff {v : Value} : v.StreamFree ↔ v.Throughout fun u => u.isStream = false :=
  ⟨throughout_of_streamFree, streamFree_of_throughout⟩

/-- To be no stream is a property that values keep. -/
theorem kept_isStream : Kept fun u => u.isStream = false := by
  refine kept_of_collections (fun v h => ?_) (fun _ => rfl) fun v h => ?_
  · cases v <;> first | rfl | cases h
  · cases v <;> first | rfl | cases h

end Value

/-- A scope without a stream in it. -/
structure Scope.StreamFree (scope : Scope) : Prop where
  bindings : ∀ b ∈ scope.bindings, b.2.StreamFree
  data : scope.data.StreamFree

theorem Scope.streamFree_iff {scope : Scope} :
    scope.StreamFree ↔ scope.Throughout fun u => u.isStream = false :=
  ⟨fun h => ⟨fun b hb => Value.streamFree_iff.mp (h.bindings b hb), Value.streamFree_iff.mp h.data⟩,
    fun h => ⟨fun b hb => Value.streamFree_iff.mpr (h.bindings b hb),
      Value.streamFree_iff.mpr h.data⟩⟩

theorem Scope.streamFree_ofData [Host] {data : Value} (h : data.StreamFree) :
    (Scope.ofData data).StreamFree :=
  Scope.streamFree_iff.mpr (Scope.throughout_ofData Value.kept_isStream (Value.streamFree_iff.mp h))

theorem Scope.StreamFree.extend {scope : Scope} (h : scope.StreamFree)
    {bindings : List (Text × Value)} (hbindings : ∀ b ∈ bindings, b.2.StreamFree) :
    (scope.extend bindings).StreamFree where
  bindings b hb := (List.mem_append.mp hb).elim (hbindings b) (h.bindings b)
  data := h.data

/-- The host gives no stream to a value without streams. -/
def Host.StreamFree [Host] : Prop :=
  ∀ {v w : Value} {name : Text}, v.StreamFree → Host.attribute? v name = some w → w.StreamFree

theorem Host.LendsNothing.streamFree [Host] (h : Host.LendsNothing) : Host.StreamFree := by
  intro v w name _ hw
  rw [h v name] at hw
  cases hw

theorem Host.StreamFree.keeps [Host] (h : Host.StreamFree) :
    Host.Keeps fun u => u.isStream = false :=
  fun hv hw => Value.streamFree_iff.mp (h (Value.streamFree_iff.mpr hv) hw)

/-- **An expression has no stream for a value** in a scope without streams, on a host without. -/
theorem Scope.StreamFree.evaluateAt [Host] (hhost : Host.StreamFree) {scope : Scope}
    (h : scope.StreamFree) {e : Expression} {position : Option Position} {v : Value}
    (hv : scope.evaluateAt e position = .ok v) : v.StreamFree := by
  have hliterals : ∀ constant ∈ e.literals, constant.value.isStream = false :=
    fun constant _ => by cases constant <;> rfl
  exact Value.streamFree_iff.mpr (Expression.throughout_value Value.kept_isStream hhost.keeps
    (Scope.streamFree_iff.mp h) hliterals (Scope.value_of_evaluateAt hv))

namespace Pairs

/-- Pairs without streams that do not come from a stream. -/
def StreamFree : Pairs → Prop
  | .fixed pairs => ∀ p ∈ pairs, p.1.StreamFree ∧ p.2.StreamFree
  | .stream _ _ _ => False

/-- A loop gets its pairs from a stream only if it goes through one. -/
theorem exists_fixed_of {mode : LoopMode} {collection : Expression} {position : Option Position}
    {v : Value} (h : v.exposed.isStream = false) {pairs : Pairs}
    (hpairs : Pairs.of mode collection position v = .ok pairs) : ∃ all, pairs = .fixed all := by
  unfold Pairs.of at hpairs
  split at hpairs
  · split at hpairs
    · exact ⟨_, (Except.ok.inj hpairs).symm⟩
    · cases hpairs
  · exact ⟨_, (Except.ok.inj hpairs).symm⟩
  · exact ⟨_, (Except.ok.inj hpairs).symm⟩
  · exact ⟨_, (Except.ok.inj hpairs).symm⟩
  · rename_i id items hstream
    rw [hstream] at h
    cases h
  · split at hpairs <;> cases hpairs

/-- **A loop over a value without streams goes through fixed pairs without streams.** -/
theorem of_streamFree {mode : LoopMode} {collection : Expression} {position : Option Position}
    {v : Value} (h : v.StreamFree) {pairs : Pairs}
    (hpairs : Pairs.of mode collection position v = .ok pairs) : pairs.StreamFree := by
  have hthroughout := Value.streamFree_iff.mp h
  obtain ⟨all, rfl⟩ := exists_fixed_of (hthroughout.exposed Value.kept_isStream).here hpairs
  have hall := throughout_of Value.kept_isStream hthroughout hpairs
  exact fun p hp =>
    ⟨Value.streamFree_iff.mpr (hall p hp).1, Value.streamFree_iff.mpr (hall p hp).2⟩

end Pairs
end Stencil
