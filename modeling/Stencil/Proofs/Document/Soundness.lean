import Stencil.Proofs.Document.Steps

/-! # Sound documents

Two things hold of every node of a document that was built from segments that are not empty: no text
is empty, and in a verbatim tag there are texts only.  While the document is built they hold of all
nodes so far, and there may be a verbatim tag only innermost among the open ones: in it nothing
opens.  A step keeps this (`Building.Sound.step`), and so does building (`ofSegments_sound`).

Which tags are verbatim is a matter of the grammar; `V` says it by family and name, and
`DeclaresVerbatim` that the families agree.
-/

namespace Stencil

/-- The families declare verbatim the tags that `V` says are. -/
def DeclaresVerbatim (V : Value → Text → Bool) (families : List Family) : Prop :=
  ∀ family ∈ families, ∀ spec ∈ family.tags, ∀ name, spec.name = .text name →
    V family.key name = spec.verbatim

/-- Whether a node is a text. -/
def Node.isText : Node → Bool
  | .text _ _ _ _ => true
  | .tag _ _ _ _ => false

variable (V : Value → Text → Bool)

/-- A node without empty texts, and with nothing but texts in verbatim tags. -/
inductive Node.Sound : Node → Prop
  | text {id : Nat} {value : Text} {position : Position} {attached : Bool} (hvalue : value ≠ []) :
      Sound (.text id value position attached)
  | tag {id : Nat} {head : TagHead} {closing : Option Nat} {children : List Node}
      (hchildren : ∀ n ∈ children, Sound n)
      (hverbatim : ∀ name, head.name = some name → V head.family name = true →
        ∀ n ∈ children, n.isText = true) : Sound (.tag id head closing children)

/-- An open tag that will be a sound node. -/
structure OpenTag.Sound (t : OpenTag) : Prop where
  named : t.head.name = some t.name
  verbatim : V t.head.family t.name = t.verbatim
  children : ∀ n ∈ t.children, n.Sound V
  texts : t.verbatim = true → ∀ n ∈ t.children, n.isText = true

/-- A document under construction with sound nodes, in which only the innermost open tag may be
verbatim. -/
structure Building.Sound (b : Building) : Prop where
  top : ∀ n ∈ b.top, n.Sound V
  stack : ∀ t ∈ b.stack, t.Sound V
  outer : ∀ t ∈ b.stack.tail, t.verbatim = false

variable {V}

namespace Building

theorem sound_empty : empty.Sound V where
  top := fun _ h => absurd h List.not_mem_nil
  stack := fun _ h => absurd h List.not_mem_nil
  outer := fun _ h => absurd h List.not_mem_nil

/-- The number of the next node does not matter. -/
theorem Sound.congr {b c : Building} (h : b.Sound V) (htop : c.top = b.top)
    (hstack : c.stack = b.stack) : c.Sound V where
  top := htop ▸ h.top
  stack := hstack ▸ h.stack
  outer := hstack ▸ h.outer

/-- A sound node may be added, but into a verbatim tag only a text. -/
theorem Sound.attach {b : Building} (h : b.Sound V) {n : Node} (hn : n.Sound V)
    (htext : b.insideVerbatim = true → n.isText = true) : (b.attach n).Sound V := by
  rw [Building.attach]
  split
  · rename_i hstack
    refine ⟨fun m hm => ?_, h.stack, h.outer⟩
    rcases List.mem_cons.mp hm with rfl | hm
    · exact hn
    · exact h.top m hm
  · rename_i innermost outer hstack
    have hmem : innermost ∈ b.stack := hstack ▸ List.mem_cons_self
    have hin := h.stack innermost hmem
    have hinside : b.insideVerbatim = innermost.verbatim := by simp [insideVerbatim, hstack]
    refine ⟨h.top, fun t ht => ?_, fun t ht => h.outer t (by rw [hstack]; exact ht)⟩
    rcases List.mem_cons.mp ht with rfl | ht
    · refine ⟨hin.named, hin.verbatim, fun m hm => ?_, fun hv m hm => ?_⟩
      · rcases List.mem_cons.mp hm with rfl | hm
        · exact hn
        · exact hin.children m hm
      · rcases List.mem_cons.mp hm with rfl | hm
        · exact htext (hinside.trans hv)
        · exact hin.texts hv m hm
    · exact h.stack t (hstack ▸ List.mem_cons_of_mem innermost ht)

/-- Detaching changes of a node no more than whether it is attached. -/
theorem mem_detachBlank {nodes : List Node} {n : Node} (h : n ∈ detachBlank nodes) :
    n ∈ nodes ∨ ∃ id t position attached attached', .text id t position attached ∈ nodes ∧
      n = .text id t position attached' := by
  cases nodes with
  | nil => exact Or.inl h
  | cons m rest =>
    cases m with
    | text id t position attached =>
      rcases List.mem_cons.mp h with rfl | h
      · exact Or.inr ⟨id, t, position, attached, _, List.mem_cons_self, rfl⟩
      · exact Or.inl (List.mem_cons_of_mem _ h)
    | tag id head closing children => exact Or.inl h

theorem sound_detachBlank {nodes : List Node} (h : ∀ n ∈ nodes, n.Sound V) :
    ∀ n ∈ detachBlank nodes, n.Sound V := by
  intro n hn
  rcases mem_detachBlank hn with hn | ⟨id, t, position, attached, attached', hm, rfl⟩
  · exact h n hn
  · cases h _ hm with
    | text hvalue => exact .text hvalue

theorem isText_detachBlank {nodes : List Node} (h : ∀ n ∈ nodes, n.isText = true) :
    ∀ n ∈ detachBlank nodes, n.isText = true := by
  intro n hn
  rcases mem_detachBlank hn with hn | ⟨id, t, position, attached, attached', hm, rfl⟩
  · exact h n hn
  · rfl

/-- Detaching whitespace leaves all nodes sound. -/
theorem Sound.isolate {b : Building} (h : b.Sound V) : b.isolate.Sound V := by
  rw [Building.isolate]
  split
  · exact ⟨sound_detachBlank h.top, h.stack, h.outer⟩
  · rename_i innermost outer hstack
    have hin := h.stack innermost (hstack ▸ List.mem_cons_self)
    refine ⟨h.top, fun t ht => ?_, fun t ht => h.outer t (by rw [hstack]; exact ht)⟩
    rcases List.mem_cons.mp ht with rfl | ht
    · exact ⟨hin.named, hin.verbatim, sound_detachBlank hin.children,
        fun hv => isText_detachBlank (hin.texts hv)⟩
    · exact h.stack t (hstack ▸ List.mem_cons_of_mem innermost ht)

theorem insideVerbatim_isolate (b : Building) : b.isolate.insideVerbatim = b.insideVerbatim := by
  rw [Building.isolate]
  split
  · rfl
  · rename_i innermost outer hstack
    simp [insideVerbatim, hstack]

/-- A tag may be opened unless the innermost open tag is verbatim. -/
theorem Sound.openTag {b : Building} (h : b.Sound V) {name : Text} {head : TagHead}
    {verbatim : Bool} (hinside : b.insideVerbatim = false) (hnamed : head.name = some name)
    (hverbatim : V head.family name = verbatim) : (b.openTag name head verbatim).Sound V where
  top := h.top
  stack := by
    intro t ht
    rcases List.mem_cons.mp ht with rfl | ht
    · exact ⟨hnamed, hverbatim, fun n hn => absurd hn List.not_mem_nil,
        fun _ n hn => absurd hn List.not_mem_nil⟩
    · exact h.stack t ht
  outer := by
    intro t ht
    change t ∈ b.stack at ht
    cases hstack : b.stack with
    | nil => simp [hstack] at ht
    | cons innermost outer =>
      rw [hstack] at ht
      rcases List.mem_cons.mp ht with rfl | ht
      · simpa [insideVerbatim, hstack] using hinside
      · exact h.outer t (by rw [hstack]; exact ht)

/-- A tag that is closed is a sound node of the tag around it, which is not verbatim. -/
theorem Sound.closeTag {b : Building} (h : b.Sound V) (index : Nat) :
    (b.closeTag index).Sound V := by
  rw [Building.closeTag]
  split
  · exact h
  · rename_i t outer hstack
    have ht := h.stack t (hstack ▸ List.mem_cons_self)
    have houter : ∀ u ∈ outer, u.verbatim = false :=
      fun u hu => h.outer u (by rw [hstack]; exact hu)
    have hpopped : Building.Sound V { b with stack := outer } :=
      ⟨h.top, fun u hu => h.stack u (hstack ▸ List.mem_cons_of_mem t hu),
        fun u hu => houter u (List.mem_of_mem_tail hu)⟩
    refine hpopped.attach (.tag (fun n hn => ht.children n (List.mem_reverse.mp hn)) ?_) ?_
    · intro name hname hV n hn
      obtain rfl := Option.some.inj (ht.named.symm.trans hname)
      exact ht.texts (ht.verbatim.symm.trans hV) n (List.mem_reverse.mp hn)
    · intro hinside
      cases outer with
      | nil => simp [insideVerbatim] at hinside
      | cons u rest =>
        have := houter u List.mem_cons_self
        simp [insideVerbatim, this] at hinside

/-- **A step keeps documents sound**, if the segment is not empty. -/
theorem Sound.step {families : List Family} (hV : DeclaresVerbatim V families) {b b' : Building}
    (h : b.Sound V) {index : Nat} {segment : Segment} (hraw : segment.raw ≠ [])
    (hstep : Step families b index segment b') : b'.Sound V := by
  cases hstep with
  | text | verbatim => exact (h.attach (.text hraw) fun _ => rfl).congr rfl rfl
  | anonymous hkind hread hinside =>
    refine (h.attach (.tag (fun n hn => absurd hn List.not_mem_nil) ?_) ?_).congr rfl rfl
    · exact fun name hname => nomatch hname
    · exact fun hv => absurd hv (by simp [hinside])
  | opening hkind hread hinside =>
    obtain ⟨family, hfamily, spec, hspec, hname, rfl, -, rfl⟩ := Tag.read_eq_opening hread
    have hverbatim := hV family hfamily spec hspec _ hname
    split
    · exact h.isolate.openTag (by rw [insideVerbatim_isolate]; exact hinside) rfl hverbatim
    · exact h.openTag hinside rfl hverbatim
  | closing => exact h.closeTag index

end Building

/-- **The nodes of a document are sound** if it was built from segments that are not empty. -/
theorem Document.ofSegments_sound {families : List Family} (hV : DeclaresVerbatim V families)
    {segments : List Segment} (hraw : ∀ s ∈ segments, s.raw ≠ []) {document : Document}
    (h : ofSegments families segments = .ok document) : ∀ n ∈ document.children, n.Sound V := by
  obtain ⟨b, hall, -, rfl⟩ := ofSegments_eq_ok_iff.mp h
  have hb : b.Sound V := Building.addAll_induction (P := Building.Sound V)
    (fun b b' index s hs hb hstep => hb.step hV (hraw s hs) hstep) Building.sound_empty hall
  exact fun n hn => hb.top n (List.mem_reverse.mp hn)

end Stencil
