import Stencil.Document.Building
import Stencil.Proofs.Source.Searching

/-! # What a step of building does

`Building.add` puts one more segment into a document under construction.  `Step` says once all that
it can do, with what has to hold for it: the segment becomes a text, a tag without name, an open tag
that is now the innermost one, or the closing tag of the innermost one (`add_eq_ok_iff`).  What
building keeps is proved by cases on the step, and carried over a whole row of segments by
`addAll_induction`.  In the same way `Tag.read_eq_some` and `Tag.readNamed_eq_some` say all that a
tag can be read as.
-/

namespace Stencil

namespace Tag

theorem readAnonymousIn_eq_ok {family : Family} {raw : Text} {tag : Tag}
    (h : readAnonymousIn family raw = .ok tag) :
    ∃ arguments, tag = .anonymous family.key (inner family raw) arguments := by
  rw [readAnonymousIn] at h
  cases he : extract (inner family raw) family.arguments with
  | error fault => simp [he, Except.map] at h
  | ok arguments =>
    simp only [he, Except.map, Except.ok.injEq] at h
    exact ⟨arguments, h.symm⟩

/-- Reading a tag as an anonymous one gives an anonymous tag of one of the families. -/
theorem readAnonymous_eq_ok {families : List Family} {key : Option Value} {raw : Text} {tag : Tag}
    (h : readAnonymous families key raw = .ok tag) :
    ∃ family arguments, tag = .anonymous family.key (inner family raw) arguments := by
  rw [readAnonymous] at h
  split at h
  · split at h
    · cases h
    · split at h
      · obtain ⟨arguments, rfl⟩ := readAnonymousIn_eq_ok h
        exact ⟨_, arguments, rfl⟩
      · cases h
  · split at h
    · obtain ⟨arguments, rfl⟩ := readAnonymousIn_eq_ok h
      exact ⟨_, arguments, rfl⟩
    · cases h

/-- The declaration that a name of a family is paired with has this name. -/
theorem mem_names? {specs : List TagSpec} {names : List (Text × TagSpec)}
    (h : names? specs = some names) {entry : Text × TagSpec} (hmem : entry ∈ names) :
    entry.2 ∈ specs ∧ entry.2.name = .text entry.1 := by
  induction specs generalizing names with
  | nil =>
    obtain rfl := Option.some.inj h
    exact absurd hmem List.not_mem_nil
  | cons spec rest ih =>
    rw [names?] at h
    split at h
    · rename_i name more hname hmore
      obtain rfl := Option.some.inj h
      rcases List.mem_cons.mp hmem with rfl | hmem
      · exact ⟨List.mem_cons_self, hname⟩
      · obtain ⟨hspec, hname⟩ := ih hmore hmem
        exact ⟨List.mem_cons_of_mem spec hspec, hname⟩
    · rename_i codes more hname hmore
      obtain rfl := Option.some.inj h
      obtain ⟨hspec, hname⟩ := ih hmore hmem
      exact ⟨List.mem_cons_of_mem spec hspec, hname⟩
    · cases h

/-- The longest name that fits is one of those that fit. -/
theorem mem_filter_of_longest? {t : Text} {names : List (Text × TagSpec)} {entry : Text × TagSpec}
    (h : longest? t names = some entry) : entry ∈ names.filter fun n => fits t n.1 := by
  -- the best name so far is one of them, whichever of two is kept
  have hbest : ∀ e ∈ longest? t names, e ∈ names.filter fun n => fits t n.1 := by
    refine List.foldlRecOn (motive := fun best : Option (Text × TagSpec) =>
      ∀ e ∈ best, e ∈ names.filter fun n => fits t n.1) _ _ ?_ ?_
    · exact fun e he => nomatch he
    · intro best hmem n hn
      cases best with
      | none => exact fun e he => Option.some.inj he ▸ hn
      | some b =>
        dsimp only
        split
        · exact fun e he => Option.some.inj he ▸ hn
        · exact hmem
  exact hbest entry h

theorem mem_of_longest? {t : Text} {names : List (Text × TagSpec)} {entry : Text × TagSpec}
    (h : longest? t names = some entry) : entry ∈ names :=
  (List.mem_filter.mp (mem_filter_of_longest? h)).1

/-- A text begins with the longest name that fits. -/
theorem isPrefix_of_longest? {t : Text} {names : List (Text × TagSpec)} {entry : Text × TagSpec}
    (h : longest? t names = some entry) : entry.1 <+: t := by
  have hfits := (List.mem_filter.mp (mem_filter_of_longest? h)).2
  rw [fits, Bool.and_eq_true] at hfits
  exact List.isPrefixOf_iff_prefix.mp hfits.1

/-- **All that a tag with a name is read as**: a closing tag, if there is a slash in front of the
name, or else an opening tag. -/
theorem readNamed_eq_some {family : Family} {names : List (Text × TagSpec)} {t : Text} {tag : Tag}
    (h : readNamed family names t = .ok (some tag)) :
    (∃ rest name spec, t = '/' :: rest ∧ longest? rest names = some (name, spec) ∧
      tag = .closing name family.key spec.isolated spec.verbatim) ∨
    ∃ name spec pattern arguments, longest? t names = some (name, spec) ∧
      extract (Text.trimStart (t.drop name.length)) pattern = .ok arguments ∧
      tag = .opening name family.key spec.isolated spec.verbatim
        (Text.trimStart (t.drop name.length)) arguments := by
  rw [readNamed] at h
  split at h
  · rename_i name spec hfound
    obtain ⟨rest, hslash, hlongest⟩ := Option.bind_eq_some_iff.mp hfound
    unfold afterSlash? at hslash
    split at hslash
    · obtain rfl := Option.some.inj hslash
      exact Or.inl ⟨_, name, spec, rfl, hlongest, (Option.some.inj (Except.ok.inj h)).symm⟩
    · cases hslash
  · rw [readOpening] at h
    cases hlongest : longest? t names with
    | none => simp [hlongest] at h
    | some entry =>
      obtain ⟨name, spec⟩ := entry
      simp only [hlongest] at h
      -- the arguments are the only thing that may be wrong
      generalize hextract : extract (Text.trimStart (t.drop name.length)) _ = extracted at h
      cases extracted with
      | error fault => cases h
      | ok arguments =>
        have htag := (Option.some.inj (Except.ok.inj h)).symm
        exact Or.inr ⟨name, spec, _, arguments, rfl, hextract, htag⟩

/-- **All that a tag is read as**: a tag with a name of the family that it opens, or if the family
has no names a tag without name. -/
theorem read_eq_some {families : List Family} {raw : Text} {tag : Tag}
    (h : read families raw = .ok (some tag)) :
    ∃ family, Family.next? families raw = some (0, family) ∧
      ((family.hasNames = true ∧ ∃ names, names? family.tags = some names ∧
        readNamed family names (Text.trim (inner family raw)) = .ok (some tag)) ∨
      (family.hasNames = false ∧ ∃ arguments, extract (inner family raw) family.arguments =
        .ok arguments ∧ tag = .anonymous family.key (inner family raw) arguments)) := by
  rw [read] at h
  split at h
  · rename_i family hnext
    refine ⟨family, hnext, ?_⟩
    split at h
    · rename_i hnames
      split at h
      · cases h
      · rename_i names htable
        exact Or.inl ⟨hnames, names, htable, h⟩
    · rename_i hnames
      rw [readAnonymousIn] at h
      cases hextract : extract (inner family raw) family.arguments with
      | error fault => simp [hextract, Except.map] at h
      | ok arguments =>
        simp only [hextract, Except.map, Except.ok.injEq, Option.some.injEq] at h
        exact Or.inr ⟨eq_false_of_ne_true hnames, arguments, rfl, h.symm⟩
  · cases h

/-- An opening tag that has been read is declared in one of the families. -/
theorem read_eq_opening {families : List Family} {raw name rest : Text} {key : Value}
    {isolated verbatim : Bool} {arguments : Arguments}
    (h : read families raw = .ok (some (.opening name key isolated verbatim rest arguments))) :
    ∃ family ∈ families, ∃ spec ∈ family.tags, spec.name = .text name ∧ key = family.key ∧
      isolated = spec.isolated ∧ verbatim = spec.verbatim := by
  obtain ⟨family, hnext, ⟨-, names, hnames, hnamed⟩ | ⟨-, _, -, heq⟩⟩ := read_eq_some h
  · have hfamily := (Family.next?_eq_some_iff.mp hnext).1.mem
    obtain ⟨_, _, _, -, -, heq⟩ | ⟨name, spec, _, _, hlongest, -, heq⟩ := readNamed_eq_some hnamed
    · cases heq
    · obtain ⟨rfl, rfl, rfl, rfl, -, -⟩ := Tag.opening.inj heq
      obtain ⟨hspec, hname⟩ := mem_names? hnames (mem_of_longest? hlongest)
      exact ⟨family, hfamily, spec, hspec, hname, rfl, rfl, rfl⟩
  · cases heq

end Tag

namespace Building

/-- What a segment makes of a document under construction, if it fits in. -/
inductive Step (families : List Family) (b : Building) (index : Nat) (segment : Segment) :
    Building → Prop
  /-- A text is added. -/
  | text (hkind : segment.kind = .text) :
      Step families b index segment (b.addText segment.raw segment.position)
  /-- In a verbatim tag every other tag is added as a text, unless it closes the verbatim tag. -/
  | verbatim {family : Option Value} {tag : Option Tag} (hkind : segment.kind = .tag family)
      (hread : Tag.read families segment.raw = .ok tag)
      (hopen : ∀ name key isolated verbatim, tag = some (.closing name key isolated verbatim) →
        b.closesInnermost name key = false)
      (hinside : b.insideVerbatim = true) :
      Step families b index segment (b.addText segment.raw segment.position)
  /-- A tag without name is added, be it read as one at once or because it has no other reading. -/
  | anonymous {family : Option Value} {key : Value} {raw : Text} {arguments : Arguments}
      (hkind : segment.kind = .tag family)
      (hread : Tag.read families segment.raw = .ok (some (.anonymous key raw arguments)) ∨
        Tag.read families segment.raw = .ok none ∧
          Tag.readAnonymous families family segment.raw = .ok (.anonymous key raw arguments))
      (hinside : b.insideVerbatim = false) :
      Step families b index segment
        (b.addAnonymous ⟨none, key, arguments, raw, index, segment.position⟩)
  /-- A tag is opened, and is the innermost open one from now on. -/
  | opening {family : Option Value} {name : Text} {key : Value} {isolated verbatim : Bool}
      {raw : Text} {arguments : Arguments} (hkind : segment.kind = .tag family)
      (hread : Tag.read families segment.raw =
        .ok (some (.opening name key isolated verbatim raw arguments)))
      (hinside : b.insideVerbatim = false) :
      Step families b index segment ((if isolated then b.isolate else b).openTag name
        ⟨some name, key, arguments, raw, index, segment.position⟩ verbatim)
  /-- The innermost open tag is closed. -/
  | closing {family : Option Value} {name : Text} {key : Value} {isolated verbatim : Bool}
      (hkind : segment.kind = .tag family)
      (hread : Tag.read families segment.raw = .ok (some (.closing name key isolated verbatim)))
      (hcloses : b.closesInnermost name key = true) :
      Step families b index segment (b.closeTag index)

variable {families : List Family} {b b' : Building} {index : Nat} {segment : Segment}

/-- A segment that is added makes a step. -/
theorem Step.of_add (h : b.add families index segment = .ok b') :
    Step families b index segment b' := by
  rw [add] at h
  cases hk : segment.kind with
  | text =>
    simp only [hk] at h
    exact Except.ok.inj h ▸ .text hk
  | tag family =>
    simp only [hk] at h
    cases hr : Tag.read families segment.raw with
    | error fault => simp [hr, addReading] at h
    | ok tag =>
      simp only [hr, addReading] at h
      cases tag with
      | none =>
        simp only at h
        split at h
        · rename_i hv
          exact Except.ok.inj h ▸ .verbatim hk hr (fun _ _ _ _ he => nomatch he) hv
        · rename_i hv
          split at h
          · rename_i tag htag
            obtain ⟨f, arguments, rfl⟩ := Tag.readAnonymous_eq_ok htag
            exact Except.ok.inj h ▸ .anonymous hk (Or.inr ⟨hr, htag⟩) (by simpa using hv)
          · cases h
      | some tag =>
        cases tag with
        | anonymous key raw arguments =>
          simp only at h
          split at h
          · rename_i hv
            exact Except.ok.inj h ▸ .verbatim hk hr (fun _ _ _ _ he => nomatch he) hv
          · rename_i hv
            exact Except.ok.inj h ▸ .anonymous hk (Or.inl hr) (by simpa using hv)
        | opening name key isolated verbatim raw arguments =>
          simp only at h
          split at h
          · rename_i hv
            exact Except.ok.inj h ▸ .verbatim hk hr (fun _ _ _ _ he => nomatch he) hv
          · rename_i hv
            exact Except.ok.inj h ▸ .opening hk hr (by simpa using hv)
        | closing name key isolated verbatim =>
          simp only at h
          split at h
          · rename_i hc
            exact Except.ok.inj h ▸ .closing hk hr hc
          · rename_i hc
            split at h
            · rename_i hv
              refine Except.ok.inj h ▸ .verbatim hk hr (fun name' key' _ _ he => ?_) hv
              obtain ⟨rfl, rfl, -, -⟩ := Tag.closing.inj (Option.some.inj he)
              simpa using hc
            · cases h

/-- A step is what adding the segment comes to. -/
theorem Step.add (h : Step families b index segment b') :
    b.add families index segment = .ok b' := by
  rw [Building.add]
  cases h with
  | text hkind => rw [hkind]
  | verbatim hkind hread hopen hinside =>
    rename_i family tag
    rw [hkind, hread]
    cases tag with
    | none => simp only [addReading, if_pos hinside]
    | some tag =>
      cases tag with
      | closing name key isolated verbatim =>
        have hcloses := hopen name key isolated verbatim rfl
        simp only [addReading, hcloses, if_neg Bool.false_ne_true, if_pos hinside]
      | opening | anonymous => simp only [addReading, if_pos hinside]
  | anonymous hkind hread hinside =>
    rw [hkind]
    rcases hread with hread | ⟨hread, hnone⟩
    · simp only [addReading, hread, hinside, if_neg Bool.false_ne_true, addTag]
    · simp only [addReading, hread, hnone, hinside, if_neg Bool.false_ne_true,
        addTag]
  | opening hkind hread hinside =>
    rw [hkind, hread]
    simp only [addReading, hinside, if_neg Bool.false_ne_true]
  | closing hkind hread hcloses =>
    rw [hkind, hread]
    simp only [addReading, if_pos hcloses]

/-- **All that a step of building does.** -/
theorem add_eq_ok_iff :
    b.add families index segment = .ok b' ↔ Step families b index segment b' :=
  ⟨Step.of_add, Step.add⟩

/-- What every step keeps, a whole row of segments keeps. -/
theorem addAll_induction {P : Building → Prop} {segments : List Segment}
    (hstep : ∀ (b b' : Building) (index : Nat), ∀ segment ∈ segments, P b →
      Step families b index segment b' → P b') (hb : P b)
    (h : b.addAll families index segments = .ok b') : P b' := by
  induction segments generalizing b index with
  | nil =>
    obtain rfl := Except.ok.inj h
    exact hb
  | cons segment rest ih =>
    rw [addAll] at h
    cases hadd : b.add families index segment with
    | error fault => simp [hadd] at h
    | ok next =>
      simp only [hadd] at h
      exact ih (fun b b' index s hs => hstep b b' index s (List.mem_cons_of_mem segment hs))
        (hstep b next index segment List.mem_cons_self hb (add_eq_ok_iff.mp hadd)) h

/-- A row of segments is added piece by piece. -/
theorem addAll_append (families : List Family) (b : Building) (index : Nat) (x y : List Segment) :
    b.addAll families index (x ++ y) =
      match b.addAll families index x with
      | .ok c => c.addAll families (index + x.length) y
      | .error fault => .error fault := by
  induction x generalizing b index with
  | nil => rfl
  | cons segment rest ih =>
    rw [List.cons_append, addAll, addAll, List.length_cons]
    cases b.add families index segment with
    | error fault => rfl
    | ok c =>
      simp only [ih]
      rw [show index + 1 + rest.length = index + (rest.length + 1) by omega]

/-- Nodes are numbered from one on. -/
theorem one_le_next {segments : List Segment} (hb : 1 ≤ b.next)
    (h : b.addAll families index segments = .ok b') : 1 ≤ b'.next := by
  refine addAll_induction (P := fun b => 1 ≤ b.next) (fun b c index s _ hb hstep => ?_) hb h
  cases hstep with
  | text | verbatim | anonymous | opening => exact Nat.le_add_left 1 _
  | closing =>
    rw [closeTag]
    split
    · exact hb
    · rw [attach]
      split <;> exact hb

end Building

/-- A document is what has been built when no tag is open any more. -/
theorem Document.ofSegments_eq_ok_iff {families : List Family} {segments : List Segment}
    {document : Document} :
    ofSegments families segments = .ok document ↔
      ∃ b, Building.empty.addAll families 0 segments = .ok b ∧ b.stack = [] ∧
        document = ⟨b.top.reverse, segments⟩ := by
  rw [ofSegments]
  cases hall : Building.empty.addAll families 0 segments with
  | error fault => simp
  | ok b =>
    cases hstack : b.stack with
    | nil => simp [Building.finish, hstack, Except.map, eq_comm]
    | cons t outer => simp [Building.finish, hstack, Except.map]

end Stencil
