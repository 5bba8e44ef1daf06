import Stencil.Proofs.Document.Steps
import Stencil.Proofs.Grammar.Registration
import Stencil.Proofs.Source.Tokenization

/-! # What segments are read as

Building reads every tag: in its family, or else as a tag without name.  A `Reading` is a segment
with the tag that it is read as; a text is read as none.  In families that are well formed there is
no segment of a template that cannot be read (`Segment.exists_readAll`): what may be wrong with a
tag is a defect of the grammar, or of a segment that was not cut from a template.  The families tell
the parts of a tag apart as cutting did, so a tag without name is an opener, what is kept of it, and
a closer (`Segment.Stands.eq_of_anonymous`).
-/

namespace Stencil

namespace Tag

theorem exists_extract (t : Text) {pattern : Value} (h : pattern = .null ∨ pattern.IsText) :
    ∃ arguments, extract t pattern = .ok arguments := by
  unfold extract
  split
  · exact ⟨_, rfl⟩
  · rename_i htruthy
    rcases h with rfl | h
    · exact absurd rfl htruthy
    · cases h with
      | text p => exact ⟨_, rfl⟩
      | points codes => exact ⟨_, rfl⟩

theorem exists_names? {specs : List TagSpec} (h : ∀ spec ∈ specs, spec.name.IsText) :
    ∃ names, names? specs = some names := by
  induction specs with
  | nil => exact ⟨[], rfl⟩
  | cons spec rest ih =>
    obtain ⟨names, hnames⟩ := ih fun s hs => h s (List.mem_cons_of_mem spec hs)
    have hname := h spec List.mem_cons_self
    rw [names?, hnames]
    generalize spec.name = name at hname
    cases hname with
    | text t => exact ⟨_, rfl⟩
    | points codes => exact ⟨_, rfl⟩

variable {family : Family}

theorem exists_readAnonymousIn (h : family.Typed) (raw : Text) :
    ∃ arguments, readAnonymousIn family raw =
      .ok (.anonymous family.key (inner family raw) arguments) := by
  obtain ⟨arguments, harguments⟩ := exists_extract (inner family raw) h.pattern
  exact ⟨arguments, by rw [readAnonymousIn]; simp only [harguments, Except.map]⟩

theorem exists_readNamed (h : family.Typed) {names : List (Text × TagSpec)}
    (hnames : ∀ entry ∈ names, entry.2 ∈ family.tags) (t : Text) :
    ∃ tag, readNamed family names t = .ok tag := by
  rw [readNamed]
  split
  · exact ⟨_, rfl⟩
  · rw [readOpening]
    cases hlongest : longest? t names with
    | none => exact ⟨none, rfl⟩
    | some entry =>
      obtain ⟨name, spec⟩ := entry
      have hspec := hnames _ (mem_of_longest? hlongest)
      have hextract : ∀ (rest : Text) (pattern : Value), pattern = .null ∨ pattern.IsText →
          ∃ tag, ((extract rest pattern).map fun arguments =>
            some (Tag.opening name family.key spec.isolated spec.verbatim rest arguments)) =
              .ok tag := by
        intro rest pattern hpattern
        obtain ⟨arguments, harguments⟩ := exists_extract rest hpattern
        exact ⟨_, by rw [harguments]; rfl⟩
      -- the pattern is the one of the tag, or if it has none that of the family
      refine hextract _ _ ?_
      rcases h.patterns spec hspec with hnull | htext
      · rw [hnull]
        exact h.pattern
      · generalize spec.arguments = pattern at htext
        cases htext with
        | text t => exact Or.inr (.text t)
        | points codes => exact Or.inr (.points codes)

variable {families : List Family}

/-- A tag can be read in typed families. -/
theorem exists_read (h : ∀ family ∈ families, family.Typed) (raw : Text) :
    ∃ tag, read families raw = .ok tag := by
  rw [read]
  split
  · rename_i family hnext
    have htyped := h family (Family.next?_eq_some_iff.mp hnext).1.mem
    split
    · obtain ⟨names, hnames⟩ := exists_names? htyped.names
      rw [hnames]
      exact exists_readNamed htyped (fun entry he => (mem_names? hnames he).1) _
    · obtain ⟨arguments, harguments⟩ := exists_readAnonymousIn htyped raw
      exact ⟨_, by rw [harguments]; rfl⟩
  · exact ⟨none, rfl⟩

/-- What is between the delimiters of a tag is what was put there. -/
theorem inner_of_delimited (family : Family) (t : Text) :
    inner family (family.opener ++ t ++ family.closer) = t := by
  have hbefore : beforeCloser (family.opener ++ t ++ family.closer) family.closer =
      (family.opener ++ t).length := by
    have hlength : (family.opener ++ t ++ family.closer).length =
        (family.opener ++ t).length + family.closer.length := List.length_append
    rw [beforeCloser, hlength, if_pos (Nat.le_add_left _ _)]
    exact Nat.add_sub_cancel _ _
  rw [inner, hbefore, List.take_left, List.drop_left]

/-- A tag that opens a family and has the key of this family can be read as one without name. -/
theorem readAnonymous_of_next? (h : Family.Keyed families) {raw : Text}
    (hnext : Family.next? families raw = some (0, family)) :
    readAnonymous families (some family.key) raw = readAnonymousIn family raw := by
  have hmem := (Family.next?_eq_some_iff.mp hnext).1.mem
  have hkey := h.keys family hmem
  have hfound := h.withKey? hmem
  rw [readAnonymous]
  by_cases htruthy : family.key.truthy = true
  · rw [Option.filter_some, if_pos htruthy]
    simp only [hkey, hfound, Bool.not_true, Bool.false_eq_true, if_false]
  · rw [Option.filter_some, if_neg htruthy]
    simp only [hnext]

/-- Any tag that is read without name is one of the first family that opens in it, and what is kept
of it is what is between its delimiters. -/
theorem read_eq_anonymous {raw t : Text} {key : Value} {arguments : Arguments}
    (hnext : Family.next? families raw = some (0, family))
    (h : read families raw = .ok (some (.anonymous key t arguments))) :
    key = family.key ∧ t = inner family raw := by
  obtain ⟨own, hown, ⟨-, names, -, hnamed⟩ | ⟨-, _, -, htag⟩⟩ := read_eq_some h
  · -- what is read by name has one
    obtain ⟨_, _, _, -, -, htag⟩ | ⟨_, _, _, _, -, -, htag⟩ := readNamed_eq_some hnamed
    · cases htag
    · cases htag
  · obtain ⟨-, rfl⟩ := Prod.mk.inj (Option.some.inj (hown.symm.trans hnext))
    obtain ⟨hkey, ht, -⟩ := Tag.anonymous.inj htag
    exact ⟨hkey, ht⟩

end Tag

/-- A segment and the tag that it is read as; a text is read as none. -/
structure Reading where
  segment : Segment
  tag : Option Tag

namespace Segment

/-- What a segment is read as, outside verbatim tags. -/
def reading (families : List Family) (s : Segment) : Except Tag.Fault Reading :=
  match s.kind with
  | .text => .ok ⟨s, none⟩
  | .tag family =>
    match Tag.read families s.raw with
    | .error fault => .error fault
    | .ok (some tag) => .ok ⟨s, some tag⟩
    | .ok none => (Tag.readAnonymous families family s.raw).map fun tag => ⟨s, some tag⟩

/-- What a row of segments is read as. -/
def readAll (families : List Family) : List Segment → Except Tag.Fault (List Reading)
  | [] => .ok []
  | s :: rest =>
    match s.reading families with
    | .error fault => .error fault
    | .ok r => (readAll families rest).map (r :: ·)

variable {families : List Family} {s : Segment}

/-- The ways in which a segment is read. -/
inductive Reads (families : List Family) (s : Segment) : Reading → Prop
  | text (hkind : s.kind = .text) : Reads families s ⟨s, none⟩
  | tag {family : Option Value} {tag : Tag} (hkind : s.kind = .tag family)
      (hread : Tag.read families s.raw = .ok (some tag)) : Reads families s ⟨s, some tag⟩
  | anonymous {family : Option Value} {key : Value} {raw : Text} {arguments : Arguments}
      (hkind : s.kind = .tag family) (hread : Tag.read families s.raw = .ok none)
      (hanonymous : Tag.readAnonymous families family s.raw =
        .ok (.anonymous key raw arguments)) :
      Reads families s ⟨s, some (.anonymous key raw arguments)⟩

theorem reading_eq_ok_iff {r : Reading} :
    s.reading families = .ok r ↔ Reads families s r := by
  constructor
  · intro h
    rw [reading] at h
    cases hkind : s.kind with
    | text =>
      simp only [hkind] at h
      exact Except.ok.inj h ▸ .text hkind
    | tag family =>
      simp only [hkind] at h
      cases hread : Tag.read families s.raw with
      | error fault => simp [hread] at h
      | ok tag =>
        rw [hread] at h
        cases tag with
        | some tag => exact Except.ok.inj h ▸ .tag hkind hread
        | none =>
          cases hanonymous : Tag.readAnonymous families family s.raw with
          | error fault => simp [hanonymous, Except.map] at h
          | ok tag =>
            obtain ⟨f, arguments, rfl⟩ := Tag.readAnonymous_eq_ok hanonymous
            simp only [hanonymous, Except.map] at h
            exact Except.ok.inj h ▸ .anonymous hkind hread hanonymous
  · intro h
    rw [reading]
    cases h with
    | text hkind => rw [hkind]
    | tag hkind hread => rw [hkind, hread]
    | anonymous hkind hread hanonymous =>
      rw [hkind, hread]
      simp only [hanonymous, Except.map]

theorem Reads.segment_eq {r : Reading} (h : Reads families s r) : r.segment = s := by
  cases h <;> rfl

/-- The ways in which a tag is read. -/
theorem read_of_reads {r : Reading} {tag : Tag} (hread : Reads families r.segment r)
    (htag : r.tag = some tag) :
    ∃ family read, r.segment.kind = .tag family ∧ Tag.read families r.segment.raw = .ok read ∧
      (read = some tag ∨ read = none ∧
        Tag.readAnonymous families family r.segment.raw = .ok tag ∧
        ∃ key raw arguments, tag = .anonymous key raw arguments) := by
  obtain ⟨s, _⟩ := r
  obtain rfl : _ = some tag := htag
  cases hread with
  | tag hkind hread => exact ⟨_, _, hkind, hread, Or.inl rfl⟩
  | anonymous hkind hread hanonymous =>
    exact ⟨_, _, hkind, hread, Or.inr ⟨rfl, hanonymous, _, _, _, rfl⟩⟩

theorem readAll_cons_eq_ok {rest : List Segment} {readings : List Reading}
    (h : readAll families (s :: rest) = .ok readings) :
    ∃ r more, Reads families s r ∧ readAll families rest = .ok more ∧ readings = r :: more := by
  rw [readAll] at h
  cases hr : s.reading families with
  | error fault => simp [hr] at h
  | ok r =>
    cases hmore : readAll families rest with
    | error fault => simp [hr, hmore, Except.map] at h
    | ok more =>
      simp only [hr, hmore, Except.map, Except.ok.injEq] at h
      exact ⟨r, more, reading_eq_ok_iff.mp hr, rfl, h.symm⟩

/-- Reading leaves the segments as they are. -/
theorem map_segment_of_readAll {segments : List Segment} {readings : List Reading}
    (h : readAll families segments = .ok readings) : readings.map Reading.segment = segments := by
  induction segments generalizing readings with
  | nil => rw [← Except.ok.inj h, List.map_nil]
  | cons s rest ih =>
    obtain ⟨r, more, hr, hmore, rfl⟩ := readAll_cons_eq_ok h
    rw [List.map_cons, hr.segment_eq, ih hmore]

/-- Every reading is that of its segment. -/
theorem reads_of_mem_readAll {segments : List Segment} {readings : List Reading}
    (h : readAll families segments = .ok readings) {r : Reading} (hr : r ∈ readings) :
    r.segment ∈ segments ∧ Reads families r.segment r := by
  induction segments generalizing readings with
  | nil =>
    rw [← Except.ok.inj h] at hr
    exact absurd hr List.not_mem_nil
  | cons s rest ih =>
    obtain ⟨first, more, hfirst, hmore, rfl⟩ := readAll_cons_eq_ok h
    rcases List.mem_cons.mp hr with rfl | hr
    · have hs := hfirst.segment_eq
      exact ⟨hs ▸ List.mem_cons_self, hs.symm ▸ hfirst⟩
    · obtain ⟨hmem, hreads⟩ := ih hmore hr
      exact ⟨List.mem_cons_of_mem s hmem, hreads⟩

/-! ## Segments of a template -/

open Family Text

variable {source before : Text}

/-- The family that a tag was cut out for is the first to open in it. -/
theorem Stands.next?_raw (h : Stands families source before s) {key : Option Value}
    (hkind : s.kind = .tag key) :
    ∃ family inner, family ∈ families ∧ key = some family.key ∧
      s.raw = family.opener ++ inner ++ family.closer ∧
      next? families s.raw = some (0, family) := by
  obtain ⟨family, inner, hfirst, hkey, hraw, -⟩ := h.tag key hkind
  have hmem := hfirst.mem
  refine ⟨family, inner, hmem, hkey, hraw, next?_eq_some_iff.mpr ⟨?_, fun j hj => ?_⟩⟩
  · obtain ⟨earlier, later, hsplit, -, hearlier⟩ := hfirst
    refine ⟨earlier, later, hsplit, ?_, fun f hf hoccurs => hearlier f hf ?_⟩
    · rw [OccursAt, hraw, List.drop_zero, List.append_assoc]
      exact List.prefix_append _ _
    · -- what opens in the tag opens in the source where the tag stands
      rw [OccursAt, List.drop_zero] at hoccurs
      exact hoccurs.trans h.here
  · exact absurd hj (Nat.not_lt_zero j)

/-- A segment of a template can be read. -/
theorem Stands.exists_reads (hfamilies : WellFormed families)
    (h : Stands families source before s) : ∃ r, Reads families s r := by
  cases hkind : s.kind with
  | text => exact ⟨_, .text hkind⟩
  | tag key =>
    obtain ⟨family, inner, hmem, rfl, -, hnext⟩ := h.next?_raw hkind
    obtain ⟨tag, hread⟩ := Tag.exists_read hfamilies.typed s.raw
    cases tag with
    | some tag => exact ⟨_, .tag hkind hread⟩
    | none =>
      obtain ⟨arguments, harguments⟩ :=
        Tag.exists_readAnonymousIn (hfamilies.typed family hmem) s.raw
      exact ⟨_, .anonymous hkind hread
        ((Tag.readAnonymous_of_next? hfamilies.keyed hnext).trans harguments)⟩

/-- A tag of a template that is read without name is the opener of its family, what is kept of it,
and the closer. -/
theorem Stands.eq_of_anonymous (hfamilies : WellFormed families)
    (h : Stands families source before s) {key : Value} {raw : Text} {arguments : Arguments}
    (hread : Reads families s ⟨s, some (.anonymous key raw arguments)⟩) :
    ∃ family ∈ families, key = family.key ∧ s.raw = family.opener ++ raw ++ family.closer := by
  generalize hr : (⟨s, some (.anonymous key raw arguments)⟩ : Reading) = r at hread
  cases hread with
  | text hkind => cases hr
  | tag hkind hread =>
    obtain ⟨family, inner, hmem, -, hraw, hnext⟩ := h.next?_raw hkind
    obtain rfl := Option.some.inj (Reading.mk.inj hr).2
    obtain ⟨rfl, hinner⟩ := Tag.read_eq_anonymous hnext hread
    rw [hraw, Tag.inner_of_delimited] at hinner
    exact ⟨family, hmem, rfl, by rw [hraw, hinner]⟩
  | anonymous hkind hread hanonymous =>
    obtain ⟨family, inner, hmem, rfl, hraw, hnext⟩ := h.next?_raw hkind
    obtain ⟨rfl, rfl, rfl⟩ := Tag.anonymous.inj (Option.some.inj (Reading.mk.inj hr).2)
    rw [Tag.readAnonymous_of_next? hfamilies.keyed hnext] at hanonymous
    obtain ⟨own, htag⟩ := Tag.readAnonymousIn_eq_ok hanonymous
    obtain ⟨rfl, hinner, -⟩ := Tag.anonymous.inj htag
    rw [hraw, Tag.inner_of_delimited] at hinner
    exact ⟨family, hmem, rfl, by rw [hraw, hinner]⟩

/-- Each segment of a layout stands somewhere. -/
theorem Laid.stands {segments : List Segment} (h : Laid families source before segments)
    (hs : s ∈ segments) : ∃ front, Stands families source front s := by
  induction segments generalizing before with
  | nil => exact absurd hs List.not_mem_nil
  | cons t rest ih =>
    rcases List.mem_cons.mp hs with rfl | hs
    · exact ⟨before, h.1⟩
    · exact ih h.2.2 hs

/-- The segments of a template are laid out in it. -/
theorem laid_of_cut {segments : List Segment} (hcut : cut families source = .ok segments) :
    joined segments = source ∧ Laid families source [] segments := by
  have h := describes_cut families source
  rw [hcut] at h
  exact h

/-- **The segments of a template can be read.** -/
theorem exists_readAll (hfamilies : WellFormed families) {segments : List Segment}
    (hcut : cut families source = .ok segments) :
    ∃ readings, readAll families segments = .ok readings := by
  have hstands : ∀ s ∈ segments, ∃ front, Stands families source front s :=
    fun s hs => (laid_of_cut hcut).2.stands hs
  clear hcut
  induction segments with
  | nil => exact ⟨[], rfl⟩
  | cons s rest ih =>
    obtain ⟨front, hfront⟩ := hstands s List.mem_cons_self
    obtain ⟨r, hr⟩ := hfront.exists_reads hfamilies
    obtain ⟨more, hmore⟩ := ih fun t ht => hstands t (List.mem_cons_of_mem s ht)
    refine ⟨r :: more, ?_⟩
    rw [readAll, reading_eq_ok_iff.mpr hr]
    simp only [hmore, Except.map]

end Segment
end Stencil
