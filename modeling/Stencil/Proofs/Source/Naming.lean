import Mathlib.Data.List.Forall2
import Mathlib.Data.List.Nodup
import Stencil.Proofs.Source.Agreement

/-! # The name of a tag

In a family with names, what is between the delimiters is read by the longest name that stands at
its front, where a name has to end there: whitespace follows, or nothing (`Tag.Heads`).  A name
behind a slash makes a closing tag, and is looked for first; so a name that begins with a slash of
its own counts only where no name stands behind that slash (`Tag.Recognises`).

Names that stand at the front of one text differ in length.  So there is one longest name only, and
what a tag is read as does not depend on the order in which the names are declared
(`Family.Reorders`).
-/

namespace Stencil

namespace Tag

/-- A name stands at the front of a text and ends there. -/
def Heads (name t : Text) : Prop :=
  ∃ rest, t = name ++ rest ∧ ∀ c ∈ rest.head?, Text.isBlank c = true

/-- No declared name stands at the front of a text. -/
def NoneHeads (specs : List TagSpec) (t : Text) : Prop :=
  ∀ spec ∈ specs, ∀ name, spec.name = .text name → ¬ Heads name t

/-- Of the declared names that stand at the front of a text, this is the longest. -/
structure IsLongest (specs : List TagSpec) (t name : Text) (spec : TagSpec) : Prop where
  declared : spec ∈ specs
  named : spec.name = .text name
  heads : Heads name t
  longest : ∀ other ∈ specs, ∀ n, other.name = .text n → Heads n t → n.length ≤ name.length

/-- The pattern of the arguments of a name: its own, or else the one of the family. -/
def patternOf (family : Family) (spec : TagSpec) : Value :=
  match spec.arguments with
  | .null => family.arguments
  | pattern => pattern

/-- What a text between delimiters is read as, by the names of the family. -/
inductive Recognises (family : Family) (t : Text) : Except Fault (Option Tag) → Prop where
  /-- A name behind a slash makes a closing tag. -/
  | closing {u name : Text} {spec : TagSpec} (hslash : t = '/' :: u)
      (hname : IsLongest family.tags u name spec) :
      Recognises family t (.ok (some (.closing name family.key spec.isolated spec.verbatim)))
  /-- If there is none, a name at the front makes an opening tag; what follows it, without the
  whitespace before it, is its text, from which the arguments are taken. -/
  | opening {name rest : Text} {spec : TagSpec} {outcome : Except Fault (Option Tag)}
      (hslash : ∀ u, t = '/' :: u → NoneHeads family.tags u)
      (hname : IsLongest family.tags t name spec) (hrest : t = name ++ rest)
      (harguments : outcome = (extract (Text.trimStart rest) (patternOf family spec)).map
        fun arguments => some (.opening name family.key spec.isolated spec.verbatim
          (Text.trimStart rest) arguments)) :
      Recognises family t outcome
  /-- A text with no name at its front is no named tag. -/
  | nothing (hslash : ∀ u, t = '/' :: u → NoneHeads family.tags u)
      (hnone : NoneHeads family.tags t) : Recognises family t (.ok none)

variable {specs : List TagSpec} {names : List (Text × TagSpec)} {t name : Text} {spec : TagSpec}

/-! ## The longest name -/

theorem fits_iff : fits t name = true ↔ Heads name t := by
  rw [fits, Bool.and_eq_true, List.isPrefixOf_iff_prefix]
  constructor
  · rintro ⟨⟨rest, rfl⟩, hend⟩
    rw [List.drop_left] at hend
    refine ⟨rest, rfl, fun c hc => ?_⟩
    cases rest with
    | nil => cases hc
    | cons d rest => exact Option.some.inj hc ▸ hend
  · rintro ⟨rest, rfl, hend⟩
    refine ⟨List.prefix_append _ _, ?_⟩
    rw [List.drop_left]
    cases rest with
    | nil => rfl
    | cons c rest => exact hend c rfl

/-- A name that is a text is one of the names of its family. -/
theorem mem_names?_of_named (h : names? specs = some names) (hspec : spec ∈ specs)
    (hname : spec.name = .text name) : (name, spec) ∈ names := by
  induction specs generalizing names with
  | nil => exact absurd hspec List.not_mem_nil
  | cons first rest ih =>
    rw [names?] at h
    split at h
    · rename_i firstName more hfirst hmore
      obtain rfl := Option.some.inj h
      rcases List.mem_cons.mp hspec with rfl | hspec
      · obtain rfl : firstName = name := Value.text.inj (hfirst.symm.trans hname)
        exact List.mem_cons_self
      · exact List.mem_cons_of_mem _ (ih hmore hspec)
    · rename_i codes more hfirst hmore
      obtain rfl := Option.some.inj h
      rcases List.mem_cons.mp hspec with rfl | hspec
      · rw [hname] at hfirst
        cases hfirst
      · exact ih hmore hspec
    · cases h

/-- The longer one of the best name so far and the next. -/
def longer (best : Option (Text × TagSpec)) (entry : Text × TagSpec) : Option (Text × TagSpec) :=
  match best with
  | some b => if b.1.length < entry.1.length then some entry else some b
  | none => some entry

theorem longest?_eq_foldl (t : Text) (names : List (Text × TagSpec)) :
    longest? t names = (names.filter fun n => fits t n.1).foldl longer none := rfl

/-- What is left in the end is no shorter than the best name so far and all that come. -/
theorem exists_foldl_longer (candidates : List (Text × TagSpec)) (best : Option (Text × TagSpec))
    (entry : Text × TagSpec) (h : entry ∈ best ∨ entry ∈ candidates) :
    ∃ last, candidates.foldl longer best = some last ∧ entry.1.length ≤ last.1.length := by
  induction candidates generalizing best entry with
  | nil =>
    rcases h with h | h
    · exact ⟨entry, h, Nat.le_refl _⟩
    · exact absurd h List.not_mem_nil
  | cons next rest ih =>
    rw [List.foldl_cons]
    rcases h with h | h
    · obtain rfl : best = some entry := h
      rw [longer]
      split
      · rename_i hlt
        obtain ⟨last, hlast, hle⟩ := ih (some next) next (Or.inl rfl)
        exact ⟨last, hlast, Nat.le_trans (Nat.le_of_lt hlt) hle⟩
      · exact ih (some entry) entry (Or.inl rfl)
    · rcases List.mem_cons.mp h with rfl | h
      · -- the next name is kept, unless the best so far is no shorter
        cases best with
        | none => exact ih (some entry) entry (Or.inl rfl)
        | some b =>
          rw [longer]
          split
          · exact ih (some entry) entry (Or.inl rfl)
          · rename_i hle
            obtain ⟨last, hlast, hb⟩ := ih (some b) b (Or.inl rfl)
            exact ⟨last, hlast, Nat.le_trans (Nat.le_of_not_lt hle) hb⟩
      · exact ih _ entry (Or.inr h)

/-- A name that stands at the front of a text is no longer than the one that is found. -/
theorem exists_longest?_of_heads (h : names? specs = some names) (hspec : spec ∈ specs)
    (hname : spec.name = .text name) (hheads : Heads name t) :
    ∃ last, longest? t names = some last ∧ name.length ≤ last.1.length := by
  have hmem : (name, spec) ∈ names.filter fun n => fits t n.1 :=
    List.mem_filter.mpr ⟨mem_names?_of_named h hspec hname, fits_iff.mpr hheads⟩
  rw [longest?_eq_foldl]
  exact exists_foldl_longer _ none (name, spec) (Or.inr hmem)

theorem isLongest_of_longest? (h : names? specs = some names)
    (hlongest : longest? t names = some (name, spec)) : IsLongest specs t name spec := by
  obtain ⟨hmem, hfits⟩ := List.mem_filter.mp (mem_filter_of_longest? hlongest)
  obtain ⟨hspec, hname⟩ := mem_names? h hmem
  refine ⟨hspec, hname, fits_iff.mp hfits, fun other hother n hn hheads => ?_⟩
  obtain ⟨last, hlast, hle⟩ := exists_longest?_of_heads h hother hn hheads
  obtain rfl := Option.some.inj (hlast.symm.trans hlongest)
  exact hle

/-- Names that stand at the front of one text are told apart by their lengths. -/
theorem Heads.eq_of_length_eq {n m : Text} (hn : Heads n t) (hm : Heads m t)
    (h : n.length = m.length) : n = m := by
  obtain ⟨rest, hrest, -⟩ := hn
  obtain ⟨rest', hrest', -⟩ := hm
  exact (List.append_inj (hrest.symm.trans hrest') h).1

/-- **There is one longest name only.** -/
theorem IsLongest.unique (hdistinct : (specs.map TagSpec.name).Nodup) {name' : Text}
    {spec' : TagSpec} (h : IsLongest specs t name spec) (h' : IsLongest specs t name' spec') :
    name = name' ∧ spec = spec' := by
  have hlength : name.length = name'.length :=
    Nat.le_antisymm (h'.longest spec h.declared name h.named h.heads)
      (h.longest spec' h'.declared name' h'.named h'.heads)
  obtain rfl := h.heads.eq_of_length_eq h'.heads hlength
  exact ⟨rfl, List.inj_on_of_nodup_map hdistinct h.declared h'.declared
    (h.named.trans h'.named.symm)⟩

/-- The search for the longest name finds it. -/
theorem longest?_eq_some_iff (h : names? specs = some names)
    (hdistinct : (specs.map TagSpec.name).Nodup) :
    longest? t names = some (name, spec) ↔ IsLongest specs t name spec := by
  refine ⟨isLongest_of_longest? h, fun hlongest => ?_⟩
  obtain ⟨last, hlast, -⟩ :=
    exists_longest?_of_heads h hlongest.declared hlongest.named hlongest.heads
  obtain ⟨hname, hspec⟩ := hlongest.unique hdistinct (isLongest_of_longest? h hlast)
  rw [hlast, hname, hspec]

theorem longest?_eq_none_iff (h : names? specs = some names) :
    longest? t names = none ↔ NoneHeads specs t := by
  constructor
  · intro hnone spec hspec name hname hheads
    obtain ⟨last, hlast, -⟩ := exists_longest?_of_heads h hspec hname hheads
    rw [hnone] at hlast
    cases hlast
  · intro hnone
    cases hlongest : longest? t names with
    | none => rfl
    | some entry =>
      have hfound := isLongest_of_longest? h hlongest
      exact absurd hfound.heads (hnone _ hfound.declared _ hfound.named)

/-! ## Reading by name -/

theorem afterSlash?_eq_some_iff {u : Text} : afterSlash? t = some u ↔ t = '/' :: u := by
  constructor
  · intro h
    unfold afterSlash? at h
    split at h
    · rw [Option.some.inj h]
    · cases h
  · rintro rfl
    rfl

/-- No name is found behind a slash if no name stands there, or there is no slash. -/
theorem behindSlash_eq_none_iff (h : names? specs = some names) :
    (afterSlash? t).bind (longest? · names) = none ↔ ∀ u, t = '/' :: u → NoneHeads specs u := by
  rw [Option.bind_eq_none_iff]
  exact forall_congr' fun u => imp_congr afterSlash?_eq_some_iff (longest?_eq_none_iff h)

variable {family : Family} {outcome : Except Fault (Option Tag)}

/-- **Reading by name** is recognising the longest name, if the names are different texts. -/
theorem readNamed_eq_iff (h : names? family.tags = some names)
    (hdistinct : (family.tags.map TagSpec.name).Nodup) :
    readNamed family names t = outcome ↔ Recognises family t outcome := by
  constructor
  · rintro rfl
    rw [readNamed]
    split
    · rename_i name spec hfound
      obtain ⟨u, hslash, hlongest⟩ := Option.bind_eq_some_iff.mp hfound
      exact .closing (afterSlash?_eq_some_iff.mp hslash) (isLongest_of_longest? h hlongest)
    · rename_i hnone
      have hslash := (behindSlash_eq_none_iff h).mp hnone
      rw [readOpening]
      cases hlongest : longest? t names with
      | none => exact .nothing hslash ((longest?_eq_none_iff h).mp hlongest)
      | some entry =>
        have hname := isLongest_of_longest? h hlongest
        obtain ⟨rest, hrest, -⟩ := hname.heads
        have hdrop : t.drop entry.1.length = rest := by rw [hrest, List.drop_left]
        refine .opening hslash hname hrest ?_
        rw [← hdrop]
        rfl
  · intro hrecognises
    cases hrecognises with
    | @closing u name spec hslash hname =>
      have hfound : (afterSlash? t).bind (longest? · names) = some (name, spec) :=
        Option.bind_eq_some_iff.mpr ⟨u, afterSlash?_eq_some_iff.mpr hslash,
          (longest?_eq_some_iff h hdistinct).mpr hname⟩
      rw [readNamed, hfound]
    | @opening name rest spec _ hslash hname hrest harguments =>
      have hdrop : t.drop name.length = rest := by rw [hrest, List.drop_left]
      rw [readNamed, (behindSlash_eq_none_iff h).mpr hslash]
      simp only [readOpening, (longest?_eq_some_iff h hdistinct).mpr hname, hdrop]
      exact harguments.symm
    | nothing hslash hnone =>
      rw [readNamed, (behindSlash_eq_none_iff h).mpr hslash]
      simp only [readOpening, (longest?_eq_none_iff h).mpr hnone]

/-- What is between the delimiters is recognised without the whitespace around it. -/
theorem ofInner_eq_iff (hnames : family.hasNames = true)
    (htexts : ∀ spec ∈ family.tags, spec.name.IsText)
    (hdistinct : (family.tags.map TagSpec.name).Nodup) :
    ofInner family t = outcome ↔ Recognises family (Text.trim t) outcome := by
  obtain ⟨names, htable⟩ := exists_names? htexts
  rw [ofInner, if_pos hnames, htable]
  exact readNamed_eq_iff htable hdistinct

end Tag

/-! ## The order of the names -/

namespace Family

/-- Two families that differ at most in the order in which their names are declared. -/
inductive Reorders (family : Family) : Family → Prop where
  | intro {tags : List TagSpec} (h : family.tags.Perm tags) :
      Reorders family { family with tags := tags }

variable {families reordered : List Family}

/-- In what order names are declared does not matter to which family opens. -/
theorem opening?_reorders (h : List.Forall₂ Reorders families reordered) (t : Text) :
    Option.Rel Reorders (opening? families t) (opening? reordered t) := by
  induction h with
  | nil => exact .none
  | @cons family family' rest rest' hfamily hrest ih =>
    obtain ⟨hperm⟩ := hfamily
    rw [opening?, opening?, List.find?_cons, List.find?_cons]
    cases family.opener.isPrefixOf t with
    | true => exact .some ⟨hperm⟩
    | false => exact ih

theorem nextFrom?_reorders (h : List.Forall₂ Reorders families reordered) (n : Nat) (t : Text) :
    Option.Rel (fun a b => a.1 = b.1 ∧ Reorders a.2 b.2) (nextFrom? families n t)
      (nextFrom? reordered n t) := by
  induction t generalizing n with
  | nil => exact .none
  | cons c rest ih =>
    rw [nextFrom?, nextFrom?]
    have hopening := opening?_reorders h (c :: rest)
    generalize opening? families (c :: rest) = found at hopening
    generalize opening? reordered (c :: rest) = found' at hopening
    cases hopening with
    | none => exact ih (n + 1)
    | some hfamily => exact .some ⟨rfl, hfamily⟩

/-- The family that opens a tag opens it with its names in another order, too. -/
theorem exists_next?_reorders (h : List.Forall₂ Reorders families reordered) {raw : Text}
    {family : Family} (hnext : next? families raw = some (0, family)) :
    ∃ family', next? reordered raw = some (0, family') ∧ family.Reorders family' := by
  have hrel := nextFrom?_reorders h 0 raw
  rw [next?] at hnext
  rw [hnext] at hrel
  rw [next?]
  generalize nextFrom? reordered 0 raw = found at hrel
  cases hrel with
  | @some _ entry hentry =>
    obtain ⟨n, family'⟩ := entry
    obtain ⟨rfl, hfamily⟩ := hentry
    exact ⟨family', rfl, hfamily⟩

end Family

namespace Tag

variable {family family' : Family} {t name : Text} {spec : TagSpec}

theorem NoneHeads.of_perm {specs specs' : List TagSpec} (hperm : specs.Perm specs')
    (h : NoneHeads specs t) : NoneHeads specs' t :=
  fun spec hspec => h spec (hperm.mem_iff.mpr hspec)

theorem IsLongest.of_perm {specs specs' : List TagSpec} (hperm : specs.Perm specs')
    (h : IsLongest specs t name spec) : IsLongest specs' t name spec where
  declared := hperm.mem_iff.mp h.declared
  named := h.named
  heads := h.heads
  longest := fun other hother => h.longest other (hperm.mem_iff.mpr hother)

/-- What is recognised does not depend on the order of the names. -/
theorem Recognises.of_reorders (hfamily : family.Reorders family')
    {outcome : Except Fault (Option Tag)} (h : Recognises family t outcome) :
    Recognises family' t outcome := by
  obtain ⟨hperm⟩ := hfamily
  cases h with
  | closing hslash hname => exact .closing hslash (hname.of_perm hperm)
  | opening hslash hname hrest harguments =>
    exact .opening (fun u hu => (hslash u hu).of_perm hperm) (hname.of_perm hperm) hrest harguments
  | nothing hslash hnone =>
    exact .nothing (fun u hu => (hslash u hu).of_perm hperm) (hnone.of_perm hperm)

/-- A tag is read as the same, in whatever order the names of the families are declared. -/
theorem read_reorders {families reordered : List Family} {raw : Text}
    (h : List.Forall₂ Family.Reorders families reordered)
    (hnext : Family.next? families raw = some (0, family)) (hnames : family.hasNames = true)
    (htexts : ∀ spec ∈ family.tags, spec.name.IsText)
    (hdistinct : (family.tags.map TagSpec.name).Nodup) :
    read reordered raw = read families raw := by
  obtain ⟨family', hnext', hfamily⟩ := Family.exists_next?_reorders h hnext
  have hrecognises := (ofInner_eq_iff hnames htexts hdistinct).mp
    (Eq.refl (ofInner family (inner family raw)))
  rw [read_of_next? hnext, read_of_next? hnext']
  have hrecognises' := hrecognises.of_reorders hfamily
  obtain ⟨hperm⟩ := hfamily
  refine (ofInner_eq_iff ?_ ?_ ?_).mpr hrecognises'
  · simpa [Family.hasNames, hperm.isEmpty_eq] using hnames
  · exact fun spec hspec => htexts spec (hperm.mem_iff.mpr hspec)
  · exact (hperm.map TagSpec.name).nodup_iff.mp hdistinct

/-- **The longest name is read**, whatever names there are and in whatever order they are
declared.  For every tag of a family whose names are different texts: what it is read as is what is
recognised in the text between its delimiters, and nothing but a defect of an argument pattern can
keep it from being read. -/
theorem read_eq_iff_recognises {families : List Family} (hkeyed : Family.Keyed families)
    {family : Family} (hfamily : family ∈ families) (hnames : family.hasNames = true)
    (htexts : ∀ spec ∈ family.tags, spec.name.IsText)
    (hdistinct : (family.tags.map TagSpec.name).Nodup) {template : Text} {segments : List Segment}
    (hcut : Segment.cut families template = .ok segments) {s : Segment} (hs : s ∈ segments)
    (hkind : s.kind = .tag (some family.key)) :
    ∃ inner, s.raw = family.opener ++ inner ++ family.closer ∧
      (∀ outcome, read families s.raw = outcome ↔
        Recognises family (Text.trim inner) outcome) ∧
      (family.Typed → ∃ tag, read families s.raw = .ok tag) ∧
      ∀ reordered, List.Forall₂ Family.Reorders families reordered →
        read reordered s.raw = read families s.raw := by
  obtain ⟨front, hstands⟩ := (Segment.laid_of_cut hcut).2.stands hs
  obtain ⟨own, inner, hown, hkey, hraw, hnext⟩ := hstands.next?_raw hkind
  obtain rfl : family = own := by
    refine hkeyed.eq_of_sameKey hfamily hown ?_
    rw [Option.some.inj hkey]
    exact Value.sameKey_self (hkeyed.keys own hown)
  have hinner : Tag.inner family s.raw = inner := by
    rw [hraw]
    exact inner_of_delimited family inner
  refine ⟨inner, hraw, fun outcome => ?_, fun htyped => ?_, fun reordered h => ?_⟩
  · rw [read_of_next? hnext, hinner]
    exact ofInner_eq_iff hnames htexts hdistinct
  · rw [read_of_next? hnext]
    exact (exists_ofInner htyped _).1
  · exact read_reorders h hnext hnames htexts hdistinct

/-- A family of names that begin with one another, with a space inside and with a slash in front. -/
def loops : Family where
  key := Standard.word "loops"
  opener := ['[']
  closer := [']']
  tags := ["for", "/for", "for each"].map fun name => Standard.tag name name false .null false
  arguments := .null
  handler := .null
  priority := 0
  opener_ne_nil := List.cons_ne_nil _ _
  closer_ne_nil := List.cons_ne_nil _ _

theorem isLongest_loops :
    IsLongest loops.tags (Text.ofString "for each x") (Text.ofString "for each")
      (Standard.tag "for each" "for each" false .null false) where
  declared := List.mem_map.mpr ⟨_, by decide, rfl⟩
  named := rfl
  heads := ⟨[' ', 'x'], rfl, fun c hc => Option.some.inj hc ▸ rfl⟩
  longest := by
    intro other hother n hn _
    obtain ⟨name, hname, rfl⟩ := List.mem_map.mp hother
    obtain rfl : Text.ofString name = n := Value.text.inj hn
    have hall : ∀ name ∈ ["for", "/for", "for each"],
        (Text.ofString name).length ≤ (Text.ofString "for each").length := by
      decide
    exact hall name hname

/-- A slash and the longest of three names that all stand at the front, one of them with the
slash. -/
theorem read_eq_iff_recognises_loops :
    Family.Keyed [loops] ∧ loops ∈ [loops] ∧ loops.hasNames = true ∧
      (∀ spec ∈ loops.tags, spec.name.IsText) ∧ (loops.tags.map TagSpec.name).Nodup ∧
      Segment.cut [loops] (Text.ofString "[ /for each x ]y") =
        .ok [⟨.tag (some loops.key), Text.ofString "[ /for each x ]", .start⟩,
          ⟨.text, ['y'], ⟨15, 1, 16⟩⟩] ∧
      read [loops] (Text.ofString "[ /for each x ]") =
        .ok (some (.closing (Text.ofString "for each") loops.key false false)) ∧
      read [{ loops with tags := loops.tags.reverse }] (Text.ofString "[ /for each x ]") =
        .ok (some (.closing (Text.ofString "for each") loops.key false false)) := by
  have hkeyed : Family.Keyed [loops] :=
    ⟨fun f hf => List.mem_singleton.mp hf ▸ rfl, List.pairwise_singleton _ _⟩
  have htexts : ∀ spec ∈ loops.tags, spec.name.IsText := by
    intro spec hspec
    obtain ⟨name, -, rfl⟩ := List.mem_map.mp hspec
    exact .text _
  have hdistinct : (loops.tags.map TagSpec.name).Nodup := by
    simp [loops, Standard.tag, Standard.word, Text.ofString]
  have hcut : Segment.cut [loops] (Text.ofString "[ /for each x ]y") =
      .ok [⟨.tag (some loops.key), Text.ofString "[ /for each x ]", .start⟩,
        ⟨.text, ['y'], ⟨15, 1, 16⟩⟩] := by
    cbv
  obtain ⟨inner, hraw, hread, -, hreordered⟩ := read_eq_iff_recognises hkeyed
    List.mem_cons_self rfl htexts hdistinct hcut List.mem_cons_self rfl
  obtain rfl : inner = Text.ofString " /for each x " := by
    have hsplit : Text.ofString "[ /for each x ]" =
        ['['] ++ Text.ofString " /for each x " ++ [']'] := rfl
    exact List.append_cancel_left (List.append_cancel_right (hraw.symm.trans hsplit))
  have hclosing := (hread _).mpr (.closing rfl isLongest_loops)
  exact ⟨hkeyed, List.mem_cons_self, rfl, htexts, hdistinct, hcut, hclosing,
    (hreordered _ (.cons ⟨(List.reverse_perm _).symm⟩ .nil)).trans hclosing⟩

end Tag
end Stencil
