import Stencil.Proofs.Document.Reading

/-! # Balanced documents

The grammar of documents, over what the segments of a template are read as.  A document is a row of
items; an item is a text, a tag without name, or a tag with a name from its opening to its closing
tag: with items in between, or if it is verbatim with anything that does not close it (`Item`).  An
item holds what makes it one, so that there is no other way to write the grammar down, and a row of
readings is balanced if it is read off some row of items (`Balanced`).

Going through the readings from left to right there is never a choice: what has been passed is a row
of tags that are open, each behind the items before it, and what is inside the innermost one so far
(`Unfinished`), and the next reading either goes on with it in one way or in none (`push`).  So
`pushAll` finds what the readings are the beginning of (`pushAll_eq_some_iff`).  Hence no row of
readings is read off two rows of items (`Item.readingsAll_injective`), and those readings can be
completed that are pushed (`viable_iff`): a closing tag for each of the open ones does it.
-/

namespace Stencil

/-- An opening tag of a template. -/
structure Opening where
  segment : Segment
  name : Text
  family : Value
  isolated : Bool
  verbatim : Bool
  /-- What follows the name. -/
  raw : Text
  arguments : Arguments

namespace Opening

/-- What an opening tag is read as. -/
def reading (o : Opening) : Reading :=
  ⟨o.segment, some (.opening o.name o.family o.isolated o.verbatim o.raw o.arguments)⟩

theorem reading_injective {o p : Opening} (h : o.reading = p.reading) : o = p := by
  cases o
  cases p
  simpa [reading] using h

/-- Whether a reading is a closing tag of the same name and family. -/
def closedBy (o : Opening) (r : Reading) : Bool :=
  match r.tag with
  | some (.closing name family _ _) => name == o.name && Value.sameKey family o.family
  | _ => false

theorem eq_closing_of_closedBy {o : Opening} {r : Reading} (h : o.closedBy r = true) :
    ∃ name family isolated verbatim, r.tag = some (.closing name family isolated verbatim) := by
  rw [closedBy] at h
  split at h
  · rename_i name family isolated verbatim htag
    exact ⟨name, family, isolated, verbatim, htag⟩
  · cases h

/-- There is a closing tag for every opening tag of a family that has a key. -/
theorem exists_closedBy (o : Opening) (h : o.family.isKey = true) :
    ∃ r, o.closedBy r = true := by
  refine ⟨⟨o.segment, some (.closing o.name o.family o.isolated o.verbatim)⟩, ?_⟩
  simp [closedBy, Value.sameKey, h]

end Opening

/-- An item of a document, with all that makes it one. -/
inductive Item where
  | text (segment : Segment)
  /-- A tag without name. -/
  | anonymous (segment : Segment) (family : Value) (raw : Text) (arguments : Arguments)
  /-- A tag that holds items. -/
  | block (opening : Opening) (hplain : opening.verbatim = false) (inside : List Item)
      (closing : Reading) (hcloses : opening.closedBy closing = true)
  /-- A verbatim tag, up to the first reading that closes it. -/
  | verbatim (opening : Opening) (hverbatim : opening.verbatim = true) (inside : List Reading)
      (hinside : ∀ r ∈ inside, opening.closedBy r = false)
      (closing : Reading) (hcloses : opening.closedBy closing = true)

namespace Item

mutual

/-- What is read where an item stands. -/
def readings : Item → List Reading
  | .text segment => [⟨segment, none⟩]
  | .anonymous segment family raw arguments => [⟨segment, some (.anonymous family raw arguments)⟩]
  | .block opening _ inside closing _ => opening.reading :: (readingsAll inside ++ [closing])
  | .verbatim opening _ inside _ closing _ => opening.reading :: (inside ++ [closing])

/-- What is read where a row of items stands. -/
def readingsAll : List Item → List Reading
  | [] => []
  | item :: rest => readings item ++ readingsAll rest

end

theorem readingsAll_append (a b : List Item) :
    readingsAll (a ++ b) = readingsAll a ++ readingsAll b := by
  induction a with
  | nil => rfl
  | cons item rest ih => rw [List.cons_append, readingsAll, readingsAll, ih, List.append_assoc]

theorem readingsAll_concat (a : List Item) (item : Item) :
    readingsAll (a ++ [item]) = readingsAll a ++ item.readings := by
  rw [readingsAll_append, readingsAll, readingsAll, List.append_nil]

/-- What begins with a verbatim tag has its closing tag, and items after that. -/
theorem exists_of_verbatim {o : Opening} (ho : o.verbatim = true) {items : List Item}
    {later : List Reading} (h : readingsAll items = o.reading :: later) :
    ∃ inside closing rest, o.closedBy closing = true ∧
      later = inside ++ closing :: readingsAll rest := by
  cases items with
  | nil => cases h
  | cons item rest =>
    rw [readingsAll] at h
    cases item with
    | text segment => cases (List.cons.inj h).1
    | anonymous segment family raw arguments => cases (List.cons.inj h).1
    | block opening hplain inside closing hcloses =>
      rw [readings, List.cons_append] at h
      obtain rfl := Opening.reading_injective (List.cons.inj h).1
      exact absurd (hplain.symm.trans ho) Bool.false_ne_true
    | verbatim opening hverbatim inside hinside closing hcloses =>
      rw [readings, List.cons_append, List.append_assoc] at h
      obtain ⟨hreading, rfl⟩ := List.cons.inj h
      obtain rfl := Opening.reading_injective hreading
      exact ⟨inside, closing, rest, hcloses, rfl⟩

end Item

/-- Readings that a row of items has been read off from. -/
def Balanced (readings : List Reading) : Prop := ∃ items, Item.readingsAll items = readings

/-- Readings that can be continued so that they are balanced.  The continuation may be any readings
at all. -/
def Viable (readings : List Reading) : Prop := ∃ continuation, Balanced (readings ++ continuation)

/-- What can be continued could be so at any time before. -/
theorem Viable.of_append {a b : List Reading} (h : Viable (a ++ b)) : Viable a := by
  obtain ⟨continuation, hbalanced⟩ := h
  exact ⟨b ++ continuation, by rwa [← List.append_assoc]⟩

/-- A tag that is open, with the items before it in the same row. -/
structure Level where
  before : List Item
  opening : Opening

/-- What is read up to the innermost of several open tags; the innermost is the first. -/
def Level.readingsAll : List Level → List Reading
  | [] => []
  | l :: outer => readingsAll outer ++ (Item.readingsAll l.before ++ [l.opening.reading])

/-- The beginning of a document, up to some place in it. -/
inductive Unfinished where
  /-- In a row of items. -/
  | inRow (levels : List Level) (hplain : ∀ l ∈ levels, l.opening.verbatim = false)
      (done : List Item)
  /-- In a verbatim tag. -/
  | inVerbatim (innermost : Level) (hverbatim : innermost.opening.verbatim = true)
      (outer : List Level) (hplain : ∀ l ∈ outer, l.opening.verbatim = false)
      (inside : List Reading) (hinside : ∀ r ∈ inside, innermost.opening.closedBy r = false)

namespace Unfinished

/-- The open tags, the innermost first. -/
def levels : Unfinished → List Level
  | .inRow levels _ _ => levels
  | .inVerbatim innermost _ outer _ _ _ => innermost :: outer

/-- The innermost open tag. -/
def innermost? (u : Unfinished) : Option Opening := u.levels.head?.map Level.opening

/-- What is read behind the innermost open tag. -/
def latest : Unfinished → List Reading
  | .inRow _ _ done => Item.readingsAll done
  | .inVerbatim _ _ _ _ inside _ => inside

/-- What has been read. -/
def readings (u : Unfinished) : List Reading := Level.readingsAll u.levels ++ u.latest

/-- The beginning of every document. -/
def start : Unfinished := .inRow [] (fun _ h => absurd h List.not_mem_nil) []

/-- A tag is opened behind the items of a row. -/
def enter (levels : List Level) (hplain : ∀ l ∈ levels, l.opening.verbatim = false)
    (done : List Item) (o : Opening) : Unfinished :=
  if h : o.verbatim = true then
    .inVerbatim ⟨done, o⟩ h levels hplain [] fun _ hr => absurd hr List.not_mem_nil
  else
    .inRow (⟨done, o⟩ :: levels) (List.forall_mem_cons.mpr ⟨eq_false_of_ne_true h, hplain⟩) []

/-- The innermost open tag is closed, if the reading does that. -/
def leave (r : Reading) (done : List Item) : (levels : List Level) →
    (∀ l ∈ levels, l.opening.verbatim = false) → Option Unfinished
  | [], _ => none
  | l :: outer, hplain =>
    if h : l.opening.closedBy r = true then
      some (.inRow outer (fun m hm => hplain m (List.mem_cons_of_mem l hm))
        (l.before ++ [.block l.opening (hplain l List.mem_cons_self) done r h]))
    else none

/-- One more reading, if a document can go on with it. -/
def push (r : Reading) : Unfinished → Option Unfinished
  | .inRow levels hplain done =>
    match r.tag with
    | none => some (.inRow levels hplain (done ++ [.text r.segment]))
    | some (.anonymous family raw arguments) =>
      some (.inRow levels hplain (done ++ [.anonymous r.segment family raw arguments]))
    | some (.opening name family isolated verbatim raw arguments) =>
      some (enter levels hplain done
        ⟨r.segment, name, family, isolated, verbatim, raw, arguments⟩)
    | some (.closing _ _ _ _) => leave r done levels hplain
  | .inVerbatim innermost hverbatim outer hplain inside hinside =>
    if h : innermost.opening.closedBy r = true then
      some (.inRow outer hplain
        (innermost.before ++ [.verbatim innermost.opening hverbatim inside hinside r h]))
    else
      some (.inVerbatim innermost hverbatim outer hplain (inside ++ [r]) (by
        intro s hs
        rcases List.mem_append.mp hs with hs | hs
        · exact hinside s hs
        · exact List.mem_singleton.mp hs ▸ eq_false_of_ne_true h))

/-- Several more readings, if a document can go on with them. -/
def pushAll (u : Unfinished) (readings : List Reading) : Option Unfinished :=
  readings.foldlM (fun u r => u.push r) u

theorem pushAll_append (u : Unfinished) (a b : List Reading) :
    u.pushAll (a ++ b) = (u.pushAll a).bind fun v => v.pushAll b :=
  List.foldlM_append

theorem pushAll_concat (u : Unfinished) (a : List Reading) (r : Reading) :
    u.pushAll (a ++ [r]) = (u.pushAll a).bind (push r) := by
  rw [pushAll_append]
  exact Option.bind_congr fun v _ => Option.bind_fun_some (v.push r)

variable {u v : Unfinished} {r : Reading}

/-! ## Pushing says what has been read -/

theorem readings_enter (levels : List Level) (hplain : ∀ l ∈ levels, l.opening.verbatim = false)
    (done : List Item) (o : Opening) :
    (enter levels hplain done o).readings =
      Level.readingsAll levels ++ (Item.readingsAll done ++ [o.reading]) := by
  rw [enter]
  split <;> exact List.append_nil _

theorem readings_leave {levels : List Level} {hplain : ∀ l ∈ levels, l.opening.verbatim = false}
    {done : List Item} (h : leave r done levels hplain = some v) :
    v.readings = Level.readingsAll levels ++ Item.readingsAll done ++ [r] := by
  cases levels with
  | nil => cases h
  | cons l outer =>
    rw [leave] at h
    split at h
    · obtain rfl := Option.some.inj h
      simp only [readings, Unfinished.levels, latest, Item.readingsAll_concat, Item.readings,
        Level.readingsAll, List.append_assoc, List.cons_append, List.nil_append]
    · cases h

/-- Only what closes nothing cannot be pushed. -/
theorem closedBy_of_leave {levels : List Level} {hplain : ∀ l ∈ levels, l.opening.verbatim = false}
    {done : List Item} (h : leave r done levels hplain = none) :
    (levels.head?.any fun l => l.opening.closedBy r) = false := by
  cases levels with
  | nil => rfl
  | cons l outer =>
    rw [leave] at h
    split at h
    · cases h
    · rename_i hopen
      exact eq_false_of_ne_true hopen

/-- What is pushed has been read last. -/
theorem readings_push (h : u.push r = some v) : v.readings = u.readings ++ [r] := by
  obtain ⟨s, tag⟩ := r
  cases u with
  | inRow levels hplain done =>
    cases tag with
    | none =>
      obtain rfl := Option.some.inj h
      exact (congrArg _ (Item.readingsAll_concat done _)).trans (List.append_assoc _ _ _).symm
    | some tag =>
      cases tag with
      | anonymous family raw arguments =>
        obtain rfl := Option.some.inj h
        exact (congrArg _ (Item.readingsAll_concat done _)).trans (List.append_assoc _ _ _).symm
      | opening name family isolated verbatim raw arguments =>
        obtain rfl := Option.some.inj h
        rw [readings_enter, ← List.append_assoc]
        rfl
      | closing name family isolated verbatim => exact readings_leave h
  | inVerbatim innermost hverbatim outer hplain inside hinside =>
    rw [push] at h
    split at h
    · obtain rfl := Option.some.inj h
      simp only [readings, levels, latest, Item.readingsAll_concat, Item.readings,
        Level.readingsAll, List.append_assoc, List.cons_append, List.nil_append]
    · obtain rfl := Option.some.inj h
      exact (List.append_assoc _ _ _).symm

theorem readings_pushAll {readings : List Reading} (h : u.pushAll readings = some v) :
    v.readings = u.readings ++ readings := by
  induction readings generalizing u with
  | nil =>
    obtain rfl := Option.some.inj h
    exact (List.append_nil _).symm
  | cons r rest ih =>
    obtain ⟨next, hnext, hrest⟩ := Option.bind_eq_some_iff.mp h
    rw [ih hrest, readings_push hnext, List.append_assoc, List.singleton_append]

/-! ## Pushing what is read off items -/

theorem push_opening (levels : List Level) (hplain : ∀ l ∈ levels, l.opening.verbatim = false)
    (done : List Item) (o : Opening) :
    (inRow levels hplain done).push o.reading = some (enter levels hplain done o) := rfl

/-- Readings that do not close a verbatim tag are pushed into it. -/
theorem pushAll_inside {l : Level} (hverbatim : l.opening.verbatim = true) {outer : List Level}
    (hplain : ∀ l ∈ outer, l.opening.verbatim = false) {more : List Reading}
    (hmore : ∀ r ∈ more, l.opening.closedBy r = false) (inside : List Reading)
    (hinside : ∀ r ∈ inside, l.opening.closedBy r = false) :
    (inVerbatim l hverbatim outer hplain inside hinside).pushAll more =
      some (inVerbatim l hverbatim outer hplain (inside ++ more)
        (List.forall_mem_append.mpr ⟨hinside, hmore⟩)) := by
  induction more generalizing inside with
  | nil => simp [pushAll]
  | cons r rest ih =>
    obtain ⟨hr, hrest⟩ := List.forall_mem_cons.mp hmore
    have hpush : (inVerbatim l hverbatim outer hplain inside hinside).push r =
        some (inVerbatim l hverbatim outer hplain (inside ++ [r])
          (List.forall_mem_append.mpr ⟨hinside, fun s hs => List.mem_singleton.mp hs ▸ hr⟩)) := by
      rw [push, dif_neg (ne_true_of_eq_false hr)]
    rw [pushAll, List.foldlM_cons, hpush]
    refine (ih hrest _ _).trans ?_
    simp

mutual

/-- An item is pushed as a whole. -/
theorem pushAll_item (levels : List Level) (hplain : ∀ l ∈ levels, l.opening.verbatim = false)
    (done : List Item) : ∀ item : Item,
    (inRow levels hplain done).pushAll item.readings = some (inRow levels hplain (done ++ [item]))
  | .text segment => rfl
  | .anonymous segment family raw arguments => rfl
  | .block o ho inside closing hcloses => by
    have henter : enter levels hplain done o = .inRow (⟨done, o⟩ :: levels)
        (List.forall_mem_cons.mpr ⟨ho, hplain⟩) [] := by
      rw [enter, dif_neg (ne_true_of_eq_false ho)]
    rw [Item.readings, pushAll, List.foldlM_cons, push_opening, henter]
    refine (pushAll_concat _ _ _).trans ?_
    rw [pushAll_items _ _ _ inside, List.nil_append, Option.bind_some, push]
    -- only a closing tag closes
    obtain ⟨name, family, isolated, verbatim, htag⟩ := Opening.eq_closing_of_closedBy hcloses
    simp only [htag]
    exact dif_pos hcloses
  | .verbatim o ho inside hinside closing hcloses => by
    have henter : enter levels hplain done o = .inVerbatim ⟨done, o⟩ ho levels hplain []
        (fun _ hr => absurd hr List.not_mem_nil) := by
      rw [enter, dif_pos ho]
    rw [Item.readings, pushAll, List.foldlM_cons, push_opening, henter]
    refine (pushAll_concat _ _ _).trans ?_
    rw [pushAll_inside (l := ⟨done, o⟩) ho hplain hinside, Option.bind_some]
    exact dif_pos hcloses

/-- A row of items is pushed as a whole. -/
theorem pushAll_items (levels : List Level) (hplain : ∀ l ∈ levels, l.opening.verbatim = false)
    (done : List Item) : ∀ more : List Item,
    (inRow levels hplain done).pushAll (Item.readingsAll more) =
      some (inRow levels hplain (done ++ more))
  | [] => by
    rw [List.append_nil]
    rfl
  | item :: rest => by
    rw [Item.readingsAll, pushAll_append, pushAll_item levels hplain done item, Option.bind_some,
      pushAll_items levels hplain (done ++ [item]) rest, List.append_assoc, List.singleton_append]

end

/-- What has been read up to a tag in a row of items leads to this tag. -/
theorem pushAll_level {levels : List Level} (hplain : ∀ l ∈ levels, l.opening.verbatim = false)
    (h : start.pushAll (Level.readingsAll levels) = some (inRow levels hplain [])) (l : Level) :
    start.pushAll (Level.readingsAll (l :: levels)) =
      some (enter levels hplain l.before l.opening) := by
  rw [Level.readingsAll, pushAll_append, h, Option.bind_some, pushAll_concat, pushAll_items,
    Option.bind_some, push_opening, List.nil_append]

theorem pushAll_levels {levels : List Level} (hplain : ∀ l ∈ levels, l.opening.verbatim = false) :
    start.pushAll (Level.readingsAll levels) = some (inRow levels hplain []) := by
  induction levels with
  | nil => rfl
  | cons l outer ih =>
    obtain ⟨hl, houter⟩ := List.forall_mem_cons.mp hplain
    rw [pushAll_level houter (ih houter), enter, dif_neg (ne_true_of_eq_false hl)]

/-- The readings of a beginning lead to it. -/
theorem pushAll_readings (u : Unfinished) : start.pushAll u.readings = some u := by
  rw [readings, pushAll_append]
  cases u with
  | inRow levels hplain done =>
    rw [Unfinished.levels, pushAll_levels hplain, Option.bind_some, latest, pushAll_items,
      List.nil_append]
  | inVerbatim l hverbatim outer hplain inside hinside =>
    have hlevels := pushAll_level hplain (pushAll_levels hplain) l
    rw [enter, dif_pos hverbatim] at hlevels
    rw [levels, hlevels, Option.bind_some, latest, pushAll_inside hverbatim hplain hinside]
    rfl

/-- Readings that cannot all be pushed have a first one that cannot be. -/
theorem exists_push_eq_none {readings : List Reading} (h : u.pushAll readings = none) :
    ∃ before w r after, readings = before ++ r :: after ∧ u.pushAll before = some w ∧
      w.push r = none := by
  induction readings generalizing u with
  | nil => cases h
  | cons r rest ih =>
    cases hnext : u.push r with
    | none => exact ⟨[], u, r, rest, rfl, rfl, hnext⟩
    | some next =>
      have hrest : next.pushAll rest = none := by
        rw [pushAll, List.foldlM_cons, hnext] at h
        exact h
      obtain ⟨before, w, s, after, rfl, hbefore, hnone⟩ := ih hrest
      refine ⟨r :: before, w, s, after, rfl, ?_, hnone⟩
      rw [pushAll, List.foldlM_cons, hnext]
      exact hbefore

/-- **Pushing finds what readings are the beginning of**, if they are the beginning of a
document. -/
theorem pushAll_eq_some_iff {readings : List Reading} :
    start.pushAll readings = some u ↔ u.readings = readings := by
  constructor
  · intro h
    rw [readings_pushAll h]
    exact List.nil_append _
  · rintro rfl
    exact pushAll_readings u

/-- Readings are the beginning of a document in one way only. -/
theorem readings_injective (h : u.readings = v.readings) : u = v :=
  Option.some.inj ((pushAll_eq_some_iff.mpr h).symm.trans (pushAll_readings v))

end Unfinished

/-- **No readings are read off two rows of items.** -/
theorem Item.readingsAll_injective {a b : List Item} (h : readingsAll a = readingsAll b) :
    a = b := by
  have hnil : ∀ l ∈ ([] : List Level), l.opening.verbatim = false :=
    fun l hl => absurd hl List.not_mem_nil
  have heq := Unfinished.readings_injective (u := .inRow [] hnil a) (v := .inRow [] hnil b)
    (congrArg (Level.readingsAll [] ++ ·) h)
  exact (Unfinished.inRow.inj heq).2

/-! ## What can be completed -/

/-- An opening tag with a key of its family, or any other reading. -/
def Reading.Keyed (r : Reading) : Prop :=
  ∀ name family isolated verbatim raw arguments,
    r.tag = some (.opening name family isolated verbatim raw arguments) → family.isKey = true

theorem Level.reading_mem_readingsAll {levels : List Level} {l : Level} (h : l ∈ levels) :
    l.opening.reading ∈ readingsAll levels := by
  induction levels with
  | nil => exact absurd h List.not_mem_nil
  | cons m outer ih =>
    rw [readingsAll]
    rcases List.mem_cons.mp h with rfl | h
    · exact List.mem_append_right _ (List.mem_append_right _ List.mem_cons_self)
    · exact List.mem_append_left _ (ih h)

namespace Unfinished

/-- The families of the open tags have keys if all have that were read. -/
theorem isKey_of_keyed {u : Unfinished} (h : ∀ r ∈ u.readings, r.Keyed) {l : Level}
    (hl : l ∈ u.levels) : l.opening.family.isKey = true :=
  h _ (List.mem_append_left _ (Level.reading_mem_readingsAll hl)) _ _ _ _ _ _ rfl

/-- In a row of items, a closing tag for each open tag completes the document. -/
theorem viable_items {levels : List Level} (hplain : ∀ l ∈ levels, l.opening.verbatim = false)
    (hkey : ∀ l ∈ levels, l.opening.family.isKey = true) (done : List Item) :
    Viable (inRow levels hplain done).readings := by
  induction levels generalizing done with
  | nil => exact ⟨[], done, (List.append_nil _).symm⟩
  | cons l outer ih =>
    obtain ⟨hl, houter⟩ := List.forall_mem_cons.mp hkey
    obtain ⟨closing, hcloses⟩ := l.opening.exists_closedBy hl
    have hclosed := pushAll_item outer (List.forall_mem_cons.mp hplain).2 l.before
      (.block l.opening (hplain l List.mem_cons_self) done closing hcloses)
    have h := ih (List.forall_mem_cons.mp hplain).2 houter
      (l.before ++ [.block l.opening (hplain l List.mem_cons_self) done closing hcloses])
    rw [readings_pushAll hclosed] at h
    refine Viable.of_append (b := [closing]) ?_
    simpa only [readings, Unfinished.levels, latest, Level.readingsAll, Item.readings,
      List.append_assoc, List.cons_append, List.nil_append] using h

/-- The beginning of a document can be completed. -/
theorem viable {u : Unfinished} (hkey : ∀ l ∈ u.levels, l.opening.family.isKey = true) :
    Viable u.readings := by
  cases u with
  | inRow levels hplain done => exact viable_items hplain hkey done
  | inVerbatim l hverbatim outer hplain inside hinside =>
    obtain ⟨hl, houter⟩ := List.forall_mem_cons.mp hkey
    obtain ⟨closing, hcloses⟩ := l.opening.exists_closedBy hl
    have hpush : (inVerbatim l hverbatim outer hplain inside hinside).push closing = some _ :=
      dif_pos hcloses
    refine Viable.of_append (b := [closing]) ?_
    rw [← readings_push hpush]
    exact viable_items hplain houter _

end Unfinished

/-- **Those readings can be completed that are the beginning of a document.** -/
theorem viable_iff {readings : List Reading} (h : ∀ r ∈ readings, r.Keyed) :
    Viable readings ↔ ∃ u : Unfinished, u.readings = readings := by
  constructor
  · rintro ⟨continuation, items, hitems⟩
    have hpushed := Unfinished.pushAll_items [] (fun _ hl => absurd hl List.not_mem_nil) [] items
    rw [hitems] at hpushed
    obtain ⟨u, hu, -⟩ := Option.bind_eq_some_iff.mp
      ((Unfinished.pushAll_append _ _ _).symm.trans hpushed)
    exact ⟨u, Unfinished.pushAll_eq_some_iff.mp hu⟩
  · rintro ⟨u, rfl⟩
    exact u.viable fun l hl => Unfinished.isKey_of_keyed h hl

/-- A reading that a document cannot go on with makes it impossible to complete it. -/
theorem not_viable_of_push {u : Unfinished} {r : Reading} (h : u.push r = none) :
    ¬ Viable (u.readings ++ [r]) := by
  rintro ⟨continuation, items, hitems⟩
  have hpushed := Unfinished.pushAll_items [] (fun _ hl => absurd hl List.not_mem_nil) [] items
  rw [hitems] at hpushed
  have hnone : Unfinished.start.pushAll (u.readings ++ [r]) = none := by
    rw [Unfinished.pushAll_concat, Unfinished.pushAll_readings, Option.bind_some, h]
  have hsplit := (Unfinished.pushAll_append Unfinished.start _ continuation).symm.trans hpushed
  rw [hnone] at hsplit
  cases hsplit

end Stencil
