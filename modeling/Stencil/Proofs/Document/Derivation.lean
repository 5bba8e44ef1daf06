import Mathlib
import Stencil.Proofs.Document.Balance
import Stencil.Proofs.Standard.Grammar

/-! # Building is parsing

Building accepts exactly the balanced documents, and nests nodes as their items are nested.  Every
row of items has its nodes, numbered from left to right (`Item.nodes`), and every beginning of a
document has its document under construction (`Unfinished.building`).  One segment more takes one to
the other just when its reading can be pushed (`add_of_push`, `add_of_push_eq_none`), so a whole
template does (`addAll_of_pushAll`).  `Document.Follows` says of an outcome of building that it is
what the grammar asks for, with the place of the fault where there is one, and `ofSegments_eq_iff`
that it is the outcome.
-/

namespace Stencil

/-! ## The nodes of a document -/

/-- A node, in front of an isolated tag or of anything else: whitespace is detached there. -/
def Node.infront (isolated : Bool) : Node → Node
  | .text id t position attached =>
    .text id t position (attached && !(isolated && Text.allBlank t))
  | .tag id head closing children => .tag id head closing children

@[simp] theorem Node.infront_false (n : Node) : n.infront false = n := by
  cases n <;> simp [infront]

/-- What an opening tag says about itself. -/
def Opening.head (o : Opening) (index : Nat) : TagHead :=
  ⟨some o.name, o.family, o.arguments, o.raw, index, o.segment.position⟩

/-- The nodes of segments that are taken for texts. -/
def Reading.texts (id : Nat) : List Reading → List Node
  | [] => []
  | r :: rest => .text id r.segment.raw r.segment.position true :: texts (id + 1) rest

theorem Reading.texts_concat (id : Nat) (a : List Reading) (r : Reading) :
    texts id (a ++ [r]) =
      texts id a ++ [.text (id + a.length) r.segment.raw r.segment.position true] := by
  induction a generalizing id with
  | nil => rfl
  | cons s rest ih =>
    rw [List.cons_append, texts, texts, ih, List.length_cons, List.cons_append,
      show id + 1 + rest.length = id + (rest.length + 1) by omega]

namespace Item

/-- Whether an item begins with an isolated tag. -/
def isolated : Item → Bool
  | .text _ => false
  | .anonymous _ _ _ _ => false
  | .block opening _ _ _ _ => opening.isolated
  | .verbatim opening _ _ _ _ _ => opening.isolated

/-- Whether an isolated tag follows, where a row begins. -/
def follows (isolated : Bool) : List Item → Bool
  | [] => isolated
  | item :: _ => item.isolated

mutual

/-- How many nodes an item becomes. -/
def count : Item → Nat
  | .text _ => 1
  | .anonymous _ _ _ _ => 1
  | .block _ _ inside _ _ => countAll inside + 1
  | .verbatim _ _ inside _ _ _ => inside.length + 1

/-- How many nodes a row of items becomes. -/
def countAll : List Item → Nat
  | [] => 0
  | item :: rest => count item + countAll rest

end

mutual

/-- The node that an item becomes, given its number and the index of its first segment. -/
def node (id index : Nat) : Item → Node
  | .text segment => .text id segment.raw segment.position true
  | .anonymous segment family raw arguments =>
    .tag id ⟨none, family, arguments, raw, index, segment.position⟩ none []
  | .block opening _ inside _ _ =>
    .tag id (opening.head index) (some (index + 1 + (readingsAll inside).length))
      (nodes (id + 1) (index + 1) false inside)
  | .verbatim opening _ inside _ _ _ =>
    .tag id (opening.head index) (some (index + 1 + inside.length)) (Reading.texts (id + 1) inside)

/-- The nodes that a row of items becomes, where an isolated tag follows or something else. -/
def nodes (id index : Nat) (isolated : Bool) : List Item → List Node
  | [] => []
  | item :: rest =>
    (node id index item).infront (follows isolated rest) ::
      nodes (id + item.count) (index + item.readings.length) isolated rest

end

theorem countAll_append (a b : List Item) : countAll (a ++ b) = countAll a + countAll b := by
  induction a with
  | nil => rw [List.nil_append, countAll, Nat.zero_add]
  | cons item rest ih => rw [List.cons_append, countAll, countAll, ih, Nat.add_assoc]

theorem countAll_concat (a : List Item) (item : Item) :
    countAll (a ++ [item]) = countAll a + item.count := by
  rw [countAll_append, countAll, countAll, Nat.add_zero]

/-- The nodes of two rows, one after the other. -/
theorem nodes_append (id index : Nat) (isolated : Bool) (a b : List Item) :
    nodes id index isolated (a ++ b) =
      nodes id index (follows isolated b) a ++
        nodes (id + countAll a) (index + (readingsAll a).length) isolated b := by
  induction a generalizing id index with
  | nil => rfl
  | cons item rest ih =>
    have hfollows : follows isolated (rest ++ b) = follows (follows isolated b) rest := by
      cases rest <;> rfl
    rw [List.cons_append, nodes, nodes, ih, hfollows, countAll, readingsAll, List.length_append,
      List.cons_append, Nat.add_assoc, Nat.add_assoc]

theorem nodes_concat (id index : Nat) (isolated : Bool) (a : List Item) (item : Item) :
    nodes id index isolated (a ++ [item]) =
      nodes id index item.isolated a ++
        [(item.node (id + countAll a) (index + (readingsAll a).length)).infront isolated] := by
  rw [nodes_append]
  rfl

end Item

/-! ## The document under construction -/

namespace Level

/-- The number of the first node inside the innermost of several open tags. -/
def next : List Level → Nat
  | [] => 1
  | l :: outer => next outer + Item.countAll l.before + 1

/-- The nodes in front of a tag that is open. -/
def row (outer : List Level) (l : Level) : List Node :=
  Item.nodes (next outer) (readingsAll outer).length l.opening.isolated l.before

/-- The index of an open tag among the segments. -/
def index (outer : List Level) (l : Level) : Nat :=
  (readingsAll outer).length + (Item.readingsAll l.before).length

theorem length_readingsAll_cons (l : Level) (outer : List Level) :
    (readingsAll (l :: outer)).length = l.index outer + 1 := by
  rw [readingsAll, index, List.length_append, List.length_append, List.length_singleton,
    Nat.add_assoc]

/-- A tag that is open, with the nodes inside. -/
def openTag (outer : List Level) (l : Level) (inside : List Node) : OpenTag where
  id := next outer + Item.countAll l.before
  name := l.opening.name
  head := l.opening.head (l.index outer)
  verbatim := l.opening.verbatim
  children := inside.reverse

/-- The tags that are open, given the nodes inside the innermost. -/
def stack : List Level → List Node → List OpenTag
  | [], _ => []
  | l :: outer, inside => l.openTag outer inside :: stack outer (l.row outer)

/-- The nodes outside all open tags, given the nodes inside the innermost. -/
def top : List Level → List Node → List Node
  | [], inside => inside.reverse
  | l :: outer, _ => top outer (l.row outer)

/-- The document under construction in which tags are open, given the number of the next node and
the nodes inside the innermost tag. -/
def building (id : Nat) (levels : List Level) (inside : List Node) : Building :=
  ⟨id, stack levels inside, top levels inside⟩

variable (id : Nat) (levels : List Level) (inside : List Node)

theorem building_addText (t : Text) (position : Position) :
    (building id levels inside).addText t position =
      building (id + 1) levels (inside ++ [.text id t position true]) := by
  cases levels <;>
    simp [building, Building.addText, Building.attach, stack, top, openTag]

theorem building_addAnonymous (head : TagHead) :
    (building id levels inside).addAnonymous head =
      building (id + 1) levels (inside ++ [.tag id head none []]) := by
  cases levels <;>
    simp [building, Building.addAnonymous, Building.attach, stack, top, openTag]

/-- Of the nodes inside the innermost tag, the last is detached if it is whitespace. -/
theorem building_isolate {row row' : List Node}
    (h : Building.detachBlank row.reverse = row'.reverse) :
    (building id levels row).isolate = building id levels row' := by
  cases levels <;> simp [building, Building.isolate, stack, top, openTag, h]

/-- A closed tag is one more node inside the tag around it. -/
theorem building_closeTag (l : Level) (outer : List Level) (index : Nat) :
    (building id (l :: outer) inside).closeTag index =
      building id outer (l.row outer ++
        [.tag (l.openTag outer inside).id (l.openTag outer inside).head (some index) inside]) := by
  cases outer <;>
    simp [building, Building.closeTag, Building.attach, stack, top, openTag]

theorem insideVerbatim_building :
    (building id levels inside).insideVerbatim =
      levels.head?.any fun l => l.opening.verbatim := by
  cases levels <;> rfl

theorem innermostName?_building :
    (building id levels inside).innermostName? = levels.head?.map fun l => l.opening.name := by
  cases levels <;> rfl

/-- The innermost tag is closed by what is read as its closing tag. -/
theorem closesInnermost_building {r : Reading} {name : Text} {key : Value}
    {isolated verbatim : Bool} (htag : r.tag = some (.closing name key isolated verbatim)) :
    (building id levels inside).closesInnermost name key =
      levels.head?.any fun l => l.opening.closedBy r := by
  cases levels with
  | nil => rfl
  | cons l outer =>
    simp only [building, Building.closesInnermost, stack, List.head?_cons, Option.any_some,
      Opening.closedBy, htag]
    rfl

end Level

/-- An isolated tag that follows detaches the last node if it is whitespace. -/
theorem Item.detachBlank_nodes (id index : Nat) (items : List Item) :
    Building.detachBlank (nodes id index false items).reverse =
      (nodes id index true items).reverse := by
  rcases List.eq_nil_or_concat items with rfl | ⟨before, last, rfl⟩
  · rfl
  · rw [List.concat_eq_append, nodes_concat, nodes_concat, List.reverse_append,
      List.reverse_append, Node.infront_false]
    cases last.node _ _ with
    | text => simp [Building.detachBlank, Node.infront]
    | tag => simp [Building.detachBlank, Node.infront]

namespace Unfinished

/-- The nodes inside the innermost open tag. -/
def row : Unfinished → List Node
  | .inRow levels _ done =>
    Item.nodes (Level.next levels) (Level.readingsAll levels).length false done
  | .inVerbatim innermost _ outer _ inside _ =>
    Reading.texts (Level.next (innermost :: outer)) inside

/-- The number of the next node. -/
def next (u : Unfinished) : Nat :=
  Level.next u.levels +
    match u with
    | .inRow _ _ done => Item.countAll done
    | .inVerbatim _ _ _ _ inside _ => inside.length

/-- The document that is under construction at the beginning of a document. -/
def building (u : Unfinished) : Building := Level.building u.next u.levels u.row

variable {families : List Family} {u v : Unfinished} {r : Reading}

/-- An item more is a node more, in front of which whitespace may be detached. -/
theorem building_concat (levels : List Level)
    (hplain : ∀ l ∈ levels, l.opening.verbatim = false) (done : List Item) (item : Item) :
    (inRow levels hplain (done ++ [item])).building =
      Level.building (Level.next levels + (Item.countAll done + item.count)) levels
        (Item.nodes (Level.next levels) (Level.readingsAll levels).length item.isolated done ++
          [item.node (Level.next levels + Item.countAll done)
            ((Level.readingsAll levels).length + (Item.readingsAll done).length)]) := by
  rw [building, row, next, Item.nodes_concat, Node.infront_false]
  rw [Item.countAll_concat]
  rfl

/-- Adding a text is going on behind it. -/
theorem addText_building (levels : List Level)
    (hplain : ∀ l ∈ levels, l.opening.verbatim = false) (done : List Item) (s : Segment) :
    (inRow levels hplain done).building.addText s.raw s.position =
      (inRow levels hplain (done ++ [.text s])).building := by
  rw [building_concat, building, Level.building_addText]
  rfl

/-- Adding a tag without name is going on behind it. -/
theorem addAnonymous_building (levels : List Level)
    (hplain : ∀ l ∈ levels, l.opening.verbatim = false) (done : List Item) (s : Segment)
    (key : Value) (raw : Text) (arguments : Arguments) :
    (inRow levels hplain done).building.addAnonymous
        ⟨none, key, arguments, raw, (inRow levels hplain done).readings.length, s.position⟩ =
      (inRow levels hplain (done ++ [.anonymous s key raw arguments])).building := by
  rw [building_concat, building, Level.building_addAnonymous, readings, List.length_append]
  rfl

theorem building_enter (levels : List Level)
    (hplain : ∀ l ∈ levels, l.opening.verbatim = false) (done : List Item) (o : Opening) :
    (enter levels hplain done o).building =
      Level.building (Level.next levels + Item.countAll done + 1) (⟨done, o⟩ :: levels) [] := by
  rw [enter]
  split <;> rfl

/-- Opening a tag is going on inside it. -/
theorem openTag_building (levels : List Level)
    (hplain : ∀ l ∈ levels, l.opening.verbatim = false) (done : List Item) (o : Opening) :
    (if o.isolated then (inRow levels hplain done).building.isolate
      else (inRow levels hplain done).building).openTag o.name
        (o.head (inRow levels hplain done).readings.length) o.verbatim =
      (enter levels hplain done o).building := by
  -- the items in front of the tag become the nodes that are there now
  have hrow : (if o.isolated then (inRow levels hplain done).building.isolate
      else (inRow levels hplain done).building) =
        Level.building (Level.next levels + Item.countAll done) levels
          (Level.row levels ⟨done, o⟩) := by
    rw [Level.row]
    cases o.isolated with
    | true =>
      rw [if_pos rfl]
      exact Level.building_isolate _ _ (Item.detachBlank_nodes _ _ done)
    | false => rfl
  rw [hrow, building_enter, readings, List.length_append]
  rfl

/-- Closing the innermost tag puts it behind the nodes in front of it. -/
theorem closeTag_building {l : Level} {outer : List Level} (h : u.levels = l :: outer) :
    u.building.closeTag u.readings.length =
      Level.building u.next outer (l.row outer ++
        [.tag (Level.next outer + Item.countAll l.before) (l.opening.head (l.index outer))
          (some (l.index outer + 1 + u.latest.length)) u.row]) := by
  rw [building, h, Level.building_closeTag, readings, h, List.length_append,
    Level.length_readingsAll_cons]
  rfl

/-- Closing the innermost tag of a row of items is going on behind the block. -/
theorem closeTag_building_block {l : Level} {outer : List Level}
    (hplain : ∀ m ∈ l :: outer, m.opening.verbatim = false) (done : List Item)
    (hcloses : l.opening.closedBy r = true) :
    (inRow (l :: outer) hplain done).building.closeTag
        (inRow (l :: outer) hplain done).readings.length =
      (inRow outer (fun m hm => hplain m (List.mem_cons_of_mem l hm))
        (l.before ++
          [.block l.opening (hplain l List.mem_cons_self) done r hcloses])).building := by
  have hnext : next (inRow (l :: outer) hplain done) =
      Level.next outer + (Item.countAll l.before + (Item.countAll done + 1)) := by
    change Level.next outer + Item.countAll l.before + 1 + Item.countAll done = _
    omega
  rw [closeTag_building rfl, hnext, building_concat, row, Level.length_readingsAll_cons]
  rfl

/-- Closing a verbatim tag is going on behind it. -/
theorem closeTag_building_verbatim {l : Level} (hverbatim : l.opening.verbatim = true)
    {outer : List Level} (hplain : ∀ m ∈ outer, m.opening.verbatim = false)
    {inside : List Reading} (hinside : ∀ r ∈ inside, l.opening.closedBy r = false)
    (hcloses : l.opening.closedBy r = true) :
    (inVerbatim l hverbatim outer hplain inside hinside).building.closeTag
        (inVerbatim l hverbatim outer hplain inside hinside).readings.length =
      (inRow outer hplain
        (l.before ++ [.verbatim l.opening hverbatim inside hinside r hcloses])).building := by
  have hnext : next (inVerbatim l hverbatim outer hplain inside hinside) =
      Level.next outer + (Item.countAll l.before + (inside.length + 1)) := by
    change Level.next outer + Item.countAll l.before + 1 + inside.length = _
    omega
  rw [closeTag_building rfl, hnext, building_concat]
  rfl

/-! ## One segment more -/

open Segment (Reads)

/-- Anything that does not close a verbatim tag is added to it as a text. -/
theorem add_inside {l : Level} (hverbatim : l.opening.verbatim = true) (outer : List Level)
    (hread : Reads families r.segment r) (hopen : l.opening.closedBy r = false) (id index : Nat)
    (row : List Node) :
    (Level.building id (l :: outer) row).add families index r.segment =
      .ok (Level.building (id + 1) (l :: outer)
        (row ++ [.text id r.segment.raw r.segment.position true])) := by
  rw [← Level.building_addText, Building.add_eq_ok_iff]
  cases htag : r.tag with
  | none =>
    have hkind : r.segment.kind = .text := by
      obtain ⟨s, _⟩ := r
      obtain rfl : _ = none := htag
      cases hread with
      | text hkind => exact hkind
    exact .text hkind
  | some tag =>
    obtain ⟨family, read, hkind, hread, hsame⟩ := Segment.read_of_reads hread htag
    refine .verbatim hkind hread (fun name key isolated verbatim hclosing => ?_) ?_
    · rcases hsame with rfl | ⟨rfl, -⟩
      · rw [Level.closesInnermost_building _ _ _ (htag.trans hclosing)]
        exact hopen
      · cases hclosing
    · rw [Level.insideVerbatim_building]
      exact hverbatim

/-- What closes the innermost tag is added by closing it. -/
theorem add_closing {id : Nat} {l : Level} {outer : List Level} {row : List Node}
    (hread : Reads families r.segment r) (hcloses : l.opening.closedBy r = true) (index : Nat) :
    (Level.building id (l :: outer) row).add families index r.segment =
      .ok ((Level.building id (l :: outer) row).closeTag index) := by
  obtain ⟨name, key, isolated, verbatim, htag⟩ := Opening.eq_closing_of_closedBy hcloses
  obtain ⟨family, read, hkind, hread, rfl | ⟨-, -, key', raw, arguments, heq⟩⟩ :=
    Segment.read_of_reads hread htag
  · refine Building.add_eq_ok_iff.mpr (.closing hkind hread ?_)
    rw [Level.closesInnermost_building _ _ _ htag]
    exact hcloses
  · cases heq

theorem insideVerbatim_inRow (levels : List Level)
    (hplain : ∀ l ∈ levels, l.opening.verbatim = false) (done : List Item) :
    (inRow levels hplain done).building.insideVerbatim = false := by
  rw [building, Level.insideVerbatim_building]
  cases levels with
  | nil => rfl
  | cons l outer => exact hplain l List.mem_cons_self

/-- In a row of items anything but a closing tag is added as an item, or opened. -/
theorem add_item (hread : Reads families r.segment r) {levels : List Level}
    (hplain : ∀ l ∈ levels, l.opening.verbatim = false) {done : List Item}
    (hpush : (inRow levels hplain done).push r = some v)
    (hopen : ∀ name key isolated verbatim, r.tag ≠ some (.closing name key isolated verbatim)) :
    (inRow levels hplain done).building.add families (inRow levels hplain done).readings.length
      r.segment = .ok v.building := by
  have hinside := insideVerbatim_inRow levels hplain done
  obtain ⟨s, tag⟩ := r
  rw [Building.add_eq_ok_iff]
  cases tag with
  | none =>
    obtain rfl := Option.some.inj hpush
    have hkind : s.kind = .text := by
      cases hread with
      | text hkind => exact hkind
    rw [← addText_building levels hplain done s]
    exact .text hkind
  | some tag =>
    obtain ⟨family, read, hkind, hread, hsame⟩ := Segment.read_of_reads hread rfl
    cases tag with
    | anonymous key raw arguments =>
      obtain rfl := Option.some.inj hpush
      rw [← addAnonymous_building levels hplain done s key raw arguments]
      refine .anonymous hkind ?_ hinside
      rcases hsame with rfl | ⟨rfl, hanonymous, -⟩
      · exact Or.inl hread
      · exact Or.inr ⟨hread, hanonymous⟩
    | opening name key isolated verbatim raw arguments =>
      obtain rfl := Option.some.inj hpush
      rcases hsame with rfl | ⟨-, -, _, _, _, heq⟩
      · have hnode := openTag_building levels hplain done
          ⟨s, name, key, isolated, verbatim, raw, arguments⟩
        rw [← hnode]
        exact .opening hkind hread hinside
      · cases heq
    | closing name key isolated verbatim => exact absurd rfl (hopen name key isolated verbatim)

/-- **A segment whose reading can be pushed is added**, and what is pushed says what comes of it. -/
theorem add_of_push (hread : Reads families r.segment r) (h : u.push r = some v) :
    u.building.add families u.readings.length r.segment = .ok v.building := by
  cases u with
  | inRow levels hplain done =>
    by_cases hclosing : ∃ name key isolated verbatim,
        r.tag = some (.closing name key isolated verbatim)
    · obtain ⟨name, key, isolated, verbatim, htag⟩ := hclosing
      rw [push] at h
      simp only [htag] at h
      cases levels with
      | nil => cases h
      | cons l outer =>
        rw [leave] at h
        split at h
        · rename_i hcloses
          obtain rfl := Option.some.inj h
          rw [← closeTag_building_block hplain done hcloses]
          exact add_closing hread hcloses _
        · cases h
    · exact add_item hread hplain h fun name key isolated verbatim htag =>
        hclosing ⟨name, key, isolated, verbatim, htag⟩
  | inVerbatim l hverbatim outer hplain inside hinside =>
    rw [push] at h
    split at h
    · rename_i hcloses
      obtain rfl := Option.some.inj h
      rw [← closeTag_building_verbatim hverbatim hplain hinside hcloses]
      exact add_closing hread hcloses _
    · rename_i hopen
      obtain rfl := Option.some.inj h
      have hadd := add_inside hverbatim outer hread (eq_false_of_ne_true hopen)
        (Level.next (l :: outer) + inside.length)
        (inVerbatim l hverbatim outer hplain inside hinside).readings.length
        (Reading.texts (Level.next (l :: outer)) inside)
      rw [← Reading.texts_concat] at hadd
      refine hadd.trans ?_
      rw [building, next, List.length_append]
      rfl

/-- A segment whose reading cannot be pushed is a closing tag that closes nothing. -/
theorem add_of_push_eq_none (hread : Reads families r.segment r) (h : u.push r = none) :
    ∃ name key isolated verbatim, r.tag = some (.closing name key isolated verbatim) ∧
      u.building.add families u.readings.length r.segment =
        .error (.unexpectedClosing name (u.innermost?.map Opening.name) r.segment.position) := by
  cases u with
  | inRow levels hplain done =>
    rw [push] at h
    cases htag : r.tag with
    | none => simp [htag] at h
    | some tag =>
      cases tag with
      | anonymous key raw arguments => simp [htag] at h
      | opening name key isolated verbatim raw arguments => simp [htag] at h
      | closing name key isolated verbatim =>
        simp only [htag] at h
        refine ⟨name, key, isolated, verbatim, rfl, ?_⟩
        obtain ⟨family, read, hkind, hread, rfl | ⟨-, -, key', raw, arguments, heq⟩⟩ :=
          Segment.read_of_reads hread htag
        · have hcloses : (inRow levels hplain done).building.closesInnermost name key = false := by
            rw [building, Level.closesInnermost_building _ _ _ htag]
            exact closedBy_of_leave h
          rw [Building.add, hkind]
          simp only [Building.addReading, hread, hcloses, insideVerbatim_inRow levels hplain done,
            if_neg, Bool.false_eq_true, not_false_eq_true]
          rw [building, Level.innermostName?_building, innermost?, Option.map_map]
          rfl
        · cases heq
  | inVerbatim l hverbatim outer hplain inside hinside =>
    rw [push] at h
    split at h <;> cases h

/-- **Segments whose readings can be pushed are added.** -/
theorem addAll_of_pushAll {readings : List Reading}
    (hread : ∀ r ∈ readings, Reads families r.segment r) (h : u.pushAll readings = some v) :
    u.building.addAll families u.readings.length (readings.map Reading.segment) =
      .ok v.building := by
  induction readings generalizing u with
  | nil =>
    obtain rfl := Option.some.inj h
    rfl
  | cons r rest ih =>
    obtain ⟨hr, hrest⟩ := List.forall_mem_cons.mp hread
    obtain ⟨next, hnext, hmore⟩ := Option.bind_eq_some_iff.mp h
    have hlength : next.readings.length = u.readings.length + 1 := by
      rw [readings_push hnext, List.length_append, List.length_singleton]
    rw [List.map_cons, Building.addAll, add_of_push hr hnext, ← ih hrest hmore, hlength]

/-- All segments up to some place of a document are added. -/
theorem addAll_readings (u : Unfinished) (hread : ∀ r ∈ u.readings, Reads families r.segment r) :
    Building.empty.addAll families 0 (u.readings.map Reading.segment) = .ok u.building :=
  addAll_of_pushAll hread (pushAll_readings u)

end Unfinished

/-! ## The outcome of building -/

namespace Document

/-- What building has to come to, by what the segments are read as.  If they are balanced, the
document has the nodes of their items.  Otherwise there is a fault: at the first closing tag after
which nothing makes the readings balanced any more; or if there is none, at the innermost tag that
is open at the end. -/
def Follows (readings : List Reading) (segments : List Segment) :
    Except BuildFault Document → Prop
  | .ok document => ∃ items, Item.readingsAll items = readings ∧
      document = ⟨Item.nodes 1 0 false items, segments⟩
  | .error (.unexpectedClosing name innermost position) =>
    ∃ (before : Unfinished) (closing : Reading) (after : List Reading),
      readings = before.readings ++ closing :: after ∧
      (∃ key isolated verbatim, closing.tag = some (.closing name key isolated verbatim)) ∧
      Viable before.readings ∧ ¬ Viable (before.readings ++ [closing]) ∧
      innermost = before.innermost?.map Opening.name ∧ position = closing.segment.position
  | .error (.neverClosed name position) => Viable readings ∧
      ∃ (whole : Unfinished) (o : Opening), whole.readings = readings ∧
        whole.innermost? = some o ∧ name = o.name ∧ position = o.segment.position
  | .error (.unreadable _) => False

variable {families : List Family} {segments : List Segment} {readings : List Reading}

open Segment (Reads readAll)

/-- The families of what is opened in a template have keys. -/
theorem keyed_of_reads (hfamilies : Family.WellFormed families) {r : Reading}
    (hread : Reads families r.segment r) : r.Keyed := by
  intro name key isolated verbatim raw arguments htag
  obtain ⟨family, read, -, hread, rfl | ⟨-, -, _, _, _, heq⟩⟩ :=
    Segment.read_of_reads hread htag
  · obtain ⟨own, hmem, -, -, -, rfl, -⟩ := Tag.read_eq_opening hread
    exact (hfamilies.typed own hmem).key.isKey
  · cases heq

/-- Where no tag is open, all is finished. -/
theorem finish_building_inRow (hplain : ∀ l ∈ ([] : List Level), l.opening.verbatim = false)
    (done : List Item) :
    (Unfinished.inRow [] hplain done).building.finish = .ok (Item.nodes 1 0 false done) :=
  congrArg Except.ok (List.reverse_reverse _)

/-- Where a tag is open, it is never closed. -/
theorem finish_building_of_innermost {u : Unfinished} {o : Opening} (h : u.innermost? = some o) :
    u.building.finish = .error (.neverClosed o.name o.segment.position) := by
  rw [Unfinished.innermost?] at h
  rw [Unfinished.building]
  cases hlevels : u.levels with
  | nil => simp [hlevels] at h
  | cons l outer =>
    rw [hlevels] at h
    obtain rfl := Option.some.inj h
    rfl

/-- What the grammar asks for is the outcome. -/
theorem Follows.ofSegments_eq (hfamilies : Family.WellFormed families)
    (hread : ∀ r ∈ readings, Reads families r.segment r)
    (hsegments : readings.map Reading.segment = segments) {outcome : Except BuildFault Document}
    (h : Follows readings segments outcome) : ofSegments families segments = outcome := by
  rw [ofSegments, ← hsegments]
  rcases outcome with (⟨name, innermost, position⟩ | ⟨name, position⟩ | fault) | document
  · obtain ⟨before, closing, after, rfl, ⟨key, isolated, verbatim, htag⟩, -, hdead, rfl, rfl⟩ := h
    obtain ⟨hbefore, hclosing⟩ := List.forall_mem_append.mp hread
    have hlast := hclosing closing List.mem_cons_self
    -- if it could be pushed, something would complete it
    have hpush : before.push closing = none := by
      rw [Option.eq_none_iff_forall_ne_some]
      intro next hnext
      refine hdead ((viable_iff fun r hr => ?_).mpr ⟨next, Unfinished.readings_push hnext⟩)
      rcases List.mem_append.mp hr with hr | hr
      · exact keyed_of_reads hfamilies (hbefore r hr)
      · exact List.mem_singleton.mp hr ▸ keyed_of_reads hfamilies hlast
    obtain ⟨name', _, _, _, htag', hadd⟩ := Unfinished.add_of_push_eq_none hlast hpush
    obtain ⟨rfl, -⟩ := Tag.closing.inj (Option.some.inj (htag'.symm.trans htag))
    rw [List.map_append, Building.addAll_append, before.addAll_readings hbefore]
    dsimp only
    rw [List.length_map, Nat.zero_add, List.map_cons, Building.addAll, hadd]
  · obtain ⟨-, whole, o, rfl, ho, rfl, rfl⟩ := h
    rw [whole.addAll_readings hread]
    dsimp only
    rw [finish_building_of_innermost ho]
    rfl
  · exact absurd h id
  · obtain ⟨items, rfl, rfl⟩ := h
    have hall := Unfinished.addAll_readings
      (.inRow [] (fun l hl => absurd hl List.not_mem_nil) items) hread
    rw [show Building.empty.addAll families 0 (Item.readingsAll items |>.map Reading.segment) =
      .ok _ from hall]
    dsimp only
    rw [finish_building_inRow, ← hsegments]
    rfl

/-- There is an outcome that the grammar asks for. -/
theorem exists_follows (hfamilies : Family.WellFormed families)
    (hread : ∀ r ∈ readings, Reads families r.segment r) (segments : List Segment) :
    ∃ outcome, Follows readings segments outcome := by
  have hkeyed : ∀ r ∈ readings, r.Keyed := fun r hr => keyed_of_reads hfamilies (hread r hr)
  cases hpushed : Unfinished.start.pushAll readings with
  | some u =>
    have hreadings := Unfinished.pushAll_eq_some_iff.mp hpushed
    cases hinnermost : u.innermost? with
    | some o =>
      exact ⟨.error (.neverClosed o.name o.segment.position),
        (viable_iff hkeyed).mpr ⟨u, hreadings⟩, u, o, hreadings, hinnermost, rfl, rfl⟩
    | none =>
      cases u with
      | inRow levels hplain done =>
        cases levels with
        | nil => exact ⟨.ok ⟨Item.nodes 1 0 false done, segments⟩, done, hreadings, rfl⟩
        | cons l outer => cases hinnermost
      | inVerbatim l hverbatim outer hplain inside hinside => cases hinnermost
  | none =>
    obtain ⟨before, u, closing, after, rfl, hbefore, hnone⟩ :=
      Unfinished.exists_push_eq_none hpushed
    obtain rfl := Unfinished.pushAll_eq_some_iff.mp hbefore
    obtain ⟨name, key, isolated, verbatim, htag, -⟩ := Unfinished.add_of_push_eq_none
      (hread closing (List.mem_append_right _ List.mem_cons_self)) hnone
    refine ⟨.error (.unexpectedClosing name (u.innermost?.map Opening.name)
      closing.segment.position), u, closing, after, rfl, ⟨key, isolated, verbatim, htag⟩, ?_,
      not_viable_of_push hnone, rfl, rfl⟩
    exact (viable_iff fun r hr => hkeyed r (List.mem_append_left _ hr)).mpr ⟨u, rfl⟩

/-- The outcome is what the grammar asks for. -/
theorem follows_ofSegments (hfamilies : Family.WellFormed families)
    (hread : ∀ r ∈ readings, Reads families r.segment r)
    (hsegments : readings.map Reading.segment = segments) :
    Follows readings segments (ofSegments families segments) := by
  obtain ⟨outcome, houtcome⟩ := exists_follows hfamilies hread segments
  rwa [houtcome.ofSegments_eq hfamilies hread hsegments]

/-- **Building accepts exactly the balanced documents.**  The segments of a template can be read;
what they are read as is read off one row of items at most; and the outcome of building is the one
that the grammar asks for: a document with the nodes of these items, or if there are none, the
fault where it has to be. -/
theorem ofSegments_eq_iff {registry : Registry} (hmade : registry.Made) {template : Text}
    (hcut : Segment.cut registry.ordered template = .ok segments) :
    ∃ readings, readAll registry.ordered segments = .ok readings ∧
      (∀ a b, Item.readingsAll a = readings → Item.readingsAll b = readings → a = b) ∧
      ∀ outcome, ofSegments registry.ordered segments = outcome ↔
        Follows readings segments outcome := by
  obtain ⟨readings, hall⟩ := Segment.exists_readAll hmade.wellFormed hcut
  have hread : ∀ r ∈ readings, Reads registry.ordered r.segment r :=
    fun r hr => (Segment.reads_of_mem_readAll hall hr).2
  have hsegments := Segment.map_segment_of_readAll hall
  refine ⟨readings, hall, fun a b ha hb => Item.readingsAll_injective (ha.trans hb.symm),
    fun outcome => ⟨fun h => ?_, fun h => h.ofSegments_eq hmade.wellFormed hread hsegments⟩⟩
  exact h ▸ follows_ofSegments hmade.wellFormed hread hsegments

/-- The tags of a conditional that is closed while a loop inside it is open. -/
def crossed : List Segment :=
  [⟨.tag (some (Standard.word "statement")), Text.ofString "\x7bif $x\x7d", ⟨0, 1, 1⟩⟩,
   ⟨.tag (some (Standard.word "statement")), Text.ofString "\x7bfor $x in $y\x7d", ⟨7, 1, 8⟩⟩,
   ⟨.tag (some (Standard.word "statement")), Text.ofString "\x7b/if\x7d", ⟨21, 1, 22⟩⟩]

section

attribute [local instance] Host.usual

/-- Nothing helps once the conditional is closed. -/
theorem ofSegments_crossed :
    ∃ readings, readAll Standard.registry.ordered crossed = .ok readings ∧
      Follows readings crossed (.error (.unexpectedClosing (Text.ofString "if")
        (some (Text.ofString "for")) ⟨21, 1, 22⟩)) := by
  have hcut : Segment.cut Standard.registry.ordered (Segment.joined crossed) = .ok crossed := by
    rw [Standard.registry_ordered]
    cbv
  obtain ⟨readings, hread, -, hall⟩ := ofSegments_eq_iff Standard.registry_made hcut
  refine ⟨readings, hread, (hall _).mp ?_⟩
  rw [Standard.registry_ordered]
  cbv

end

/-! ## Parsing -/

/-- The outcome of building is what the readings of the template ask for. -/
theorem exists_follows_of_cut {registry : Registry} (hmade : registry.Made) {template : Text}
    (hcut : Segment.cut registry.ordered template = .ok segments) :
    ∃ readings, readAll registry.ordered segments = .ok readings ∧
      Follows readings segments (ofSegments registry.ordered segments) := by
  obtain ⟨readings, hall⟩ := Segment.exists_readAll hmade.wellFormed hcut
  exact ⟨readings, hall, follows_ofSegments hmade.wellFormed
    (fun r hr => (Segment.reads_of_mem_readAll hall hr).2) (Segment.map_segment_of_readAll hall)⟩

/-- Segments of a template can be read, whatever else may be wrong with them. -/
theorem ofSegments_ne_unreadable {registry : Registry} (hmade : registry.Made) {template : Text}
    (hcut : Segment.cut registry.ordered template = .ok segments) (fault : Tag.Fault) :
    ofSegments registry.ordered segments ≠ .error (.unreadable fault) := by
  intro h
  obtain ⟨readings, -, hfollows⟩ := exists_follows_of_cut hmade hcut
  rw [h] at hfollows
  exact hfollows

/-- A template that is parsed has a derivation, and the document has its nodes. -/
theorem exists_items_of_parse {registry : Registry} (hmade : registry.Made) {template : Text}
    {document : Document} (h : Program.parse registry template = .ok document) :
    ∃ items, Segment.cut registry.ordered template = .ok document.segments ∧
      readAll registry.ordered document.segments = .ok (Item.readingsAll items) ∧
      document.children = Item.nodes 1 0 false items := by
  rw [Program.parse] at h
  cases hcut : Segment.cut registry.ordered template with
  | error fault => simp [hcut] at h
  | ok segments =>
    simp only [hcut] at h
    obtain ⟨readings, hall, hfollows⟩ := exists_follows_of_cut hmade hcut
    cases hbuild : ofSegments registry.ordered segments with
    | error fault => simp [hbuild, Except.mapError] at h
    | ok built =>
      simp only [hbuild, Except.mapError, Except.ok.injEq] at h
      rw [hbuild, h] at hfollows
      obtain ⟨items, rfl, rfl⟩ := hfollows
      exact ⟨items, rfl, hall, rfl⟩

end Document
end Stencil
