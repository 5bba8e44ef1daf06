import Stencil.Document.Building
import Stencil.Document.Records

/-!
# Building the table of a document

A document can be built as a table at once, row by row. A new node is written below the rows that
are there, and its number is added to those that belong to the current row: that of the innermost
open tag, or of the document. A detached node stays in the table, and belongs to nothing. So parents
are told in one place and children in another, and both change as the table grows.

What has to be known of an open tag is read off its row. Only whether it is verbatim stands beside
its number on the stack.
-/

namespace Stencil

/-- What a content says of a tag. -/
def Content.head? : Content → Option TagHead
  | .tag head _ => some head
  | _ => none

/-- The content of a tag that the segment with the given index closes. -/
def Content.closedBy (index : Nat) : Content → Content
  | .tag head _ => .tag head (some index)
  | content => content

/-- The rows of the nodes of a document, by number. -/
structure Table where
  rows : List Record

namespace Table

/-- The row of a document with nothing in it. -/
def empty : Table := ⟨[⟨0, none, .document, []⟩]⟩

/-- Changes the row with the given number. -/
def update (t : Table) (id : Nat) (f : Record → Record) : Table := ⟨t.rows.modify id f⟩

/-- Adds a node that belongs to the given one. -/
def add (t : Table) (parent : Nat) (content : Content) : Table :=
  Table.update ⟨t.rows ++ [⟨t.rows.length, some parent, content, []⟩]⟩ parent fun r =>
    { r with children := r.children ++ [t.rows.length] }

/-- The last one of the nodes that belong to the given one. -/
def lastChild? (t : Table) (parent : Nat) : Option Record := do
  let r ← t.rows[parent]?
  let child ← r.children.getLast?
  t.rows[child]?

/-- Detaches the last one of the nodes that belong to the given one. -/
def removeLastChild (t : Table) (parent : Nat) : Table :=
  match t.lastChild? parent with
  | some child =>
    (t.update parent fun r => { r with children := r.children.dropLast }).update child.id fun r =>
      { r with parent := none }
  | none => t

/-- Notes the index of the segment that closes a tag. -/
def close (t : Table) (id index : Nat) : Table :=
  t.update id fun r => { r with content := r.content.closedBy index }

end Table

/-- A table under construction. -/
structure Tabulation where
  table : Table
  /-- The numbers of the open tags, the innermost first, and whether they are verbatim. -/
  stack : List (Nat × Bool)

namespace Tabulation

/-- Nothing has been built. -/
def empty : Tabulation := ⟨.empty, []⟩

/-- The number of the innermost open tag, or of the document if there is none. -/
def current (t : Tabulation) : Nat :=
  match t.stack with
  | [] => 0
  | (id, _) :: _ => id

/-- What the row of the innermost open tag says of it. -/
def currentHead? (t : Tabulation) : Option TagHead := do
  let r ← t.table.rows[t.current]?
  r.content.head?

/-- Whether the innermost open tag takes everything as text. -/
def insideVerbatim (t : Tabulation) : Bool := t.stack.head?.any Prod.snd

/-- Whether a tag closes the innermost open tag. -/
def closesCurrent (t : Tabulation) (name : Text) (family : Value) : Bool :=
  t.currentHead?.any fun head => some name == head.name && Value.sameKey family head.family

/-- Adds a text. -/
def addText (t : Tabulation) (value : Text) (position : Position) : Tabulation :=
  { t with table := t.table.add t.current (.text value position) }

/-- Adds a tag that has been read as an anonymous one. -/
def addTag (t : Tabulation) (index : Nat) (position : Position) : Tag → Tabulation
  | .anonymous family raw arguments =>
    let head : TagHead := ⟨none, family, arguments, raw, index, position⟩
    { t with table := t.table.add t.current (.tag head none) }
  | _ => t

/-- Detaches the whitespace that precedes an isolated tag. -/
def isolate (t : Tabulation) : Tabulation :=
  match t.table.lastChild? t.current with
  | some ⟨_, _, .text value _, _⟩ =>
    if Text.allBlank value then { t with table := t.table.removeLastChild t.current } else t
  | _ => t

/-- Opens a tag. -/
def openTag (t : Tabulation) (head : TagHead) (verbatim : Bool) : Tabulation :=
  ⟨t.table.add t.current (.tag head none), (t.table.rows.length, verbatim) :: t.stack⟩

/-- Closes the innermost open tag. -/
def closeTag (t : Tabulation) (index : Nat) : Tabulation :=
  ⟨t.table.close t.current index, t.stack.tail⟩

/-- Adds the segment with the given index, a tag that was cut out for a family, given what it reads
as. -/
def addReading (families : List Family) (t : Tabulation) (index : Nat) (segment : Segment)
    (family : Option Value) : Except Tag.Fault (Option Tag) → Except BuildFault Tabulation
  | .error fault => .error (.unreadable fault)
  | .ok (some (.closing name key _ _)) =>
    if t.closesCurrent name key then .ok (t.closeTag index)
    else if t.insideVerbatim then .ok (t.addText segment.raw segment.position)
    else .error (.unexpectedClosing name (t.currentHead?.bind TagHead.name) segment.position)
  | .ok tag =>
    if t.insideVerbatim then .ok (t.addText segment.raw segment.position)
    else match tag with
      | some (.opening name key isolated verbatim raw arguments) =>
        let t := if isolated then t.isolate else t
        .ok (t.openTag ⟨some name, key, arguments, raw, index, segment.position⟩ verbatim)
      | some tag => .ok (t.addTag index segment.position tag)
      | none =>
        match Tag.readAnonymous families family segment.raw with
        | .ok tag => .ok (t.addTag index segment.position tag)
        | .error fault => .error (.unreadable fault)

/-- Adds the segment with the given index. -/
def add (families : List Family) (t : Tabulation) (index : Nat) (segment : Segment) :
    Except BuildFault Tabulation :=
  match segment.kind with
  | .text => .ok (t.addText segment.raw segment.position)
  | .tag family => t.addReading families index segment family (Tag.read families segment.raw)

/-- Adds segments, the first of which has the given index. -/
def addAll (families : List Family) (t : Tabulation) (index : Nat) :
    List Segment → Except BuildFault Tabulation
  | [] => .ok t
  | segment :: rest =>
    match t.add families index segment with
    | .ok t => addAll families t (index + 1) rest
    | .error fault => .error fault

/-- The table that has been built, if no tag is open. -/
def finish (t : Tabulation) : Except BuildFault Table :=
  match t.currentHead? with
  | none => .ok t.table
  | some head => .error (.neverClosed (head.name.getD []) head.position)

end Tabulation

namespace Table

/-- The table of the document that segments make. -/
def ofSegments (families : List Family) (segments : List Segment) : Except BuildFault Table :=
  match Tabulation.empty.addAll families 0 segments with
  | .error fault => .error fault
  | .ok t => t.finish

end Table
end Stencil
