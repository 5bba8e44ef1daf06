import Stencil.Document.Node

/-!
# Building a document

A document is built from the segments of a template, one after the other. The tags that are open
form a stack; a new node goes into the innermost of them, and a closing tag closes it if it is of
the same family and name. While a verbatim tag is innermost, every segment but its own closing tag
is text. An isolated opening tag detaches the whitespace right before it.

Building fails at a closing tag that closes nothing, and at the end if a tag is still open.
-/

namespace Stencil

/-- A tag whose closing tag has not come yet. -/
structure OpenTag where
  id : Nat
  name : Text
  head : TagHead
  verbatim : Bool
  /-- The nodes inside so far, the newest first. -/
  children : List Node

/-- A document under construction. -/
structure Building where
  /-- The number of the next node. -/
  next : Nat
  /-- The open tags, the innermost first. -/
  stack : List OpenTag
  /-- The nodes outside all open tags, the newest first. -/
  top : List Node

/-- Why segments make no document. -/
inductive BuildFault where
  /-- A closing tag that does not close the innermost open tag, if there is any. -/
  | unexpectedClosing (name : Text) (innermost : Option Text) (position : Position)
  /-- A tag that is still open at the end. -/
  | neverClosed (name : Text) (position : Position)
  /-- A tag that cannot be read. -/
  | unreadable (fault : Tag.Fault)
  deriving DecidableEq, Repr

namespace Building

/-- Nothing has been built. -/
def empty : Building := ⟨1, [], []⟩

/-- Puts a node into the innermost open tag, or into the document if there is none. -/
def attach (b : Building) (n : Node) : Building :=
  match b.stack with
  | [] => { b with top := n :: b.top }
  | innermost :: outer =>
    { b with stack := { innermost with children := n :: innermost.children } :: outer }

/-- Adds a text. -/
def addText (b : Building) (t : Text) (position : Position) : Building :=
  { b.attach (.text b.next t position true) with next := b.next + 1 }

/-- Adds a tag without name. -/
def addAnonymous (b : Building) (head : TagHead) : Building :=
  { b.attach (.tag b.next head none []) with next := b.next + 1 }

/-- Detaches a whitespace text at the front of a row of nodes. -/
def detachBlank : List Node → List Node
  | .text id t position attached :: rest =>
    .text id t position (attached && !Text.allBlank t) :: rest
  | nodes => nodes

/-- Detaches the whitespace that precedes an isolated tag. -/
def isolate (b : Building) : Building :=
  match b.stack with
  | [] => { b with top := detachBlank b.top }
  | innermost :: outer =>
    { b with stack := { innermost with children := detachBlank innermost.children } :: outer }

/-- Opens a tag. -/
def openTag (b : Building) (name : Text) (head : TagHead) (verbatim : Bool) : Building :=
  { b with next := b.next + 1, stack := ⟨b.next, name, head, verbatim, []⟩ :: b.stack }

/-- Whether a closing tag belongs to an open tag. -/
def closes (t : OpenTag) (name : Text) (family : Value) : Bool :=
  name == t.name && Value.sameKey family t.head.family

/-- Closes the innermost open tag. -/
def closeTag (b : Building) (index : Nat) : Building :=
  match b.stack with
  | [] => b
  | t :: outer =>
    { b with stack := outer }.attach (.tag t.id t.head (some index) t.children.reverse)

/-- The name of the innermost open tag. -/
def innermostName? (b : Building) : Option Text := b.stack.head?.map OpenTag.name

/-- Whether the innermost open tag takes everything as text. -/
def insideVerbatim (b : Building) : Bool := b.stack.head?.any OpenTag.verbatim

/-- Whether a tag closes the innermost open tag. -/
def closesInnermost (b : Building) (name : Text) (family : Value) : Bool :=
  b.stack.head?.any (closes · name family)

/-- Adds a tag that has been read as an anonymous one. -/
def addTag (b : Building) (index : Nat) (position : Position) : Tag → Building
  | .anonymous family raw arguments =>
    b.addAnonymous ⟨none, family, arguments, raw, index, position⟩
  | _ => b

/-- Adds the segment with the given index, a tag that was cut out for a family, given what it reads
as. -/
def addReading (families : List Family) (b : Building) (index : Nat) (segment : Segment)
    (family : Option Value) : Except Tag.Fault (Option Tag) → Except BuildFault Building
  | .error fault => .error (.unreadable fault)
  | .ok (some (.closing name key _ _)) =>
    if b.closesInnermost name key then .ok (b.closeTag index)
    else if b.insideVerbatim then .ok (b.addText segment.raw segment.position)
    else .error (.unexpectedClosing name b.innermostName? segment.position)
  | .ok tag =>
    if b.insideVerbatim then .ok (b.addText segment.raw segment.position)
    else match tag with
      | some (.opening name key isolated verbatim raw arguments) =>
        let b := if isolated then b.isolate else b
        .ok (b.openTag name ⟨some name, key, arguments, raw, index, segment.position⟩ verbatim)
      | some tag => .ok (b.addTag index segment.position tag)
      | none =>
        match Tag.readAnonymous families family segment.raw with
        | .ok tag => .ok (b.addTag index segment.position tag)
        | .error fault => .error (.unreadable fault)

/-- Adds the segment with the given index. -/
def add (families : List Family) (b : Building) (index : Nat) (segment : Segment) :
    Except BuildFault Building :=
  match segment.kind with
  | .text => .ok (b.addText segment.raw segment.position)
  | .tag family =>
    b.addReading families index segment family (Tag.read families segment.raw)

/-- Adds segments, the first of which has the given index. -/
def addAll (families : List Family) (b : Building) (index : Nat) :
    List Segment → Except BuildFault Building
  | [] => .ok b
  | segment :: rest =>
    match b.add families index segment with
    | .ok b => addAll families b (index + 1) rest
    | .error fault => .error fault

/-- The nodes that have been built, if no tag is open. -/
def finish (b : Building) : Except BuildFault (List Node) :=
  match b.stack with
  | [] => .ok b.top.reverse
  | t :: _ => .error (.neverClosed t.name t.head.position)

end Building

namespace Document

/-- The document that segments make. -/
def ofSegments (families : List Family) (segments : List Segment) :
    Except BuildFault Document :=
  match Building.empty.addAll families 0 segments with
  | .error fault => .error fault
  | .ok b => b.finish.map fun children => ⟨children, segments⟩

end Document

/-- The wording of a fault in the balance of tags, without its position. -/
def BuildFault.message : BuildFault → String
  | .unexpectedClosing name innermost _ =>
    let name := String.ofList name
    let expected := match innermost with
      | some t =>
        let t := String.ofList t
        s!"'{t}'"
      | none => "no open tag"
    s!"Unexpected closing tag '{name}' ({expected})"
  | .neverClosed name _ =>
    let name := String.ofList name
    s!"Tag '{name}' is never closed"
  | .unreadable _ => ""

end Stencil
