import Stencil.Yaml.Kind
import Stencil.Yaml.Token

/-!
# The nodes of a document

A document is a graph of nodes: scalars, sequences and mappings. A node can be given a name by which
it is referred to later, even from within. So the nodes are kept in a row and refer to each other by
their numbers; the number of a collection is known before its parts are read.

Directives may stand before a document; those about tags say what the handles of tags stand for, and
what they say about the version does not change how it is read. Block collections are set apart by
columns and flow collections by marks, and to the graph both are the same. What is left out is an
empty plain scalar: the value after a lone dash or colon, or the key before a colon that has none.

Reading goes down at most `deepest` collections. Every step takes a token or goes down, and there
are never more than four tokens and block ends to a character, so the steps that reading starts with
are never used up.
-/

namespace Stencil
namespace Yaml

/-- What a node consists of; other nodes are given by their numbers. -/
inductive Body where
  | scalar (content : Content)
  | sequence (items : List Nat)
  /-- The entries, and whether some of them have been brought in from other mappings. -/
  | mapping (entries : List (Nat × Nat)) (isMerged : Bool)

/-- A node of a document. -/
structure Node where
  kind : Kind
  body : Body

/-- The nodes of a document by number. -/
abbrev Nodes := Array Node

/-- A document: its nodes, and the number of its root. -/
structure Document where
  nodes : Nodes
  root : Nat

/-- The deepest nesting of collections that is read. -/
def deepest : Nat := 480

/-- The tag that says no more than that there is one. -/
def bareTag : Text := ['!']

/-- The handles that every document has, with what they stand for. -/
def commonHandles : List (Text × Text) := [(['!'], ['!']), (['!', '!'], Kind.tagRoot)]

/-- How far a document has been read: the tokens to come, the nodes so far, the numbers of those
that have a name, and the handles of tags. -/
structure Progress where
  tokens : TokenSource
  nodes : Nodes
  names : List (Text × Nat)
  handles : List (Text × Text)

/-- Reading of a part of a document. -/
abbrev Reading := StateT Progress (Except Fault)

namespace Reading

/-- The text is no document. -/
def refuse : Reading α := throw .malformed

/-- The next token, which is left where it is. -/
def peek : Reading Token := do
  let progress ← get
  match progress.tokens.peek with
  | .error fault => throw fault
  | .ok (token, tokens) =>
    set { progress with tokens := tokens }
    return token

/-- Takes the next token. -/
def drop : Reading Unit := modify fun progress => { progress with tokens := progress.tokens.drop }

/-- The number of the node that a name stands for. -/
def named (name : Text) : Reading Nat := do
  match (← get).names.lookup name with
  | some number => return number
  | none => refuse

/-- Adds a node, which may be given a name; gives its number. -/
def add (name : Option Text) (kind : Kind) (body : Body) : Reading Nat := do
  let progress ← get
  let number := progress.nodes.size
  let names := match name with
    | some name => (name, number) :: progress.names
    | none => progress.names
  set { progress with nodes := progress.nodes.push ⟨kind, body⟩, names := names }
  return number

/-- Says what the node of a number consists of. -/
def complete (number : Nat) (body : Body) : Reading Nat := do
  modify fun progress =>
    { progress with nodes := progress.nodes.modify number fun node => { node with body := body } }
  return number

/-- Adds what stands for a node that is left out. -/
def absent : Reading Nat := add none .null (.scalar (.text []))

/-- What stands before a node: the name that it is given, and a tag. -/
structure Decoration where
  name : Option Text
  tag : Option Text

/-- Whether a node is decorated; such a node may be left out. -/
def Decoration.isPresent (d : Decoration) : Bool := d.name.isSome || d.tag.isSome

/-- Whether the kind of a node is left to how it is written, as far as the tag goes. -/
def Decoration.isOpen (d : Decoration) : Bool := d.tag.all (· == bareTag)

/-- The kind of a collection. -/
def Decoration.collectionKind (d : Decoration) (written : Kind) : Kind :=
  if d.isOpen then written else (d.tag.map Kind.ofTag).getD written

/-- The kind of a scalar. The bare tag makes any scalar one that is of a kind by its shape. -/
def Decoration.scalarKind (d : Decoration) (content : Content) (isPlain : Bool) : Kind :=
  match d.tag with
  | none => if isPlain then Kind.ofPlain content else .text
  | some tag => if tag == bareTag then Kind.ofPlain content else Kind.ofTag tag

/-- A tag in full. -/
def fullTag (handle : Option Text) (name : Text) : Reading Text := do
  match handle with
  | none => return name
  | some handle =>
    match (← get).handles.lookup handle with
    | some stands => return stands ++ name
    | none => refuse

/-- Takes what stands before a node, in either order. -/
def decoration : Reading Decoration := do
  match ← peek with
  | .anchor name =>
    drop
    match ← peek with
    | .tag handle tag => do
      drop
      return ⟨some name, some (← fullTag handle tag)⟩
    | _ => return ⟨some name, none⟩
  | .tag handle tag =>
    drop
    match ← peek with
    | .anchor name => do
      drop
      return ⟨some name, some (← fullTag handle tag)⟩
    | _ => return ⟨none, some (← fullTag handle tag)⟩
  | _ => return ⟨none, none⟩

/-- Where a node stands. -/
inductive Place where
  /-- Inside a flow collection. -/
  | flow
  | block
  /-- As key or value of a block mapping, where dashes may stand in the column of the mapping. -/
  | entry
  deriving DecidableEq

/-- Whether a token cannot begin the key or value of a block mapping, so that it is left out. -/
def endsEntry : Token → Bool
  | .key => true
  | .value => true
  | .blockEnd => true
  | _ => false

/-- Whether a token cannot begin an item of a block sequence, so that it is left out. In the column
of a mapping, an item also ends at the next entry. -/
def endsItem (inEntry : Bool) : Token → Bool
  | .dash => true
  | .blockEnd => true
  | .key => inEntry
  | .value => inEntry
  | _ => false

/-- Whether a token ends an entry of a flow collection. -/
def endsFlowEntry (closing : Token) (token : Token) : Bool := token == .comma || token == closing

mutual

/-- Reads a node; `levels` is how many collections may still be nested. -/
def node : Nat → Nat → Place → Reading Nat
  | 0, _, _ => refuse
  | steps + 1, levels, place => do
    if levels = 0 then throw .tooDeep
    match ← peek with
    | .alias name => do
      drop
      named name
    | _ => content steps (levels - 1) place (← decoration)

/-- Reads a node without what may stand before it. -/
def content : Nat → Nat → Place → Decoration → Reading Nat
  | 0, _, _, _ => refuse
  | steps + 1, levels, place, decoration => do
    let token ← peek
    match token with
    | .scalar text isPlain =>
      drop
      add decoration.name (decoration.scalarKind text isPlain) (.scalar text)
    | .openSequence =>
      drop
      let number ← add decoration.name (decoration.collectionKind .sequence) (.sequence [])
      complete number (.sequence (← flowItems steps levels []))
    | .openMapping =>
      drop
      let number ← add decoration.name (decoration.collectionKind .mapping) (.mapping [] false)
      complete number (.mapping (← flowEntries steps levels []) false)
    | _ =>
      if token == .dash && place == .entry then
        let number ← add decoration.name (decoration.collectionKind .sequence) (.sequence [])
        complete number (.sequence (← items steps levels true []))
      else if token == .blockSequence && place != .flow then
        drop
        let number ← add decoration.name (decoration.collectionKind .sequence) (.sequence [])
        complete number (.sequence (← items steps levels false []))
      else if token == .blockMapping && place != .flow then
        drop
        let number ← add decoration.name (decoration.collectionKind .mapping) (.mapping [] false)
        complete number (.mapping (← entries steps levels []) false)
      else if decoration.isPresent then
        add decoration.name (decoration.scalarKind (.text []) true) (.scalar (.text []))
      else refuse

/-- Reads the rest of a block sequence. One in the column of a mapping has no end of its own. -/
def items : Nat → Nat → Bool → List Nat → Reading (List Nat)
  | 0, _, _, _ => refuse
  | steps + 1, levels, inEntry, done => do
    match ← peek with
    | .dash =>
      drop
      let item ← if endsItem inEntry (← peek) then absent else node steps levels .block
      items steps levels inEntry (item :: done)
    | token =>
      if inEntry then return done.reverse
      else if token == .blockEnd then
        drop
        return done.reverse
      else refuse

/-- Reads the rest of a block mapping. -/
def entries : Nat → Nat → List (Nat × Nat) → Reading (List (Nat × Nat))
  | 0, _, _ => refuse
  | steps + 1, levels, done => do
    match ← peek with
    | .key =>
      drop
      let key ← if endsEntry (← peek) then absent else node steps levels .entry
      let value ← entryValue steps levels
      entries steps levels ((key, value) :: done)
    | .value =>
      let key ← absent
      let value ← entryValue steps levels
      entries steps levels ((key, value) :: done)
    | .blockEnd =>
      drop
      return done.reverse
    | _ => refuse

/-- Reads the value of an entry of a block mapping. -/
def entryValue : Nat → Nat → Reading Nat
  | 0, _ => refuse
  | steps + 1, levels => do
    if (← peek) == .value then
      drop
      if endsEntry (← peek) then absent else node steps levels .entry
    else absent

/-- Reads the rest of a flow sequence. An item may be a single entry of a mapping. -/
def flowItems : Nat → Nat → List Nat → Reading (List Nat)
  | 0, _, _ => refuse
  | steps + 1, levels, done => do
    if (← peek) == .closeSequence then
      drop
      return done.reverse
    if !done.isEmpty then
      if (← peek) == .comma then drop else refuse
    match ← peek with
    | .closeSequence =>
      drop
      return done.reverse
    | .key =>
      if levels = 0 then throw .tooDeep
      drop
      let number ← add none .mapping (.mapping [] false)
      let entry ← flowEntry steps (levels - 1) .closeSequence
      let item ← complete number (.mapping [entry] false)
      flowItems steps levels (item :: done)
    | _ =>
      let item ← node steps levels .flow
      flowItems steps levels (item :: done)

/-- Reads the rest of a flow mapping. -/
def flowEntries : Nat → Nat → List (Nat × Nat) → Reading (List (Nat × Nat))
  | 0, _, _ => refuse
  | steps + 1, levels, done => do
    if (← peek) == .closeMapping then
      drop
      return done.reverse
    if !done.isEmpty then
      if (← peek) == .comma then drop else refuse
    match ← peek with
    | .closeMapping =>
      drop
      return done.reverse
    | .key =>
      drop
      let entry ← flowEntry steps levels .closeMapping
      flowEntries steps levels (entry :: done)
    | .value =>
      let key ← absent
      let value ← flowValue steps levels .closeMapping
      flowEntries steps levels ((key, value) :: done)
    | _ =>
      let key ← node steps levels .flow
      let value ← absent
      flowEntries steps levels ((key, value) :: done)

/-- Reads the key and the value of an entry of a flow collection. -/
def flowEntry : Nat → Nat → Token → Reading (Nat × Nat)
  | 0, _, _ => refuse
  | steps + 1, levels, closing => do
    let token ← peek
    let key ← if token == .value || endsFlowEntry closing token then absent
      else node steps levels .flow
    return (key, ← flowValue steps levels closing)

/-- Reads the value of an entry of a flow collection. -/
def flowValue : Nat → Nat → Token → Reading Nat
  | 0, _, _ => refuse
  | steps + 1, levels, closing => do
    if (← peek) == .value then
      drop
      if endsFlowEntry closing (← peek) then absent else node steps levels .flow
    else absent

end

/-- Reads the root after the mark that begins a document; nothing need follow the mark. -/
def markedRoot (steps : Nat) : Reading Nat := do
  match ← peek with
  | .directive _ => absent
  | .documentStart => absent
  | .documentEnd => absent
  | .finish => absent
  | _ => node steps deepest .block

/-- Reads the directives before a document and the mark that begins it. One directive at most may
be about the version, which has to be a version 1, and one about each handle. -/
def documentStart : Nat → Bool → List (Text × Text) → Reading Unit
  | 0, _, _ => refuse
  | steps + 1, versioned, handles => do
    match ← peek with
    | .directive (.version major) =>
      if versioned || major != 1 then refuse
      drop
      documentStart steps true handles
    | .directive (.handle name stands) =>
      if (handles.lookup name).isSome then refuse
      drop
      documentStart steps versioned ((name, stands) :: handles)
    | .directive .other =>
      drop
      documentStart steps versioned handles
    | .documentStart =>
      modify fun progress => { progress with handles := handles ++ commonHandles }
      drop
    | _ => refuse

/-- Whether a token stands before a document whose beginning is marked. -/
def beginsDocument : Token → Bool
  | .documentStart => true
  | .directive _ => true
  | _ => false

/-- Reads the only document of a text: its root, if there is any token. -/
def document (steps : Nat) : Reading (Option Nat) := do
  let token ← peek
  let root ←
    if token == .finish then pure none
    else if beginsDocument token then do
      documentStart steps false []
      some <$> markedRoot steps
    else some <$> node steps deepest .block
  if root.isSome && (← peek) == .documentEnd then drop
  if (← peek) == .finish then return root else refuse

end Reading

/-- The only document of a text; `none` if the text is empty. -/
def Document.ofText (t : Text) : Except Fault (Option Document) :=
  if !t.all isAdmitted then .error .malformed
  else
    let reading := Reading.document (8 * t.length + 16)
    (reading.run ⟨.ofText t, #[], [], commonHandles⟩).map fun (root, progress) =>
      root.map fun root => ⟨progress.nodes, root⟩

end Yaml
end Stencil
