import Stencil.Text.Utf8
import Stencil.Yaml.Scalar

/-!
# Tokens of a document

A document is a row of tokens: scalars, the marks of flow collections, dashes and colons, and the
places where the blocks begin and end that columns set apart. A key of a mapping need not be marked
in front: that a token begins a key is known only when the colon after it has been reached. So a
`TokenSource` keeps where on each level of flow collections a key may have begun, and a token that
may yet turn out to begin a key is not given away. A key must end on its line and within 1024
characters; then it is no longer possible, which is a fault where only a key could stand.

Tokens are read only as far as they are asked for, as what a colon means can depend on whether the
token before it has been taken.
-/

namespace Stencil
namespace Yaml

/-- A line before the document that says how it is to be read. -/
inductive Directive where
  /-- The first number of the version. -/
  | version (major : Nat)
  /-- What the handle of a tag stands for. -/
  | handle (name stands : Text)
  /-- A line that says nothing. -/
  | other
  deriving DecidableEq, Repr

/-- A token of a document. -/
inductive Token where
  /-- The end of the text. -/
  | finish
  | directive (line : Directive)
  | documentStart
  | documentEnd
  /-- The beginning of a block of items with dashes. -/
  | blockSequence
  /-- The beginning of a block of entries. -/
  | blockMapping
  /-- The end of a block. -/
  | blockEnd
  | openSequence
  | closeSequence
  | openMapping
  | closeMapping
  | dash
  | comma
  /-- The beginning of a key. -/
  | key
  /-- The colon before a value. -/
  | value
  /-- A name that is given to the node that follows. -/
  | anchor (name : Text)
  /-- The name of a node that stands for it. -/
  | alias (name : Text)
  /-- What kind of node follows, after a handle or in full. An exclamation mark alone says nothing
  about it. -/
  | tag (handle : Option Text) (name : Text)
  | scalar (content : Content) (isPlain : Bool)
  deriving DecidableEq, Repr

/-- The flow collections. -/
inductive Enclosure where
  | sequence
  | mapping
  deriving DecidableEq, Repr

/-- Where a key may have begun. -/
structure KeyPlace where
  /-- The number of the token that begins the key. -/
  token : Nat
  /-- Whether nothing but a key can stand there. -/
  required : Bool
  cursor : Cursor

/-- The tokens of a text that have been read and not taken, and what is known for reading on. -/
structure TokenSource where
  cursor : Cursor
  /-- The length of the whole text. -/
  size : Nat
  /-- The flow collections that are open, the innermost first. -/
  enclosures : List Enclosure
  pending : List Token
  /-- How many tokens have been taken. -/
  taken : Nat
  /-- The column of the innermost block, `-1` outside all blocks. -/
  indent : Int
  /-- The columns of the blocks around it. -/
  outer : List Int
  /-- Whether a key or an item may begin here. -/
  keyAllowed : Bool
  /-- Where a key may have begun, for each number of open flow collections. -/
  keys : List (Nat × KeyPlace)
  finished : Bool

namespace TokenSource

/-- All tokens of a text. -/
def ofText (t : Text) : TokenSource := ⟨.start t, t.length, [], [], 0, -1, [], true, [], false⟩

/-- The length of the text ahead. -/
def left (source : TokenSource) : Nat := source.size - source.cursor.index

/-- Whether a flow collection is open. -/
def inFlow (source : TokenSource) : Bool := !source.enclosures.isEmpty

/-- The number of open flow collections. -/
def level (source : TokenSource) : Nat := source.enclosures.length

/-- Adds a token. -/
def push (source : TokenSource) (token : Token) : TokenSource :=
  { source with pending := source.pending ++ [token] }

/-- Passes characters. -/
def skip (source : TokenSource) (n : Nat) : TokenSource :=
  { source with cursor := source.cursor.skip n }

/-- Adds a token before the one with the given number. -/
def insert (source : TokenSource) (number : Nat) (token : Token) : TokenSource :=
  let place := number - source.taken
  { source with pending := source.pending.take place ++ token :: source.pending.drop place }

/-- Says whether a key may begin next. -/
def allowKey (source : TokenSource) (allowed : Bool) : TokenSource :=
  { source with keyAllowed := allowed }

/-! ## Possible keys -/

/-- Whether a key that began at a place cannot end at the cursor any more. -/
def isStale (source : TokenSource) (place : KeyPlace) : Bool :=
  place.cursor.line != source.cursor.line || source.cursor.index > place.cursor.index + 1024

/-- Drops the keys that are no longer possible. -/
def dropStale (source : TokenSource) : Except Fault TokenSource :=
  if source.keys.any fun k => source.isStale k.2 && k.2.required then .error .malformed
  else .ok { source with keys := source.keys.filter fun k => !source.isStale k.2 }

/-- The key that is possible on the present level. -/
def key? (source : TokenSource) : Option KeyPlace := source.keys.lookup source.level

/-- Forgets the key of the present level. -/
def forgetKey (source : TokenSource) : TokenSource :=
  { source with keys := source.keys.filter fun k => k.1 != source.level }

/-- Gives up the key of the present level, which must not be required. -/
def giveUpKey (source : TokenSource) : Except Fault TokenSource :=
  if source.key?.any fun place => place.required then .error .malformed
  else .ok source.forgetKey

/-- Remembers that a key may begin with the next token. -/
def noteKey (source : TokenSource) : Except Fault TokenSource :=
  if source.keyAllowed then
    let required := !source.inFlow && source.indent == source.cursor.column
    let place : KeyPlace := ⟨source.taken + source.pending.length, required, source.cursor⟩
    source.giveUpKey.map fun source => { source with keys := (source.level, place) :: source.keys }
  else .ok source

/-! ## Blocks -/

/-- The columns of blocks that end before a column, and those that do not. -/
def unwound (column : Int) (indent : Int) : List Int → Nat × Int × List Int
  | [] => (0, indent, [])
  | next :: rest =>
    if indent > column then
      let (n, last) := unwound column next rest
      (n + 1, last)
    else (0, indent, next :: rest)

/-- Ends the blocks to the right of a column. Inside flow collections columns mean nothing. -/
def unwind (source : TokenSource) (column : Int) : TokenSource :=
  if source.inFlow then source
  else
    let (ended, indent, outer) := unwound column source.indent source.outer
    { source with
      pending := source.pending ++ List.replicate ended .blockEnd
      indent := indent
      outer := outer }

/-- Whether a block would begin in a column. -/
def beginsBlock (source : TokenSource) (column : Nat) : Bool :=
  !source.inFlow && source.indent < column

/-- Begins a block in a column. -/
def indented (source : TokenSource) (column : Nat) : TokenSource :=
  { source with indent := column, outer := source.indent :: source.outer }

/-- Begins a block here, if none of this column is under way. -/
def beginBlock (source : TokenSource) (token : Token) : TokenSource :=
  let column := source.cursor.column
  if source.beginsBlock column then (source.indented column).push token else source

/-! ## Reading a token -/

/-- The end of the text. -/
def readFinish (source : TokenSource) : Except Fault TokenSource :=
  (source.unwind (-1)).giveUpKey.map fun source =>
    { source.push .finish with keyAllowed := false, keys := [], finished := true }

/-- Whether a character can stand in the name of a directive. -/
def isDirectiveCharacter (c : Char) : Bool :=
  c.isAlphanum || "-_:.".toList.contains c

/-- Whether a text goes on with a space, a line end, or nothing. -/
def endsDirectiveWord : Text → Bool
  | [] => true
  | c :: _ => c == ' ' || isBreak c

/-- The first part of a version of two numbers with a point between them, and how many characters
the version takes. -/
def version? (t : Text) : Option (Nat × Nat) :=
  let major := t.takeWhile Char.isDigit
  let minor := (t.drop (major.length + 1)).takeWhile Char.isDigit
  let length := major.length + 1 + minor.length
  match Text.natural? major with
  | none => none
  | some n =>
    if (t.drop major.length).head? == some '.' && !minor.isEmpty &&
        endsDirectiveWord (t.drop length) then
      some (n, length)
    else none

/-- The rest of the line of a directive, on which only a comment may follow. -/
def finishDirective (source : TokenSource) (line : Directive) (cursor : Cursor) :
    Except Fault TokenSource :=
  let ahead := cursor.skip (cursor.rest.takeWhile (· == ' ')).length
  let comment := if ahead.peek? == some '#' then
      (ahead.rest.takeWhile (!isBreak ·)).length
    else 0
  let last := ahead.skip comment
  if last.rest.isEmpty || last.peek?.any isBreak then
    .ok ({ source with cursor := last.skipBreak }.push (.directive line))
  else .error .malformed

/-- Whether a character can stand in the handle of a tag. -/
def isHandleCharacter (c : Char) : Bool := c.isAlphanum || c == '-' || c == '_'

/-- How many characters the handle of a tag takes, which begins and, if it has a name, ends with an
exclamation mark. -/
def handleLength? (t : Text) : Option Nat :=
  match t with
  | '!' :: ' ' :: _ => some 1
  | '!' :: rest =>
    let name := rest.takeWhile isHandleCharacter
    if (rest.drop name.length).head? == some '!' then some (name.length + 2) else none
  | _ => none

/-- Whether a character can stand in the name of a tag. -/
def isTagCharacter (c : Char) : Bool :=
  c.isAlphanum || "-;/?:@&=+$,_.!~*'()[]#".toList.contains c

/-- The bytes that a text begins with, each written as two hexadecimal digits after a percent sign,
and what follows them. -/
def percentBytes : Text → Except Fault (List UInt8 × Text)
  | '%' :: a :: b :: rest =>
    match Text.hexValue? a, Text.hexValue? b with
    | some x, some y =>
      (percentBytes rest).map fun (bytes, t) => (UInt8.ofNat (16 * x + y) :: bytes, t)
    | _, _ => .error .malformed
  | '%' :: _ => .error .malformed
  | t => .ok ([], t)

/-- The name of a tag that a text begins with, and what follows it. -/
def tagName : Nat → Text → Except Fault (Text × Text)
  | 0, t => .ok ([], t)
  | steps + 1, t =>
    match t with
    | [] => .ok ([], [])
    | c :: rest =>
      if c == '%' then
        match percentBytes t with
        | .error fault => .error fault
        | .ok (bytes, rest) =>
          match Utf8.decode bytes with
          | .error _ => .error .malformed
          | .ok part => (tagName steps rest).map fun (name, t) => (part ++ name, t)
      else if isTagCharacter c then (tagName steps rest).map fun (name, t) => (c :: name, t)
      else .ok ([], t)

/-- The name of a tag ahead, which must not be empty, and how many characters it takes. -/
def tagNameAhead (t : Text) : Except Fault (Text × Nat) :=
  match tagName t.length t with
  | .error fault => .error fault
  | .ok (name, rest) =>
    if rest.length = t.length then .error .malformed else .ok (name, t.length - rest.length)

/-- A directive about the handle of a tag. What the handle stands for is taken as it is written. -/
def readHandle (source : TokenSource) (cursor : Cursor) : Except Fault TokenSource :=
  let ahead := cursor.skip (cursor.rest.takeWhile (· == ' ')).length
  match handleLength? ahead.rest with
  | none => .error .malformed
  | some n =>
    let after := ahead.skip n
    let blanks := (after.rest.takeWhile (· == ' ')).length
    let stands := after.skip blanks
    if blanks = 0 then .error .malformed
    else match tagNameAhead stands.rest with
      | .error fault => .error fault
      | .ok (_, length) =>
        let last := stands.skip length
        if endsDirectiveWord last.rest then
          source.finishDirective (.handle (ahead.rest.take n) (stands.rest.take length)) last
        else .error .malformed

/-- A directive. Those that are neither about the version nor about tags say nothing. -/
def readDirective (source : TokenSource) : Except Fault TokenSource :=
  (source.unwind (-1)).giveUpKey.bind fun source =>
    let source := source.allowKey false
    let name := (source.cursor.rest.drop 1).takeWhile isDirectiveCharacter
    let after := source.cursor.skip (name.length + 1)
    if name.isEmpty || !endsDirectiveWord after.rest then .error .malformed
    else if name == "TAG".toList then source.readHandle after
    else if name == "YAML".toList then
      let ahead := after.skip (after.rest.takeWhile (· == ' ')).length
      match version? ahead.rest with
      | none => .error .malformed
      | some (major, length) => source.finishDirective (.version major) (ahead.skip length)
    else
      source.finishDirective .other (after.skip (after.rest.takeWhile (!isBreak ·)).length)

/-- A mark that begins or ends a document. -/
def readDocumentMark (source : TokenSource) : Except Fault TokenSource :=
  let token := if source.cursor.peek? == some '-' then Token.documentStart else .documentEnd
  (source.unwind (-1)).giveUpKey.map fun source => ((source.allowKey false).skip 3).push token

/-- The opening mark of a flow collection, which may begin a key. -/
def readOpening (enclosure : Enclosure) (source : TokenSource) : Except Fault TokenSource :=
  let token := match enclosure with
    | .sequence => Token.openSequence
    | .mapping => .openMapping
  source.noteKey.map fun source =>
    let inside := { source with enclosures := enclosure :: source.enclosures }
    ((inside.allowKey true).skip 1).push token

/-- The closing mark of a flow collection. -/
def readClosing (token : Token) (source : TokenSource) : Except Fault TokenSource :=
  source.giveUpKey.map fun source =>
    let outside := { source with enclosures := source.enclosures.drop 1 }
    ((outside.allowKey false).skip 1).push token

/-- A comma. -/
def readComma (source : TokenSource) : Except Fault TokenSource :=
  source.giveUpKey.map fun source => ((source.allowKey true).skip 1).push .comma

/-- The dash of an item. -/
def readDash (source : TokenSource) : Except Fault TokenSource :=
  if !source.inFlow && !source.keyAllowed then .error .malformed
  else (source.beginBlock .blockSequence).giveUpKey.map fun source =>
    ((source.allowKey true).skip 1).push .dash

/-- The question mark before a key. -/
def readKey (source : TokenSource) : Except Fault TokenSource :=
  if !source.inFlow && !source.keyAllowed then .error .malformed
  else (source.beginBlock .blockMapping).giveUpKey.map fun source =>
    ((source.allowKey (!source.inFlow)).skip 1).push .key

/-- The colon before a value. If a key was possible, it has been one. -/
def readValue (source : TokenSource) : Except Fault TokenSource :=
  match source.key? with
  | some place =>
    let marked := source.forgetKey.insert place.token .key
    let column := place.cursor.column
    let begun := if marked.beginsBlock column then
        (marked.indented column).insert place.token .blockMapping
      else marked
    .ok (((begun.allowKey false).skip 1).push .value)
  | none =>
    if !source.inFlow && !source.keyAllowed then .error .malformed
    else (source.beginBlock .blockMapping).giveUpKey.map fun source =>
      ((source.allowKey (!source.inFlow)).skip 1).push .value

/-- Whether a character can stand in the name of a node. -/
def isNameCharacter (c : Char) : Bool :=
  !isFlowMark c && !isByteOrderMark c && isAdmitted c && !isInnerBlank c &&
    (!isBreak c || isSeparator c)

/-- Whether a text can follow the name of a node. -/
def endsName (t : Text) : Bool :=
  match t with
  | [] => true
  | c :: _ => isInnerBlank c || isBreak c || isFlowMark c

/-- The name that is given to a node, or that stands for one; it may begin a key. -/
def readName (token : Text → Token) (source : TokenSource) : Except Fault TokenSource :=
  let name := (source.cursor.rest.drop 1).takeWhile isNameCharacter
  let after := source.cursor.skip (name.length + 1)
  source.noteKey.bind fun source =>
    if name.isEmpty || !endsName after.rest then .error .malformed
    else .ok ({ source.allowKey false with cursor := after }.push (token name))

/-- The tag ahead, which begins with one exclamation mark or two, and how many characters it takes:
in full between angle brackets, after a handle, or nothing at all. A handle with a name begins with
the last of the first marks. -/
def tagAhead (t : Text) : Except Fault (Token × Nat) :=
  let marks := (t.take 2).takeWhile (· == '!')
  let rest := t.drop marks.length
  if rest.head? == some '<' then
    match tagNameAhead (rest.drop 1) with
    | .error fault => .error fault
    | .ok (name, n) =>
      if (rest.drop (n + 1)).head? == some '>' then .ok (.tag none name, marks.length + n + 2)
      else .error .malformed
  else if breaksOff rest then .ok (.tag none marks, marks.length)
  else
    let word := rest.takeWhile fun c => c != ' ' && !isBreak c
    let passed := marks.length - 1
    let handle :=
      if word.contains '!' then
        (handleLength? (t.drop passed)).map fun n => ((t.drop passed).take n, passed + n)
      else some (marks, marks.length)
    match handle with
    | none => .error .malformed
    | some (handle, k) =>
      (tagNameAhead (t.drop k)).map fun (name, n) => (.tag (some handle) name, k + n)

/-- A tag, which may begin a key. -/
def readTag (source : TokenSource) : Except Fault TokenSource :=
  source.noteKey.bind fun source =>
    match tagAhead source.cursor.rest with
    | .error fault => .error fault
    | .ok (token, n) =>
      let after := (source.allowKey false).skip n
      if endsDirectiveWord after.cursor.rest then .ok (after.push token) else .error .malformed

/-- A scalar in quotes, which may be a key. -/
def readQuoted (source : TokenSource) : Except Fault TokenSource :=
  source.noteKey.bind fun source =>
    (quoted source.cursor).map fun (codes, cursor) =>
      { source.allowKey false with cursor := cursor }.push (.scalar (.ofPoints codes) false)

/-- A plain scalar, which may be a key. If a line ends after it, a key may begin next. -/
def readPlain (source : TokenSource) : Except Fault TokenSource :=
  source.noteKey.map fun source =>
    let read := plain source.inFlow (source.indent + 1) source.left false source.cursor
    { source.allowKey read.crossed with cursor := read.cursor }.push
      (.scalar (.text read.text) true)

/-- A scalar written as a block of lines. -/
def readBlockScalar (source : TokenSource) : Except Fault TokenSource :=
  source.giveUpKey.bind fun source =>
    (blockScalar source.indent source.cursor).map fun (t, cursor) =>
      { source.allowKey true with cursor := cursor }.push (.scalar (.text t) false)

/-- Whether the colon ahead, `rest` following it, stands before a value. In flow collections it need
not be followed by a blank, except in a sequence and right after another such colon. -/
def isValueMark (source : TokenSource) (rest : Text) : Bool :=
  match source.enclosures with
  | [] => breaksOff rest
  | .sequence :: _ => breaksOff rest
  | .mapping :: _ => source.pending.getLast? != some .value || breaksOff rest

/-- Reads the token that begins with a character, `rest` following it. -/
def readFrom (source : TokenSource) (c : Char) (rest : Text) : Except Fault TokenSource :=
  if c == '[' then source.readOpening .sequence
  else if c == '\x7b' then source.readOpening .mapping
  else if c == ']' then source.readClosing .closeSequence
  else if c == '\x7d' then source.readClosing .closeMapping
  else if c == ',' then source.readComma
  else if c == '-' && breaksOff rest then source.readDash
  else if c == '?' && (source.inFlow || breaksOff rest) then source.readKey
  else if c == ':' && source.isValueMark rest then source.readValue
  else if c == '*' then source.readName .alias
  else if c == '&' then source.readName .anchor
  else if c == '!' then source.readTag
  else if (c == '|' || c == '>') && !source.inFlow then source.readBlockScalar
  else if c == '\'' || c == '"' then source.readQuoted
  else if beginsPlain source.inFlow c rest then source.readPlain
  else .error .malformed

/-- Reads the next token, with the ends of the blocks before it. -/
def readNext (source : TokenSource) : Except Fault TokenSource :=
  let (ahead, crossed) := source.cursor.skipGap source.inFlow
  let keyAllowed := source.keyAllowed || (crossed && !source.inFlow)
  ({ source with cursor := ahead, keyAllowed := keyAllowed }).dropStale.bind fun source =>
    let source := source.unwind source.cursor.column
    match source.cursor.rest with
    | [] => source.readFinish
    | c :: rest =>
      if c == '%' && source.cursor.column == 0 then source.readDirective
      else if source.cursor.isBeforeDocumentMark then source.readDocumentMark
      else source.readFrom c rest

/-! ## Taking tokens -/

/-- Reads on until the first token is there and begins no key that is only possible, in so many
steps at most. -/
def prepareWithin : Nat → TokenSource → Except Fault TokenSource
  | 0, source => .ok source
  | steps + 1, source =>
    if source.finished then .ok source
    else if source.pending.isEmpty then source.readNext.bind (prepareWithin steps)
    else source.dropStale.bind fun source =>
      if source.keys.any fun k => k.2.token == source.taken then
        source.readNext.bind (prepareWithin steps)
      else .ok source

/-- Reads on until the first token is there and begins no key that is only possible. Every step
passes a character or reaches the end. -/
def prepare (source : TokenSource) : Except Fault TokenSource :=
  prepareWithin (source.left + 2) source

/-- The first token, which is left where it is. -/
def peek (source : TokenSource) : Except Fault (Token × TokenSource) :=
  source.prepare.map fun source => (source.pending.headD .finish, source)

/-- Takes the first token. -/
def drop (source : TokenSource) : TokenSource :=
  { source with pending := source.pending.drop 1, taken := source.taken + 1 }

end TokenSource
end Yaml
end Stencil
