import Stencil.Yaml.Cursor
import Stencil.Yaml.Fault

/-!
# The text of scalars

A scalar is written in one of five ways: plain; between apostrophes or double quotes; or as a block
of lines, each line for itself or folded. All of them may go on over several lines. How the breaks
between the lines are read depends on the way of writing; what a text denotes does not belong here.

An escape between double quotes can name a surrogate, so what stands between them is read as code
points.
-/

namespace Stencil
namespace Yaml

/-- What is written in a scalar: a text, or code points if there is a surrogate among them. -/
inductive Content where
  | text (t : Text)
  | points (codes : List Nat)
  deriving DecidableEq, Repr

/-- The content that code points spell. -/
def Content.ofPoints (codes : List Nat) : Content :=
  match Text.ofPoints? codes with
  | some t => .text t
  | none => .points codes

/-! ## Plain scalars -/

/-- The length of the word that a text begins with. -/
def wordLength (flow : Bool) : Text → Nat
  | [] => 0
  | c :: rest =>
    if isInnerBlank c || isBreak c || (c == ':' && breaksOff rest) || (flow && isFlowMark c)
    then 0
    else wordLength flow rest + 1

/-- Whether a character can begin a plain scalar, `rest` following it. -/
def beginsPlain (flow : Bool) (c : Char) (rest : Text) : Bool :=
  if isInnerBlank c || isBreak c then false
  else if c == '-' then !breaksOff rest
  else if c == ':' then !breaksOff rest || (flow && !rest.head?.any isInnerBlank)
  else if c == '?' then !flow && !breaksOff rest
  else !(isFlowMark c || "#&*!|>'\"%@`".toList.contains c)

/-- What has been read of a scalar. -/
structure Excerpt where
  text : Text
  cursor : Cursor
  /-- Whether there was a break after the last word. -/
  crossed : Bool

/-- Whether a mark stands alone after a gap that ends with a break. -/
def marked (gap rest : Text) : Bool :=
  gap.getLast?.any isBreak && (Cursor.start rest).isBeforeMark

/-- A plain scalar from a word on. The words of a block scalar must stand in the column `indent` or
to the right of it. -/
def plain (flow : Bool) (indent : Int) : Nat → Bool → Cursor → Excerpt
  | 0, crossed, cursor => ⟨[], cursor, crossed⟩
  | fuel + 1, crossed, cursor =>
    let length := if cursor.peek? == some '#' then 0 else wordLength flow cursor.rest
    if length = 0 then ⟨[], cursor, crossed⟩
    else
      let word := cursor.rest.take length
      let after := cursor.skip length
      let gap := after.rest.takeWhile fun c => c == ' ' || isBreak c
      let ahead := after.skip gap.length
      let ends := lineEnds gap
      if gap.isEmpty || marked gap ahead.rest ||
          (!flow && (ahead.column : Int) < indent) then
        ⟨word, ahead, !ends.isEmpty⟩
      else
        let more := plain flow indent fuel (!ends.isEmpty) ahead
        if more.text.isEmpty then { more with text := word }
        else { more with text := word ++ (if ends.isEmpty then gap else folded ends) ++ more.text }

/-! ## Quoted scalars -/

/-- Whether a character belongs to a gap inside quotes. -/
def isQuotedGap (c : Char) : Bool := isInnerBlank c || isBreak c

/-- How a gap inside quotes is read. -/
def readGap (gap : Text) : Text :=
  let ends := lineEnds gap
  if ends.isEmpty then gap else folded ends

/-- Reads a scalar between apostrophes, of which the first has been passed; gives its text and how
many characters it takes. -/
def singleQuoted : Text → Except Fault (Text × Nat)
  | [] => .error .malformed
  | '\'' :: '\'' :: rest => (singleQuoted rest).map fun (t, n) => ('\'' :: t, n + 2)
  | '\'' :: _ => .ok ([], 1)
  | c :: rest =>
    if isQuotedGap c then
      let gap := rest.takeWhile isQuotedGap
      if marked (c :: gap) (rest.drop gap.length) then .error .malformed
      else (singleQuoted (rest.drop gap.length)).map fun (t, n) =>
        (readGap (c :: gap) ++ t, n + gap.length + 1)
    else (singleQuoted rest).map fun (t, n) => (c :: t, n + 1)
  termination_by t => t.length
  decreasing_by all_goals simp only [List.length_cons, List.length_drop]; omega

/-- The character that a one-letter escape stands for. -/
def escaped? (c : Char) : Option Char :=
  match c with
  | '0' => some (Char.ofNat 0)
  | 'a' => some (Char.ofNat 7)
  | 'b' => some (Char.ofNat 8)
  | 't' => some '\t'
  | '\t' => some '\t'
  | 'n' => some '\n'
  | 'v' => some (Char.ofNat 11)
  | 'f' => some (Char.ofNat 12)
  | 'r' => some '\r'
  | 'e' => some (Char.ofNat 27)
  | ' ' => some ' '
  | '"' => some '"'
  | '/' => some '/'
  | '\\' => some '\\'
  | 'N' => some (Char.ofNat 0x85)
  | '_' => some (Char.ofNat 0xA0)
  | 'L' => some (Char.ofNat 0x2028)
  | 'P' => some (Char.ofNat 0x2029)
  | _ => none

/-- The code point that the hexadecimal digits of an escape name. -/
def hexEscape (width : Nat) (t : Text) : Except Fault Nat :=
  let digits := (t.take width).filterMap Text.hexValue?
  let n := Text.ofDigits 16 digits
  if digits.length < width then .error .malformed
  else if n ≥ Nat.pow 2 31 then .error .oversizedEscape
  else if n > 0x10FFFF then .error .noCharacter
  else .ok n

/-- Reads a scalar between double quotes, of which the first has been passed; gives its code points
and how many characters it takes. A backslash before a break takes it away. -/
def doubleQuoted : Text → Except Fault (List Nat × Nat)
  | [] => .error .malformed
  | '"' :: _ => .ok ([], 1)
  | '\\' :: c :: rest =>
    if isBreak c then
      let gap := (c :: rest).takeWhile isQuotedGap
      if marked gap (rest.drop (gap.length - 1)) then .error .malformed
      else (doubleQuoted (rest.drop (gap.length - 1))).map fun (codes, n) =>
        (Text.points ((lineEnds gap).drop 1) ++ codes, n + gap.length + 1)
    else match escaped? c, Text.escapeWidth? c with
      | some d, _ => (doubleQuoted rest).map fun (codes, n) => (d.toNat :: codes, n + 2)
      | none, none => .error .malformed
      | none, some width =>
        match hexEscape width rest with
        | .error fault => .error fault
        | .ok d =>
          (doubleQuoted (rest.drop width)).map fun (codes, n) => (d :: codes, n + 2 + width)
  | c :: rest =>
    if isQuotedGap c then
      let gap := rest.takeWhile isQuotedGap
      if marked (c :: gap) (rest.drop gap.length) then .error .malformed
      else (doubleQuoted (rest.drop gap.length)).map fun (codes, n) =>
        (Text.points (readGap (c :: gap)) ++ codes, n + gap.length + 1)
    else (doubleQuoted rest).map fun (codes, n) => (c.toNat :: codes, n + 1)
  termination_by t => t.length
  decreasing_by all_goals simp only [List.length_cons, List.length_drop]; omega

/-- Reads the quoted scalar ahead. -/
def quoted (cursor : Cursor) : Except Fault (List Nat × Cursor) :=
  let read := match cursor.rest with
    | '"' :: rest => doubleQuoted rest
    | _ => (singleQuoted (cursor.rest.drop 1)).map fun (t, n) => (Text.points t, n)
  read.map fun (codes, n) => (codes, cursor.skip (n + 1))

/-! ## Block scalars -/

/-- Which line ends at the end of a block scalar are kept. -/
inductive Chomping where
  | none
  | first
  | all
  deriving DecidableEq, Repr

/-- What stands behind the sign of a block scalar. -/
structure BlockHeader where
  chomping : Chomping
  /-- By how many columns the lines are indented, if that is said. -/
  increment : Option Nat
  /-- How many characters the header takes. -/
  length : Nat

/-- The number that an ASCII digit other than zero stands for. -/
def increment? (c : Char) : Option Nat :=
  if '1' ≤ c ∧ c ≤ '9' then some (c.toNat - 0x30) else none

/-- The part of a header that says which line ends are kept. -/
def chomping? : Char → Option Chomping
  | '+' => some .all
  | '-' => some .none
  | _ => none

/-- The header of a block scalar; its two parts may stand in either order. -/
def blockHeader (t : Text) : BlockHeader :=
  match t.head?.bind chomping?, t.head?.bind increment? with
  | some chomping, _ =>
    match (t.drop 1).head?.bind increment? with
    | some n => ⟨chomping, some n, 2⟩
    | none => ⟨chomping, none, 1⟩
  | none, some n =>
    match (t.drop 1).head?.bind chomping? with
    | some chomping => ⟨chomping, some n, 2⟩
    | none => ⟨.first, some n, 1⟩
  | none, none => ⟨.first, none, 0⟩

/-- The cursor after the line of a header, on which only a comment may follow. -/
def afterHeader (cursor : Cursor) : Except Fault Cursor :=
  let blanks := (cursor.rest.takeWhile (· == ' ')).length
  let ahead := cursor.skip blanks
  let comment := if blanks > 0 && ahead.peek? == some '#' then
      (ahead.rest.takeWhile (!isBreak ·)).length
    else 0
  let last := ahead.skip comment
  match last.rest with
  | [] => .ok last
  | c :: _ => if isBreak c then .ok last.skipBreak else .error .malformed

/-- The cursor after the spaces ahead, up to a column. -/
def skipIndent (indent : Nat) (cursor : Cursor) : Cursor :=
  cursor.skip (min (indent - cursor.column) (cursor.rest.takeWhile (· == ' ')).length)

/-- The line ends of the empty lines ahead, and the cursor after them. -/
def emptyLines (indent : Nat) : Nat → Cursor → Text × Cursor
  | 0, cursor => ([], cursor)
  | fuel + 1, cursor =>
    let cursor := skipIndent indent cursor
    if cursor.peek?.any isBreak then
      let ends := lineEnds (cursor.rest.take (cursor.rest.length - cursor.skipBreak.rest.length))
      let (more, after) := emptyLines indent fuel cursor.skipBreak
      (ends ++ more, after)
    else ([], cursor)

/-- The lines of a block scalar. -/
structure BlockLines where
  text : Text
  /-- The line end of the last line. -/
  lineEnd : Text
  /-- The line ends of the empty lines after it. -/
  empty : Text
  cursor : Cursor

/-- Whether a text goes on with a blank inside a line. -/
def startsBlank (t : Text) : Bool := t.head?.any isInnerBlank

/-- Reads the lines of a block scalar, a line being ahead in the column `indent`; `empty` are the
line ends before it. A document mark ends a scalar that need not be indented. -/
def blockLines (isFolded outermost : Bool) (indent : Nat) : Nat → Text → Cursor → BlockLines
  | 0, empty, cursor => ⟨[], [], empty, cursor⟩
  | fuel + 1, empty, cursor =>
    let line := cursor.rest.takeWhile (!isBreak ·)
    let after := cursor.skip line.length
    let lineEnd := lineEnds (after.rest.take 1)
    let (more, ahead) := emptyLines indent (after.rest.length + 1) after.skipBreak
    let goesOn := ahead.column == indent && !ahead.rest.isEmpty &&
      !(outermost && ahead.isBeforeDocumentMark)
    if goesOn then
      let joint := if isFolded && lineEnd == ['\n'] && !startsBlank line &&
          !startsBlank ahead.rest then
          if more.isEmpty then [' '] else []
        else lineEnd
      let rest := blockLines isFolded outermost indent fuel more ahead
      { rest with text := empty ++ line ++ joint ++ rest.text }
    else ⟨empty ++ line, lineEnd, more, ahead⟩

/-- What the spaces and breaks before the first line of a block scalar say about its column. -/
structure Margin where
  column : Nat
  /-- The column of the first break. -/
  firstBreak : Option Nat
  /-- The rightmost column after a space. -/
  deepest : Nat

/-- The margin after further spaces and breaks. -/
def Margin.pass (m : Margin) : Text → Margin
  | [] => m
  | '\r' :: '\n' :: rest => pass { m with column := 0, firstBreak := m.firstBreak.or m.column } rest
  | c :: rest =>
    if c == ' ' then
      pass { m with column := m.column + 1, deepest := max m.deepest (m.column + 1) } rest
    else
      pass { m with
        column := if beginsLine c then 0 else m.column + 1
        firstBreak := m.firstBreak.or m.column } rest

/-- Where the lines of a block scalar stand whose header does not say so: the indentation of the
first line that is not empty. No empty line may be indented further than the first of them, if that
one is indented. -/
def findIndent (least : Nat) (cursor : Cursor) : Except Fault (Nat × Text × Cursor) :=
  let gap := cursor.rest.takeWhile fun c => c == ' ' || isBreak c
  let m := Margin.pass ⟨cursor.column, none, 0⟩ gap
  if m.firstBreak.any fun first => first > 0 && m.deepest > first then .error .malformed
  else .ok (max least m.deepest, lineEnds gap, cursor.skip gap.length)

/-- Reads the block scalar ahead; it belongs to a node in the column `parent`. -/
def blockScalar (parent : Int) (cursor : Cursor) : Except Fault (Text × Cursor) :=
  let header := blockHeader (cursor.rest.drop 1)
  let least := (parent + 1).toNat
  match afterHeader (cursor.skip (header.length + 1)) with
  | .error fault => .error fault
  | .ok cursor' =>
    let found := match header.increment with
      | none => findIndent least cursor'
      | some n =>
        let indent := max least 1 + n - 1
        let (empty, ahead) := emptyLines indent (cursor'.rest.length + 1) cursor'
        .ok (indent, empty, ahead)
    found.map fun (indent, empty, ahead) =>
      let lines := if ahead.column == indent && !ahead.rest.isEmpty then
          blockLines (cursor.peek? == some '>') (least == 0) indent ahead.rest.length empty ahead
        else ⟨[], [], empty, ahead⟩
      let ending := match header.chomping with
        | .none => []
        | .first => lines.lineEnd
        | .all => lines.lineEnd ++ lines.empty
      (lines.text ++ ending, lines.cursor)

end Yaml
end Stencil
