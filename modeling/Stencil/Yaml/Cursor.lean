import Stencil.Text.Basic

/-!
# Places in a YAML text

The structure of a document depends on lines and columns, so a `Cursor` stands somewhere in a text
and knows both. Five characters are breaks: they end a word, a comment and a line of a scalar, and a
carriage return with the line feed after it is one break. But only at a carriage return or a line
feed does a new line begin; the other three are followed by further columns of the same line. Two of
them, the line and paragraph separators, are kept as they are where scalars are folded.

Between two tokens there is a gap of spaces, breaks and comments, inside flow collections also of
tabs.
-/

namespace Stencil
namespace Yaml

/-- The characters that a document may have. -/
def isAdmitted (c : Char) : Bool :=
  let n := c.toNat
  n == 0x09 || n == 0x0A || n == 0x0D || (0x20 ≤ n && n ≤ 0x7E) || n == 0x85 ||
    (0xA0 ≤ n && n ≤ 0xD7FF) || (0xE000 ≤ n && n ≤ 0xFFFD) || 0x10000 ≤ n

/-- The byte order mark, which takes no column. -/
def isByteOrderMark (c : Char) : Bool := c.toNat == 0xFEFF

/-- The characters at which a new line begins. -/
def beginsLine (c : Char) : Bool := c == '\n' || c == '\r'

/-- The line and paragraph separators. -/
def isSeparator (c : Char) : Bool := c.toNat == 0x2028 || c.toNat == 0x2029

/-- All breaks. -/
def isBreak (c : Char) : Bool := beginsLine c || c.toNat == 0x85 || isSeparator c

/-- A blank inside a line. -/
def isInnerBlank (c : Char) : Bool := c == ' ' || c == '\t'

/-- Whether a text goes on with a blank, a break, or nothing. -/
def breaksOff : Text → Bool
  | [] => true
  | c :: _ => isInnerBlank c || isBreak c

/-- The characters that structure flow collections. -/
def isFlowMark (c : Char) : Bool :=
  c == ',' || c == '[' || c == ']' || c == '\x7b' || c == '\x7d'

/-- The breaks of a text, each as the character that it is read as. -/
def lineEnds : Text → Text
  | [] => []
  | '\r' :: '\n' :: rest => '\n' :: lineEnds rest
  | c :: rest =>
    if isSeparator c then c :: lineEnds rest
    else if isBreak c then '\n' :: lineEnds rest
    else lineEnds rest

/-- How breaks inside a scalar are read: a single one is a space, and of several the first is
dropped. -/
def folded : Text → Text
  | ['\n'] => [' ']
  | '\n' :: more => more
  | ends => ends

/-- A place in a text. -/
structure Cursor where
  rest : Text
  /-- How many characters have been passed. -/
  index : Nat
  line : Nat
  column : Nat

namespace Cursor

/-- The beginning of a text. -/
def start (t : Text) : Cursor := ⟨t, 0, 0, 0⟩

/-- The cursor after one character. -/
def next (cursor : Cursor) : Cursor :=
  match cursor.rest with
  | [] => cursor
  | c :: rest =>
    if beginsLine c && !(c == '\r' && rest.head? == some '\n') then
      ⟨rest, cursor.index + 1, cursor.line + 1, 0⟩
    else
      ⟨rest, cursor.index + 1, cursor.line, cursor.column + if isByteOrderMark c then 0 else 1⟩

/-- The cursor after a number of characters. -/
def skip (cursor : Cursor) : Nat → Cursor
  | 0 => cursor
  | n + 1 => cursor.next.skip n

/-- The first character ahead. -/
def peek? (cursor : Cursor) : Option Char := cursor.rest.head?

/-- The cursor after the break ahead, if there is one. -/
def skipBreak (cursor : Cursor) : Cursor :=
  match cursor.rest with
  | '\r' :: '\n' :: _ => cursor.skip 2
  | c :: _ => if isBreak c then cursor.next else cursor
  | [] => cursor

/-- Whether a mark of three dashes or points stands alone ahead. -/
def isBeforeMark (cursor : Cursor) : Bool :=
  (cursor.rest.take 3 == ['-', '-', '-'] || cursor.rest.take 3 == ['.', '.', '.']) &&
    breaksOff (cursor.rest.drop 3)

/-- Whether a mark that begins or ends a document stands ahead, at the beginning of a line. -/
def isBeforeDocumentMark (cursor : Cursor) : Bool := cursor.column == 0 && cursor.isBeforeMark

end Cursor

/-- The length of a gap, and whether there is a break in it. -/
def measureGap (inFlow inComment : Bool) : Text → Nat × Bool
  | [] => (0, false)
  | c :: rest =>
    if isBreak c then ((measureGap inFlow false rest).1 + 1, true)
    else if inComment || c == '#' then
      let (n, crossed) := measureGap inFlow true rest
      (n + 1, crossed)
    else if c == ' ' || (inFlow && c == '\t') then
      let (n, crossed) := measureGap inFlow false rest
      (n + 1, crossed)
    else (0, false)

/-- The cursor after a gap, and whether there is a break in the gap. A byte order mark may begin the
text. -/
def Cursor.skipGap (inFlow : Bool) (cursor : Cursor) : Cursor × Bool :=
  let isMarked := cursor.index == 0 && cursor.peek?.any isByteOrderMark
  let begun := if isMarked then cursor.next else cursor
  let (n, crossed) := measureGap inFlow false begun.rest
  (begun.skip n, crossed)

end Yaml
end Stencil
