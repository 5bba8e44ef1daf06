import Stencil.Expression.Basic
import Stencil.Text.Word

/-!
# Tokens of an expression

The text of an expression is a row of tokens with whitespace between them. There are five classes
of token, tried in a fixed order; each takes as much as its shape allows. A quoted literal runs to
its closing quote, a backslash protecting the next character unless that is a line feed. A numeral
must not run on into a word or a point. A path is a name, perhaps marked by a dollar sign, with
further words after points; a path that spells a keyword, in capitals or not, is that keyword.

Each class is given by the length of the lexeme at the front of a text, zero if there is none, so
that the tokens and the gaps between them are pieces of the text by construction.
-/

namespace Stencil

/-- The kinds of token. -/
inductive Token.Kind where
  | text
  | number
  | comparison
  | parenthesis
  | path
  | keyword
  /-- The end of the text. -/
  | finish
  deriving DecidableEq, Repr

/-- A token, with the text that it covers (small letters for a keyword) and where it starts. -/
structure Token where
  kind : Token.Kind
  text : Text
  position : Nat
  deriving DecidableEq, Repr

namespace Token

/-- The number of characters at the front of a text that satisfy a condition. -/
def run (p : Char → Bool) (t : Text) : Nat := (t.takeWhile p).length

/-- The length of the rest of a quoted literal, its closing quote included. -/
def closing? (quote : Char) : Text → Option Nat
  | [] => none
  | '\\' :: [] => none
  | '\\' :: c :: rest => if c = '\n' then none else (closing? quote rest).map (· + 2)
  | c :: rest => if c = quote then some 1 else (closing? quote rest).map (· + 1)

/-- The length of the quoted literal at the front. -/
def literalLength : Text → Nat
  | c :: rest =>
    if c = '"' || c = '\'' then
      match closing? c rest with
      | some n => n + 1
      | none => 0
    else 0
  | [] => 0

/-- The length of a point and the digits after it. -/
def fractionLength : Text → Nat
  | '.' :: rest => match run Text.isDecimal rest with
    | 0 => 0
    | n + 1 => n + 2
  | _ => 0

/-- The length of a minus sign. -/
def minusLength : Text → Nat
  | '-' :: _ => 1
  | _ => 0

/-- Whether a text goes on with a word or a point. -/
def runsOn : Text → Bool
  | c :: _ => Text.isWord c || c = '.'
  | [] => false

/-- The length of the numeral at the front. -/
def numberLength (t : Text) : Nat :=
  let minus := minusLength t
  let whole := run Text.isDecimal (t.drop minus)
  if whole = 0 then 0
  else
    let length := minus + whole + fractionLength (t.drop (minus + whole))
    if runsOn (t.drop length) then 0 else length

/-- The length of the comparison sign at the front, the two-character signs having precedence. -/
def comparisonLength (t : Text) : Nat :=
  match Comparison.all.find? fun c => c.sign.isPrefixOf t with
  | some c => c.sign.length
  | none => 0

/-- The length of the parenthesis at the front. -/
def parenthesisLength : Text → Nat
  | c :: _ => if c = '(' || c = ')' then 1 else 0
  | [] => 0

/-- The length of the rest of a path after its first character: word characters, and points that a
word character follows. -/
def pathTail : Text → Nat
  | [] => 0
  | c :: rest =>
    if Text.isWord c then pathTail rest + 1
    else if c = '.' then
      match rest with
      | d :: _ => if Text.isWord d then pathTail rest + 1 else 0
      | [] => 0
    else 0

/-- The length of a dollar sign. -/
def dollarLength : Text → Nat
  | '$' :: _ => 1
  | _ => 0

/-- The length of the path at the front. -/
def pathLength (t : Text) : Nat :=
  match t.drop (dollarLength t) with
  | c :: rest => if Text.startsName c then dollarLength t + 1 + pathTail rest else 0
  | [] => 0

/-- The classes of token in the order in which they are tried. -/
def classes : List (Kind × (Text → Nat)) :=
  [(.text, literalLength), (.number, numberLength), (.comparison, comparisonLength),
   (.parenthesis, parenthesisLength), (.path, pathLength)]

/-- The first class that applies at the front of a text, with the length of its lexeme. -/
def first? (t : Text) : Option (Kind × Nat) :=
  classes.findSome? fun c => if c.2 t = 0 then none else some (c.1, c.2 t)

/-- The words that are not names. -/
def keywords : List Text :=
  ["and", "or", "not", "true", "false", "null"].map Text.ofString

/-- The token of a lexeme. -/
def ofLexeme (kind : Kind) (lexeme : Text) (position : Nat) : Token :=
  if kind = .path && keywords.contains (Text.lowerAscii lexeme) then
    ⟨.keyword, Text.lowerAscii lexeme, position⟩
  else ⟨kind, lexeme, position⟩

/-- A character at which no class of token applies. -/
structure Fault where
  character : Char
  position : Nat
  deriving DecidableEq, Repr

/-- The tokens of the rest of a text of which `place` characters have been passed. -/
def scanFrom (place : Nat) : Text → Except Fault (List Token)
  | [] => .ok [⟨.finish, [], place⟩]
  | c :: rest =>
    if Text.isBlank c then scanFrom (place + 1) rest
    else match first? (c :: rest) with
      | none => .error ⟨c, place⟩
      | some (kind, length) =>
        (scanFrom (place + length) (rest.drop (length - 1))).map
          (ofLexeme kind ((c :: rest).take length) place :: ·)
  termination_by t => t.length
  decreasing_by all_goals simp only [List.length_cons, List.length_drop]; omega

/-- The tokens of a text, the last of them its end; or the first character at which none
starts. -/
def scan (t : Text) : Except Fault (List Token) := scanFrom 0 t

/-- The wording of the refusal of a character. -/
def Fault.message (fault : Fault) : String :=
  let character := String.ofList [fault.character]
  let position := fault.position
  s!"Unexpected character '{character}' at position {position}"

end Token
end Stencil
