import Stencil.Program.Generation

/-!
# The standard grammar

Three families share the opening brace. Comments, between a brace and an asterisk, come first;
then `echo` tags, whose text is an expression; then statements. Statements are the loops `foreach`
and `for`, the conditional `if` with its continuations `elseif` and `else`, each a tag of its own
after the other's closing tag, the verbatim tag `literal`, and as anonymous tag the output of an
expression that starts with a dollar sign.
-/

namespace Stencil
namespace Standard

variable [Host]

/-- What an expression is missed by, or shown with: the name of the tag, or its family. -/
def label (head : TagHead) : Text :=
  match head.name with
  | some (c :: name) => c :: name
  | _ => head.family.asText

/-- The expression that a text spells, needed for a purpose. -/
def expression (head : TagHead) (t : Text) (purpose : Purpose) :
    Except CompileFault Expression :=
  let t := Text.trim t
  if t.isEmpty then .error (.missingExpression (label head) purpose head.position)
  else match Expression.read Host.reading t with
    | .ok e => .ok e
    | .error (.refused reason _) => .error (.badExpression purpose t reason head.position)
    | .error .tooDeep => .error (.deepExpression purpose head.position)
    | .error fault => .error (.escaped fault)

/-- The value of an expression. -/
def echo (tag : Occurrence) (_ : Fragment) : Except CompileFault Fragment :=
  let source := Text.trim tag.head.raw
  (expression tag.head source .expression).map fun e =>
    [.expression e source (some tag.head.position)]

/-- The value of an expression that starts with a dollar sign; any other text is a tag that nobody
knows. -/
def output (tag : Occurrence) (inner : Fragment) : Except CompileFault Fragment :=
  match Text.trim tag.head.raw with
  | '$' :: _ => echo tag inner
  | source =>
    .error (.unknownTag (Text.firstWord source) tag.head.family.asText tag.head.position)

/-- Nothing. -/
def comment (_ : Occurrence) (_ : Fragment) : Except CompileFault Fragment := .ok []

/-- The start of a chain. -/
def conditional (tag : Occurrence) (inner : Fragment) : Except CompileFault Fragment :=
  let source := Text.trim tag.head.raw
  (expression tag.head source .condition).map fun e =>
    [.branch e inner source (some tag.head.position)]

/-- The continuation of a chain. -/
def alternative (tag : Occurrence) (inner : Fragment) : Except CompileFault Fragment :=
  let source := Text.trim tag.head.raw
  (expression tag.head source .condition).map fun e =>
    [.elseBranch e inner source (some tag.head.position)]

/-- The end of a chain. -/
def otherwise (tag : Occurrence) (inner : Fragment) : Except CompileFault Fragment :=
  .ok [.otherwise inner (some tag.head.position)]

/-- The name that a loop variable has: a name, perhaps marked by a dollar sign. -/
def target? (element : Text) : Option Text :=
  match element.drop (Token.dollarLength element) with
  | c :: rest => if Text.startsName c && rest.all Text.isWord then some (c :: rest) else none
  | [] => none

/-- The argument of a name, if it is not empty. -/
def argument? (head : TagHead) (name : String) : Option Text :=
  (head.arguments.find? (Text.ofString name)).filter (!·.isEmpty)

/-- A loop over a collection. -/
def loop (mode : LoopMode) (tag : Occurrence) (inner : Fragment) :
    Except CompileFault Fragment :=
  let head := tag.head
  match argument? head "element", argument? head "object" with
  | some element, some collection =>
    match target? element with
    | none => .error (.badVariable element head.position)
    | some target =>
      (expression head collection .collection).map fun e =>
        [.loop target e inner mode collection (some head.position)]
  | _, _ => .error (.badLoop head.name (Text.trim head.raw) head.position)

/-- What the tag holds. -/
def literal (_ : Occurrence) (inner : Fragment) : Except CompileFault Fragment := .ok inner

/-- The standard handlers. -/
def handlers : List Handler :=
  [⟨Text.ofString "echo", echo⟩, ⟨Text.ofString "output", output⟩,
   ⟨Text.ofString "comment", comment⟩, ⟨Text.ofString "if", conditional⟩,
   ⟨Text.ofString "elseif", alternative⟩, ⟨Text.ofString "else", otherwise⟩,
   ⟨Text.ofString "each", loop .each⟩, ⟨Text.ofString "for", loop .index⟩,
   ⟨Text.ofString "literal", literal⟩]

/-- The standard handlers under their names. -/
def library : Library := Library.ofHandlers handlers

/-- The argument pattern of the loops. -/
def loopArguments : Text := Text.ofString "\x7belement\x7d in \x7bobject\x7d"

/-- A text as a value. -/
def word (s : String) : Value := .text (Text.ofString s)

/-- The declaration of a standard tag. -/
def tag (name handler : String) (isolated : Bool) (arguments : Value) (verbatim : Bool) : TagSpec :=
  ⟨word name, word handler, isolated, arguments, verbatim⟩

/-- Comments. -/
def commentFamily : Family where
  key := word "comment"
  opener := ['\x7b', '*']
  closer := ['*', '\x7d']
  tags := []
  arguments := .null
  handler := word "comment"
  priority := 20
  opener_ne_nil := by simp
  closer_ne_nil := by simp

/-- Output with a word in front. -/
def echoFamily : Family where
  key := word "echo"
  opener := ['\x7b', 'e', 'c', 'h', 'o', ' ']
  closer := ['\x7d']
  tags := []
  arguments := .null
  handler := word "echo"
  priority := 10
  opener_ne_nil := by simp
  closer_ne_nil := by simp

/-- Statements, and output without a word in front. -/
def statementFamily : Family where
  key := word "statement"
  opener := ['\x7b']
  closer := ['\x7d']
  tags :=
    [tag "foreach" "each" false (.text loopArguments) false,
     tag "for" "for" false (.text loopArguments) false,
     tag "if" "if" false .null false,
     tag "elseif" "elseif" true .null false,
     tag "else" "else" true .null false,
     tag "literal" "literal" false .null true]
  arguments := .null
  handler := word "output"
  priority := 0
  opener_ne_nil := by simp
  closer_ne_nil := by simp

/-- The families of the standard grammar. -/
def families : List Family := [commentFamily, echoFamily, statementFamily]

/-- The standard grammar, with further handlers that take precedence over the standard ones of the
same name. -/
def build (further : Library) (freezing : Bool) : Except RegistryFault Registry :=
  Registry.build (library ++ further) families freezing

/-- The standard grammar. -/
def registry : Registry :=
  match build [] true with
  | .ok registry => registry
  | .error _ => Registry.ofLibrary library

end Standard
end Stencil
