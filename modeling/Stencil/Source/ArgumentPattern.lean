import Stencil.Text.Quoted
import Stencil.Text.Word

/-!
# Argument patterns

An argument pattern is text with placeholders: a word in braces stands for any stretch of text, and
every other character for itself. Matching a text against a pattern binds each placeholder to the
stretch that it stands for, without the whitespace around it.

Where there is a choice, each stretch is as short as possible, the first placeholder being the most
important. The first occurrence of the literal after a placeholder is therefore always the right
one; only the last stretch is fixed by the end of the text.
-/

namespace Stencil

/-- Named pieces of text, in the order in which the names came up. -/
abbrev Arguments := List (Text × Text)

namespace Arguments

/-- The argument of a name. -/
def find? (arguments : Arguments) (name : Text) : Option Text := arguments.lookup name

/-- The arguments after binding a name, which keeps its place if it has one. -/
def put (name value : Text) : Arguments → Arguments
  | [] => [(name, value)]
  | a :: rest => if name = a.1 then (name, value) :: rest else a :: put name value rest

/-- The arguments that a row of bindings makes, the last binding of a name counting. -/
def ofBindings (bindings : List (Text × Text)) : Arguments :=
  bindings.foldl (fun done b => put b.1 b.2 done) []

end Arguments

/-- A pattern taken apart. -/
structure ArgumentPattern where
  /-- The pattern as it was written. -/
  source : Text
  /-- The text before the first placeholder. -/
  head : Text
  /-- Each placeholder's name, with the text between it and the next one. -/
  places : List (Text × Text)
  deriving DecidableEq, Repr

namespace ArgumentPattern

/-- The name of a placeholder whose opening brace has just been passed. -/
def placeholder? (t : Text) : Option Text :=
  let name := t.takeWhile Text.isWord
  match t.drop name.length with
  | c :: _ => if c = '\x7d' && !name.isEmpty then some name else none
  | [] => none

/-- The text before the first placeholder, and the placeholders with the text after each. -/
def parts : Text → Text × List (Text × Text)
  | [] => ([], [])
  | c :: rest =>
    match if c = '\x7b' then placeholder? rest else none with
    | some name =>
      let (literal, places) := parts (rest.drop (name.length + 1))
      ([], (name, literal) :: places)
    | none =>
      let (literal, places) := parts rest
      (c :: literal, places)
  termination_by t => t.length
  decreasing_by all_goals simp only [List.length_cons, List.length_drop]; omega

/-- Takes a pattern apart. -/
def ofText (pattern : Text) : ArgumentPattern :=
  let (head, places) := parts pattern
  ⟨pattern, head, places⟩

/-- The names of the placeholders. -/
def names (pattern : ArgumentPattern) : List Text := pattern.places.map (·.1)

/-- The stretches that placeholders stand for in the rest of a text. -/
def bind : List (Text × Text) → Text → Option (List (Text × Text))
  | [], t => if t.isEmpty then some [] else none
  | [(name, literal)], t =>
    if literal.isSuffixOf t then some [(name, t.take (t.length - literal.length))] else none
  | (name, literal) :: more, t =>
    match Text.indexOf? literal t with
    | none => none
    | some n => (bind more (t.drop (n + literal.length))).map ((name, t.take n) :: ·)

/-- The arguments of a text; `none` if it does not follow the pattern. Whitespace around the text
does not count. -/
def match? (pattern : ArgumentPattern) (t : Text) : Option Arguments :=
  let t := Text.trim t
  if pattern.head.isPrefixOf t then
    (bind pattern.places (t.drop pattern.head.length)).map fun bindings =>
      Arguments.ofBindings (bindings.map fun b => (b.1, Text.trim b.2))
  else none

/-- The arguments of a text, none of them if it does not follow the pattern. -/
def extract (pattern : ArgumentPattern) (t : Text) : Arguments := (pattern.match? t).getD []

/-- The wording of a mismatch. -/
def mismatch (pattern : ArgumentPattern) (t : Text) : String :=
  let text := String.ofList (Text.quoted t)
  let source := String.ofList (Text.quoted pattern.source)
  s!"Text {text} does not match argument pattern {source}"

end ArgumentPattern
end Stencil
