import Stencil.Text.Digit

/-!
# Arguments of the command line

A parser knows some options and a place for operands. An argument is an option if it starts with a
dash; a dash alone, a negative number and anything with a space in it are operands, and so is
everything after a double dash. A long option may be shortened as long as it is clear which one is
meant, and may carry its value after an equals sign; a double dash there stands for no value at all.
Short options without value may be put together behind one dash.

Operands are taken where the first of them stands; what stands elsewhere is left over. Options act
in the order in which they stand, so that a request for help is granted before a later mistake is
noticed.

The program has options of its own, before the name of a command, and each command has its
options.
-/

namespace Stencil
namespace CommandLine

/-- What an option is for. -/
inductive Purpose where
  | help
  | version
  | verbose
  | grammar
  | data
  | assignment
  deriving DecidableEq, Repr

/-- An option. -/
structure OptionSpec where
  names : List Text
  purpose : Purpose
  takesValue : Bool

/-- How many operands a command takes. -/
inductive Operands where
  | one
  | oneOrMore
  deriving DecidableEq, Repr

/-- An end of the program on account of its arguments: a request that has been granted, or a
mistake. -/
inductive Exit where
  | granted
  | mistaken
  deriving DecidableEq, Repr

/-- What an argument is. -/
inductive Shape where
  | operand
  | separator
  /-- An option, unless it is unknown, with the text after its equals sign. -/
  | option (spec : Option OptionSpec) (name : Text) (value : Option Text)

/-- The option of a name. -/
def OptionSpec.find? (options : List OptionSpec) (name : Text) : Option OptionSpec :=
  options.find? fun o => o.names.contains name

/-- Whether a text consists of decimal digits, at least one; a line end may follow them. -/
def isDigits (t : Text) : Bool :=
  let digits := t.takeWhile Text.isDecimal
  !digits.isEmpty && (t.drop digits.length = [] || t.drop digits.length = ['\n'])

/-- Whether an argument is a negative number: whole, or with digits behind a point. -/
def isNegativeNumber : Text → Bool
  | '-' :: rest =>
    isDigits rest ||
      match rest.dropWhile Text.isDecimal with
      | '.' :: fraction => isDigits fraction
      | _ => false
  | _ => false

/-- The part before the first equals sign and the part after it, if there is one. -/
def splitValue (t : Text) : Text × Option Text :=
  let name := t.takeWhile (· ≠ '=')
  if name.length < t.length then (name, some (t.drop (name.length + 1))) else (name, none)

/-- Whether an option is named by a letter behind one dash. -/
def isShort (name : Text) : Bool := name.length = 2 && name.head? = some '-'

/-- The options that an argument may be short for, each with its name and its value. What follows
the letter of a short option counts as its value here. -/
def abbreviated (options : List OptionSpec) (t : Text) : List (OptionSpec × Text × Option Text) :=
  let named := options.flatMap fun o => o.names.map fun n => (o, n)
  match t with
  | '-' :: '-' :: _ =>
    let (start, value) := splitValue t
    (named.filter fun (_, n) => start.isPrefixOf n).map fun (o, n) => (o, n, value)
  | _ =>
    named.filterMap fun (o, n) =>
      if n = t.take 2 then some (o, n, some (t.drop 2))
      else if t.isPrefixOf n then some (o, n, none)
      else none

/-- What an argument is; it may be short for several options. -/
def shape (options : List OptionSpec) (t : Text) : Except Exit Shape :=
  match t with
  | '-' :: _ :: _ =>
    match OptionSpec.find? options t with
    | some o => .ok (.option (some o) t none)
    | none =>
      let (name, value) := splitValue t
      match value.bind fun _ => OptionSpec.find? options name with
      | some o => .ok (.option (some o) name value)
      | none =>
        match abbreviated options t with
        | [(o, name, value)] => .ok (.option (some o) name value)
        | _ :: _ :: _ => .error .mistaken
        | [] =>
          if isNegativeNumber t || t.contains ' ' then .ok .operand
          else .ok (.option none t none)
  | _ => .ok .operand

/-- What each argument is. -/
def shapes (options : List OptionSpec) : List Text → Except Exit (List (Text × Shape))
  | [] => .ok []
  | t :: rest =>
    if t = ['-', '-'] then .ok ((t, .separator) :: rest.map fun a => (a, .operand))
    else
      match shape options t, shapes options rest with
      | .ok s, .ok more => .ok ((t, s) :: more)
      | _, _ => .error .mistaken

/-- What has been made out of arguments. -/
structure Parsed where
  /-- Options with their values, in order. -/
  settings : List (Purpose × Option Text)
  /-- The operands, once they have been taken. -/
  operands : Option (List Text)
  /-- Whether something was left over. -/
  leftOver : Bool

/-- Whether an argument is no option. -/
def isPlain (a : Text × Shape) : Bool :=
  match a.2 with
  | .option _ _ _ => false
  | _ => true

/-- Whether an argument is the double dash. -/
def isSeparator (a : Text × Shape) : Bool :=
  match a.2 with
  | .separator => true
  | _ => false

/-- How many arguments at the front one operand takes, with the double dash before or after it;
zero if there is no operand. -/
def oneLength (arguments : List (Text × Shape)) : Nat :=
  let before := (arguments.takeWhile isSeparator).length
  match arguments.drop before with
  | a :: rest => if isPlain a then before + 1 + (rest.takeWhile isSeparator).length else 0
  | [] => 0

/-- The operands among arguments. -/
def operandsOf (arguments : List (Text × Shape)) : List Text :=
  (arguments.filter fun a => !isSeparator a).map (·.1)

/-- What letters behind one dash ask for, if each names an option without value. -/
def together? (options : List OptionSpec) : Text → Option (List Purpose)
  | [] => some []
  | c :: rest =>
    match OptionSpec.find? options ['-', c] with
    | none => none
    | some o => if o.takesValue then none else (together? options rest).map (o.purpose :: ·)

/-- Lets options without value act: help and version end the program. -/
def act (parsed : Parsed) : List Purpose → Except Exit Parsed
  | [] => .ok parsed
  | .help :: _ => .error .granted
  | .version :: _ => .error .granted
  | p :: rest => act { parsed with settings := parsed.settings ++ [(p, none)] } rest

/-- What an option without value asks for, with the letters put together with it; an equals sign may
stand before them. -/
def asked (options : List OptionSpec) (o : OptionSpec) (name : Text) (value : Option Text) :
    Except Exit (List Purpose) :=
  match value with
  | none => .ok [o.purpose]
  | some letters =>
    match together? options letters with
    | some (next :: more) =>
      if isShort name then .ok (o.purpose :: next :: more) else .error .mistaken
    | _ => .error .mistaken

/-- The value behind an equals sign, unless it is a double dash. -/
def behindSign (value : Text) : Option Text := if value = ['-', '-'] then none else some value

/-- Takes arguments from the front until none is left. -/
def consume (options : List OptionSpec) (operands : Operands) (parsed : Parsed) :
    List (Text × Shape) → Except Exit Parsed
  | [] => .ok parsed
  | (_, .option none _ _) :: rest =>
    consume options operands { parsed with leftOver := true } rest
  | (_, .option (some o) name value) :: rest =>
    if o.takesValue then
      match value with
      | some v =>
        consume options operands
          { parsed with settings := parsed.settings ++ [(o.purpose, behindSign v)] } rest
      | none =>
        match rest with
        | (v, .operand) :: rest =>
          consume options operands
            { parsed with settings := parsed.settings ++ [(o.purpose, some v)] } rest
        | _ => .error .mistaken
    else
      match asked options o name value with
      | .error exit => .error exit
      | .ok purposes =>
        match act parsed purposes with
        | .error exit => .error exit
        | .ok parsed => consume options operands parsed rest
  | first :: rest =>
    let run := (first :: rest).takeWhile isPlain
    let length := match operands with
      | .one => oneLength (first :: rest)
      | .oneOrMore => if (operandsOf run).isEmpty then 0 else run.length
    match parsed.operands, length with
    | none, n + 1 =>
      consume options operands
        { parsed with operands := some (operandsOf ((first :: rest).take (n + 1))) }
        (rest.drop n)
    | _, _ => consume options operands { parsed with leftOver := true } rest
  termination_by arguments => arguments.length
  decreasing_by all_goals simp only [List.length_cons, List.length_drop]; omega

/-- Makes something out of the arguments of a command; the operands must be there. -/
def parse (options : List OptionSpec) (operands : Operands) (arguments : List Text) :
    Except Exit Parsed :=
  match shapes options arguments with
  | .error exit => .error exit
  | .ok shaped =>
    match consume options operands ⟨[], none, false⟩ shaped with
    | .error exit => .error exit
    | .ok parsed =>
      if parsed.operands.isNone || parsed.leftOver then .error .mistaken else .ok parsed

/-! ## The program -/

/-- What the program is asked to do. -/
inductive Command where
  | render (template : Text) (data : Option Text) (assignments : List Text)
  | tree (template : Text)
  | check (templates : List Text)
  deriving DecidableEq, Repr

/-- A command, with the grammar to use. -/
structure Request where
  command : Command
  grammar : Option Text
  deriving DecidableEq, Repr

/-- The request for help. -/
def helpOption : OptionSpec := ⟨["-h".toList, "--help".toList], .help, false⟩

/-- The options of the program. -/
def programOptions : List OptionSpec :=
  [helpOption, ⟨["-V".toList, "--version".toList], .version, false⟩,
   ⟨["-v".toList, "--verbose".toList], .verbose, false⟩]

/-- The choice of a grammar. -/
def grammarOption : OptionSpec := ⟨["--grammar".toList], .grammar, true⟩

/-- The options of the command that fills templates. -/
def renderOptions : List OptionSpec :=
  [helpOption, ⟨["--data".toList], .data, true⟩, ⟨["--set".toList], .assignment, true⟩,
   grammarOption]

/-- The options of the commands that only read templates. -/
def readOptions : List OptionSpec := [helpOption, grammarOption]

/-- The last value of an option. -/
def Parsed.last? (parsed : Parsed) (p : Purpose) : Option Text :=
  (parsed.settings.reverse.find? fun s => s.1 = p).bind (·.2)

/-- All values of an option, the lack of one being shown as a pair of brackets. -/
def Parsed.values (parsed : Parsed) (p : Purpose) : List Text :=
  (parsed.settings.filter fun s => s.1 = p).map fun s => s.2.getD ['[', ']']

/-- The first operand. -/
def Parsed.operand (parsed : Parsed) : Text := (parsed.operands.getD []).headD []

/-- The request that a command with its arguments makes. -/
def requestOf (name : Text) (arguments : List Text) : Except Exit Request :=
  if name = "render".toList then
    (parse renderOptions .one arguments).map fun p =>
      ⟨.render p.operand (p.last? .data) (p.values .assignment), p.last? .grammar⟩
  else if name = "tree".toList then
    (parse readOptions .one arguments).map fun p => ⟨.tree p.operand, p.last? .grammar⟩
  else if name = "check".toList then
    (parse readOptions .oneOrMore arguments).map fun p =>
      ⟨.check (p.operands.getD []), p.last? .grammar⟩
  else .error .mistaken

/-- Takes the options of the program from the front, up to the name of a command. -/
def consumeProgram (left : Bool) : List (Text × Shape) → Except Exit Request
  | [] => .error .mistaken
  | (_, .separator) :: _ => .error .mistaken
  | (name, .operand) :: rest =>
    match requestOf name (rest.map (·.1)) with
    | .error exit => .error exit
    | .ok request => if left then .error .mistaken else .ok request
  | (_, .option none _ _) :: rest => consumeProgram true rest
  | (_, .option (some o) name value) :: rest =>
    match asked programOptions o name value with
    | .error exit => .error exit
    | .ok purposes =>
      match act ⟨[], none, false⟩ purposes with
      | .error exit => .error exit
      | .ok _ => consumeProgram left rest

/-- The request that the arguments of the program make. -/
def request (arguments : List Text) : Except Exit Request :=
  match shapes programOptions arguments with
  | .error exit => .error exit
  | .ok shaped => consumeProgram false shaped

end CommandLine
end Stencil
