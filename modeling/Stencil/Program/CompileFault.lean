import Stencil.Document.Building
import Stencil.Program.Instruction

/-!
# What can go wrong in compiling a template

Most faults are in the template, and documented: a tag without closer, tags out of balance, a tag
that nobody knows, an expression that does not parse. Each has a `Class` and knows its position.
The others are defects of literals or of the grammar and have no position.
-/

namespace Stencil

/-- The documented kinds of fault. -/
inductive FaultClass where
  | malformed
  | unbalanced
  | unknownTag
  | expression
  deriving DecidableEq, Repr

/-- What an expression is needed for. -/
inductive Purpose where
  | expression
  | condition
  | collection
  deriving DecidableEq, Repr

/-- What can go wrong in compiling a template. -/
inductive CompileFault where
  /-- A tag without closer. -/
  | unterminated (fault : Unterminated)
  /-- Segments that make no document. -/
  | unbuilt (fault : BuildFault)
  /-- A member of a chain without its predecessor. -/
  | brokenChain (fault : Fragment.BrokenChain)
  /-- No handler is registered for the tag; the family is shown by its key. -/
  | noHandler (label : Text) (family : Text) (position : Position)
  /-- An anonymous tag that is no output. -/
  | unknownTag (word : Text) (family : Text) (position : Position)
  /-- A tag without the expression that it needs; `label` is its name or family. -/
  | missingExpression (label : Text) (purpose : Purpose) (position : Position)
  /-- An expression that does not follow the grammar. -/
  | badExpression (purpose : Purpose) (text : Text) (reason : Expression.Reason)
      (position : Position)
  /-- An expression that is nested too deeply. -/
  | deepExpression (purpose : Purpose) (position : Position)
  /-- A loop without a variable or without a collection. -/
  | badLoop (name : Option Text) (raw : Text) (position : Position)
  /-- A loop variable that is no name. -/
  | badVariable (element : Text) (position : Position)
  /-- A fault of an expression that nobody took care of. -/
  | escaped (fault : Expression.Fault)
  deriving DecidableEq, Repr

/-- The wording of a purpose. -/
def Purpose.message : Purpose → String
  | .expression => "an expression"
  | .condition => "a condition"
  | .collection => "a collection"

namespace CompileFault

/-- The class of a documented fault. -/
def class? : CompileFault → Option FaultClass
  | .unterminated _ => some .malformed
  | .unbuilt (.unreadable _) => none
  | .unbuilt _ => some .unbalanced
  | .brokenChain _ => some .unbalanced
  | .noHandler _ _ _ => some .unknownTag
  | .unknownTag _ _ _ => some .unknownTag
  | .missingExpression _ _ _ => some .expression
  | .badExpression _ _ _ _ => some .expression
  | .deepExpression _ _ => some .expression
  | .badLoop _ _ _ => some .expression
  | .badVariable _ _ => some .expression
  | .escaped _ => none

/-- Where in the template the fault is. -/
def position? : CompileFault → Option Position
  | .unterminated fault => some fault.position
  | .unbuilt (.unexpectedClosing _ _ p) => some p
  | .unbuilt (.neverClosed _ p) => some p
  | .unbuilt (.unreadable _) => none
  | .brokenChain fault => fault.position
  | .noHandler _ _ p => some p
  | .unknownTag _ _ p => some p
  | .missingExpression _ _ p => some p
  | .badExpression _ _ _ p => some p
  | .deepExpression _ p => some p
  | .badLoop _ _ p => some p
  | .badVariable _ p => some p
  | .escaped _ => none

/-- The wording of a fault, without its position. -/
def message : CompileFault → String
  | .unterminated fault => fault.message
  | .unbuilt fault => fault.message
  | .brokenChain fault => fault.message
  | .noHandler label family _ =>
    let label := String.ofList (Text.quoted label)
    let family := String.ofList family
    s!"No handler registered for tag {label} in '{family}'"
  | .unknownTag word family _ =>
    let word := String.ofList word
    let family := String.ofList family
    s!"Unknown tag '{word}' in '{family}'"
  | .missingExpression label purpose _ =>
    let label := String.ofList label
    let what := purpose.message
    s!"'{label}' requires {what}"
  | .badExpression purpose text reason _ =>
    let what := purpose.message
    let text := String.ofList text
    let why := reason.message
    s!"Invalid {what} '{text}': {why}"
  | .deepExpression purpose _ =>
    let what := purpose.message
    s!"Invalid {what}: nested too deeply"
  | .badLoop name raw _ =>
    let name := match name with
      | some t => String.ofList t
      | none => "None"
    let raw := String.ofList raw
    s!"'{name}' expects '<element> in <collection>', got '{raw}'"
  | .badVariable element _ =>
    let element := String.ofList element
    s!"Invalid loop variable '{element}'"
  | .escaped fault => fault.message

/-- The wording of a fault with its position. -/
def located (fault : CompileFault) : String := Position.located fault.position? fault.message

end CompileFault
end Stencil
