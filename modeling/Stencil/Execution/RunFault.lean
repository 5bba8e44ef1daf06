import Stencil.Program.Instruction

/-!
# What can go wrong in filling a template

A run fails either with a `RenderFault`, which knows where in the template it arose, or with
something that was `Raised` below the level of templates: an unusable position in a sequence, an
integer too long to be written, a misuse of the data, too deep a nesting, the fault of a routine. A
call turns what is raised inside it into a render fault of its own; a render fault passes through.
-/

namespace Stencil

/-- A fault that knows nothing of templates. -/
inductive Raised where
  /-- A position in a sequence is made of digits but is no numeral. -/
  | badIndex (fault : Numeral.Fault)
  /-- A value holds an integer of too many digits to be written. -/
  | unwritable
  | misused (fault : Misuse)
  /-- Something is nested too deeply for the host. -/
  | tooDeep (excess : Host.Excess)
  | routine (fault : RoutineFault)
  deriving DecidableEq, Repr

/-- A fault in filling a template. -/
inductive RenderFault where
  /-- An expression has no value. -/
  | expression (fault : Expression.EvaluationFault) (position : Option Position)
  /-- A loop by index meets something without positions. -/
  | notSequence (collection : Expression) (typeName : String) (position : Option Position)
  /-- A loop meets something that it cannot go through. -/
  | notIterable (collection : Expression) (typeName : String) (position : Option Position)
  /-- An instruction that no run knows. -/
  | unsupported
  /-- Something was raised in a call. -/
  | call (cause : Raised) (position : Option Position)
  /-- Something is nested too deeply for the host. -/
  | tooDeep
  deriving DecidableEq, Repr

/-- How a run fails. -/
inductive RunFault where
  | render (fault : RenderFault)
  | raised (fault : Raised)
  deriving DecidableEq, Repr

/-- The fault of an expression at a position, as a fault of the run. -/
def RunFault.ofEvaluation (position : Option Position) :
    Expression.EvaluationFault → RunFault
  | .badIndex fault => .raised (.badIndex fault)
  | .misused fault => .raised (.misused fault)
  | .tooDeep excess => .raised (.tooDeep excess)
  | fault => .render (.expression fault position)

/-- What keeps a value from being written, as a fault of the run. -/
def RunFault.ofObstacle : Value.Obstacle → RunFault
  | .tooLong => .raised .unwritable
  | .tooDeep => .raised (.tooDeep .written)

/-- What is written for a value where so many calls may be under way. -/
def RunFault.written [Host] (room : Nat) (v : Value) : Except RunFault Text :=
  (v.output? (Host.levels room)).mapError .ofObstacle

/-- What a call with the given position makes of a fault inside it. -/
def RunFault.insideCall (position : Option Position) : RunFault → RunFault
  | .raised cause => .render (.call cause position)
  | .render fault => .render fault

/-- What a whole run makes of a fault inside it: too deep a nesting is a fault of the template. -/
def RunFault.atTop : RunFault → RunFault
  | .raised (.tooDeep _) => .render .tooDeep
  | fault => fault

/-- The wording of what was raised. -/
def Raised.message : Raised → String
  | .badIndex fault => fault.message
  | .unwritable => Numeral.unwritable
  | .misused fault => fault.message
  | .tooDeep excess => excess.message
  | .routine fault => fault.message

namespace RenderFault

/-- Where in the template the fault is. -/
def position? : RenderFault → Option Position
  | .expression _ p => p
  | .notSequence _ _ p => p
  | .notIterable _ _ p => p
  | .unsupported => none
  | .call _ p => p
  | .tooDeep => none

/-- The wording of a fault, without its position. -/
def message : RenderFault → String
  | .expression fault _ => fault.message
  | .notSequence collection typeName _ =>
    let collection := String.ofList collection.write
    s!"'{collection}' is not a sequence ({typeName})"
  | .notIterable collection typeName _ =>
    let collection := String.ofList collection.write
    s!"'{collection}' is not iterable ({typeName})"
  | .unsupported => "Unsupported instruction: Instruction"
  | .call cause _ =>
    let cause := cause.message
    s!"Tag handler failed: {cause}"
  | .tooDeep => "Template nesting is too deep"

/-- The wording of a fault with its position. -/
def located (fault : RenderFault) : String := Position.located fault.position? fault.message

end RenderFault
end Stencil
