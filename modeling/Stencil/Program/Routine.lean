import Stencil.Expression.Evaluation
import Stencil.Expression.Reading
import Stencil.Source.ArgumentPattern

/-!
# Routines

A tag may be handled by a **routine** that runs when the template is filled. A routine knows the
names that it could use, and has no access to the run around it but through four steps: it is done
with a result, it fails, it asks for the body of its tag to be filled with some further names, or it
asks for the value of an expression; after the last two it goes on with the answer. So a routine is
a tree that branches over the answers, and every path through it ends.
-/

namespace Stencil

/-- What can go wrong in a routine of its own. -/
inductive RoutineFault where
  /-- An argument that the routine needs was not given. -/
  | missingArgument (name : Text)
  /-- An argument is not the numeral that the routine needs. -/
  | badNumeral (fault : Numeral.Fault)
  /-- An argument is not the expression that the routine needs. -/
  | badExpression (fault : Expression.Fault)
  /-- The routine divides by zero. -/
  | divisionByZero (message : String)
  /-- What the routine does with the names is not for their types. -/
  | misused (fault : Misuse)
  /-- A name, the one with the given index, is not a text. -/
  | untypedName (index : Nat) (typeName : String)
  deriving DecidableEq, Repr

/-- A computation that a tag makes while the template is filled. -/
inductive Routine where
  | done (result : Value)
  | fail (fault : RoutineFault)
  /-- Fills the body of the tag in the scope of the tag extended by some bindings. -/
  | render (bindings : List (Text × Value)) (next : Text → Routine)
  /-- Evaluates an expression in the scope of the tag. -/
  | evaluate (e : Expression) (next : Value → Routine)

/-- What a routine is told about its tag. -/
structure CallContext where
  arguments : Arguments
  names : Names

/-- The wording of a fault. -/
def RoutineFault.message : RoutineFault → String
  | .missingArgument name => String.ofList (Text.quoted name)
  | .badNumeral fault => fault.message
  | .badExpression fault => fault.message
  | .divisionByZero message => message
  | .misused fault => fault.message
  | .untypedName index typeName =>
    s!"sequence item {index}: expected str instance, {typeName} found"

end Stencil
