import Stencil.Host
import Stencil.Value.Comparison
import Stencil.Value.Written

/-!
# Expressions

An expression is a literal, a path into the data, a comparison, or built from expressions by
`and`, `or`, `not` and parentheses. Parentheses stay in the tree, so that an expression is written
the way it was read.

An expression can be nested too deeply to be written; `depth` counts its levels, each of which takes
some of the calls that may be under way.
-/

namespace Stencil

/-- The constants of the expression language. -/
inductive Literal where
  | null
  | bool (b : Bool)
  | int (n : Int)
  | float (x : Binary64)
  | text (t : Text)
  /-- A text with a surrogate in it, as its code points. -/
  | points (codes : List Nat)
  deriving DecidableEq, Repr

/-- The constant that code points spell. -/
def Literal.ofPoints (codes : List Nat) : Literal :=
  match Text.ofPoints? codes with
  | some t => .text t
  | none => .points codes

/-- The value of a constant. -/
def Literal.value : Literal → Value
  | .null => .null
  | .bool b => .bool b
  | .int n => .int n
  | .float x => .float x
  | .text t => .text t
  | .points codes => .points codes

/-- An expression inside a tag. -/
inductive Expression where
  | literal (constant : Literal)
  /-- A name and the steps that lead from its value to another one. -/
  | path (head : Text) (steps : List Text)
  | compare (comparison : Comparison) (left right : Expression)
  /-- `left and right`. -/
  | both (left right : Expression)
  /-- `left or right`. -/
  | either (left right : Expression)
  /-- `not operand`. -/
  | negation (operand : Expression)
  /-- An expression in parentheses. -/
  | group (inner : Expression)
  deriving DecidableEq, Repr

namespace Expression

/-- How a constant is written. -/
def writeLiteral : Literal → Text
  | .null => Text.ofString "null"
  | .bool b => Text.ofString (if b then "true" else "false")
  | l => l.value.denote

/-- How an expression is written. -/
def write : Expression → Text
  | .literal l => writeLiteral l
  | .path head steps => '$' :: Text.join ['.'] (head :: steps)
  | .compare c l r => write l ++ ' ' :: (c.sign ++ ' ' :: write r)
  | .both l r => write l ++ Text.ofString " and " ++ write r
  | .either l r => write l ++ Text.ofString " or " ++ write r
  | .negation e => Text.ofString "not " ++ write e
  | .group e => '(' :: (write e ++ [')'])

/-- The levels of an expression. -/
def depth : Expression → Nat
  | .literal _ => 1
  | .path _ _ => 1
  | .compare _ l r => max l.depth r.depth + 1
  | .both l r => max l.depth r.depth + 1
  | .either l r => max l.depth r.depth + 1
  | .negation e => e.depth + 1
  | .group e => e.depth + 1

/-- The written form of an expression where so many calls may be under way: none if the writing of
its levels takes more. -/
def written? [Host] (room : Nat) (e : Expression) : Option Text :=
  if room < Host.writing * e.depth then none else some e.write

end Expression
end Stencil
