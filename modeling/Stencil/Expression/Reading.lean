import Stencil.Expression.Token
import Stencil.Number.Numeral

/-!
# Reading an expression

The grammar has five levels:

* an expression is one or more conjunctions joined by `or`;
* a conjunction is one or more negations joined by `and`;
* a negation is `not` before a negation, or a comparison;
* a comparison is an operand, or two operands with a comparison sign between them;
* an operand is a constant, a path, or an expression in parentheses.

Chains of `and` and of `or` associate to the left; comparisons do not chain.

Tokens are read one at a time, left to right. Between tokens the reader is in a `State`: it is
either awaiting an operand or holding one, inside some number of open parentheses, and each open
parenthesis has a `Level`, which remembers what stands to the left of the operand. Nothing is ever
taken back: a token is refused exactly where the tokens up to it cannot begin an expression.

Parentheses and `not`s that are still open are calls under way (`State.depth`). Reading stops where
there is no room for one more, whatever follows.
-/

namespace Stencil
namespace Expression

/-- Why a text is no expression. -/
inductive Reason where
  /-- No token starts with the character. -/
  | unexpectedCharacter (fault : Token.Fault)
  /-- The text holds no token. -/
  | empty
  /-- The token cannot stand where it does. -/
  | unexpectedToken (text : Text)
  /-- Something other than a closing parenthesis follows an expression in parentheses. -/
  | unclosedGroup
  /-- The text ends where an operand is awaited. -/
  | unexpectedEnd
  deriving DecidableEq, Repr

/-- What can go wrong in reading an expression. -/
inductive Fault where
  /-- The text does not follow the grammar, as becomes clear at a position. -/
  | refused (reason : Reason) (position : Nat)
  /-- A quoted literal cannot be read. -/
  | malformedLiteral (fault : Text.LiteralFault) (position : Nat)
  /-- A whole number has too many digits. -/
  | oversizedNumeral (fault : Numeral.Fault) (position : Nat)
  /-- Parentheses and negations are nested more deeply than there is room for. -/
  | tooDeep
  deriving DecidableEq, Repr

/-! ## Constants and paths -/

/-- The floating-point number that a numeral with a point denotes. -/
def readFloat (numeral : Text) : Binary64 :=
  let (negative, digits) := Numeral.sign numeral
  let whole := digits.takeWhile Text.isDecimal
  let fraction := digits.drop (whole.length + 1)
  let n := (Text.natural? (whole ++ fraction)).getD 0
  Binary64.ofDecimal negative n (-fraction.length)

/-- The number of a numeral token. -/
def readNumber (token : Token) : Except Fault Expression :=
  if token.text.contains '.' then .ok (.literal (.float (readFloat token.text)))
  else match Numeral.read token.text with
    | .ok n => .ok (.literal (.int n))
    | .error fault => .error (.oversizedNumeral fault token.position)

/-- The text of a literal token. -/
def readText [Host] (token : Token) : Except Fault Expression :=
  match Text.unquote Host.character? token.text with
  | .ok codes => .ok (.literal (Literal.ofPoints codes))
  | .error fault => .error (.malformedLiteral fault token.position)

/-- The path of a path token. -/
def readPath (t : Text) : Expression :=
  match Text.fields '.' (t.drop (Token.dollarLength t)) with
  | [] => .path [] []
  | head :: steps => .path head steps

/-- The constant that a keyword names. -/
def constant? (keyword : Text) : Option Literal :=
  if keyword = Text.ofString "true" then some (.bool true)
  else if keyword = Text.ofString "false" then some (.bool false)
  else if keyword = Text.ofString "null" then some .null
  else none

/-! ## The state between two tokens -/

/-- What stands to the left of the current operand, back to the innermost open parenthesis. -/
structure Level where
  /-- The left side of a pending `or`. -/
  either : Option Expression
  /-- The left side of a pending `and`. -/
  both : Option Expression
  /-- How many `not` precede the comparison. -/
  negations : Nat
  /-- The left side and the sign of a pending comparison. -/
  compared : Option (Expression × Comparison)
  deriving DecidableEq, Repr

namespace Level

/-- Nothing stands to the left. -/
def empty : Level := ⟨none, none, 0, none⟩

/-- An expression under a number of negations. -/
def negate : Nat → Expression → Expression
  | 0, e => e
  | n + 1, e => .negation (negate n e)

/-- The conjunction that a comparison completes. -/
def conjunction (level : Level) (operand : Expression) : Expression :=
  let e := negate level.negations operand
  match level.both with
  | some left => .both left e
  | none => e

/-- The expression that a comparison completes. -/
def expression (level : Level) (operand : Expression) : Expression :=
  let e := level.conjunction operand
  match level.either with
  | some left => .either left e
  | none => e

end Level

/-- Where reading stands between two tokens. -/
inductive State where
  /-- An operand has to follow. `outer` holds the levels outside each open parenthesis. -/
  | awaiting (level : Level) (outer : List Level)
  /-- An operand has been read; a comparison sign may follow if it is `comparable`. -/
  | holding (operand : Expression) (comparable : Bool) (level : Level) (outer : List Level)
  deriving DecidableEq, Repr

namespace State

/-- Nothing has been read. -/
def start : State := .awaiting .empty []

/-- The state after an operand. -/
def supply (operand : Expression) (level : Level) (outer : List Level) : State :=
  match level.compared with
  | some (left, c) => .holding (.compare c left operand) false { level with compared := none } outer
  | none => .holding operand true level outer

end State

/-- The refusal of a token. -/
def unexpected (token : Token) : Fault := .refused (.unexpectedToken token.text) token.position

/-- The refusal of a token after an operand, where the level is inside a parenthesis or not. -/
def unclosed (outer : List Level) (token : Token) : Fault :=
  if outer.isEmpty then unexpected token else .refused .unclosedGroup token.position

/-- Reads a token where an operand is awaited. -/
def readOperand [Host] (level : Level) (outer : List Level) (token : Token) : Except Fault State :=
  match token.kind with
  | .parenthesis =>
    if token.text = ['('] then .ok (.awaiting .empty (level :: outer))
    else .error (unexpected token)
  | .keyword =>
    if token.text = Text.ofString "not" && level.compared.isNone then
      .ok (.awaiting { level with negations := level.negations + 1 } outer)
    else match constant? token.text with
      | some l => .ok (.supply (.literal l) level outer)
      | none => .error (unexpected token)
  | .text => (readText token).map (State.supply · level outer)
  | .number => (readNumber token).map (State.supply · level outer)
  | .path => .ok (.supply (readPath token.text) level outer)
  | .comparison => .error (unexpected token)
  | .finish => .error (.refused .unexpectedEnd token.position)

/-- Reads a token after an operand. -/
def readAfter (operand : Expression) (comparable : Bool) (level : Level) (outer : List Level)
    (token : Token) : Except Fault State :=
  match token.kind with
  | .comparison =>
    match comparable, Comparison.ofSign? token.text with
    | true, some c => .ok (.awaiting { level with compared := some (operand, c) } outer)
    | _, _ => .error (unclosed outer token)
  | .keyword =>
    if token.text = Text.ofString "and" then
      .ok (.awaiting ⟨level.either, some (level.conjunction operand), 0, none⟩ outer)
    else if token.text = Text.ofString "or" then
      .ok (.awaiting ⟨some (level.expression operand), none, 0, none⟩ outer)
    else .error (unclosed outer token)
  | .parenthesis =>
    match outer with
    | parent :: rest =>
      if token.text = [')'] then .ok (.supply (.group (level.expression operand)) parent rest)
      else .error (unclosed outer token)
    | [] => .error (unexpected token)
  | _ => .error (unclosed outer token)

/-- Reads a token. -/
def State.step [Host] : State → Token → Except Fault State
  | .awaiting level outer, token => readOperand level outer token
  | .holding operand comparable level outer, token =>
    readAfter operand comparable level outer token

/-- The expression that has been read when the end is reached. -/
def State.finish (state : State) (last : Token) : Except Fault Expression :=
  match state with
  | .awaiting _ _ => .error (.refused .unexpectedEnd last.position)
  | .holding operand _ level [] => .ok (level.expression operand)
  | .holding _ _ _ (_ :: _) => .error (.refused .unclosedGroup last.position)

/-! ## The room for nesting -/

/-- The calls that are under way on account of an open parenthesis: one for each level of the
grammar from the operand that it opens down to the first operand inside, and one for the chain of
each of the two levels that repeat. -/
def callsPerGroup : Nat := 7

/-- The calls under way on account of the parentheses that are open, and of every `not` before the
comparison in which they are. -/
def outerDepth : List Level → Nat
  | [] => 0
  | level :: outer => level.negations + callsPerGroup + outerDepth outer

/-- The calls that are under way between two tokens, down from where the reading began. -/
def State.depth : State → Nat
  | .awaiting level outer => level.negations + outerDepth outer
  | .holding _ _ level outer => level.negations + outerDepth outer

/-- Reads a token where so many calls may be under way. -/
def State.take [Host] (room : Nat) (state : State) (token : Token) : Except Fault State :=
  match state.step token with
  | .ok next => if room < next.depth then .error .tooDeep else .ok next
  | .error fault => .error fault

/-- Reads tokens up to the end. -/
def State.read [Host] (room : Nat) (state : State) : List Token → Except Fault Expression
  | [] => state.finish ⟨.finish, [], 0⟩
  | token :: rest =>
    if token.kind = .finish then state.finish token
    else match state.take room token with
      | .ok next => next.read room rest
      | .error fault => .error fault

/-- The expression that a row of tokens spells. -/
def ofTokens [Host] (room : Nat) (tokens : List Token) : Except Fault Expression :=
  match tokens with
  | [] => .error (.refused .empty 0)
  | first :: _ =>
    if first.kind = .finish then .error (.refused .empty 0) else State.start.read room tokens

/-- Reads an expression where so many calls may be under way. -/
def read [Host] (room : Nat) (t : Text) : Except Fault Expression :=
  match Token.scan t with
  | .error fault => .error (.refused (.unexpectedCharacter fault) fault.position)
  | .ok tokens => ofTokens room tokens

/-- The wording of a reason. -/
def Reason.message : Reason → String
  | .unexpectedCharacter fault => fault.message
  | .empty => "Empty expression"
  | .unexpectedToken text =>
    let shown := String.ofList text
    s!"Unexpected token '{shown}'"
  | .unclosedGroup => "Expected ')' after grouped expression"
  | .unexpectedEnd => "Unexpected end of expression"

/-- Whether a constant has the shape of its kind, but no value. -/
def Fault.isBadValue : Fault → Bool
  | .malformedLiteral .nullCharacter _ => true
  | .oversizedNumeral _ _ => true
  | _ => false

/-- The wording of a fault where it stands alone. -/
def Fault.message : Fault → String
  | .refused reason position =>
    let what := reason.message
    s!"Parse error at position {position}: {what}"
  | .malformedLiteral fault _ => fault.message
  | .oversizedNumeral fault _ => fault.message
  | .tooDeep => Host.Excess.calls.message

end Expression
end Stencil
