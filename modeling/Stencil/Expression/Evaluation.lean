import Stencil.Expression.Basic
import Stencil.Number.Numeral
import Stencil.Text.Digit
import Stencil.Value.Misuse

/-!
# Evaluating an expression

An expression is evaluated in a `Scope`: the bindings made by the loops and calls around it, the
innermost first, and behind them the data. `and` and `or` give one of their operands and evaluate
the right one only if the left one does not decide. Each level of an expression that is evaluated
takes one of the calls that may be under way, a comparison two; there is no value where none is
left.

Data should be a map. Other data have no names: what can be searched is searched, and to find a name
in it is a misuse, as there is no value under the name.

A path goes from the value of its first name through further steps: an entry of a map, an item of a
sequence by its position, an attribute of an object, a part of a date or moment. All values but maps
and sequences may also have what the host gives them under a name. Attributes that start with an
underscore are hidden.
-/

namespace Stencil

/-- The names that an expression can use. -/
structure Names where
  /-- The bindings of the surrounding loops and calls, innermost first. -/
  bindings : List (Text × Value)
  data : Value

/-- Where an expression is evaluated: the names that it can use, and how many calls may be under way
inside. -/
structure Scope extends Names where
  room : Nat

namespace Scope

/-- The scope of a template that is filled with the given data; absent data are an empty map. -/
def ofData [Host] : Value → Scope
  | .null => ⟨⟨[], .map []⟩, Host.filling⟩
  | data => ⟨⟨[], data⟩, Host.filling⟩

/-- The scope with further bindings in front. -/
def extend (scope : Scope) (bindings : List (Text × Value)) : Scope :=
  { scope with bindings := bindings ++ scope.bindings }

/-- The scope inside a call whose body is being filled. -/
def inside [Host] (scope : Scope) : Scope := { scope with room := scope.room - Host.calling }

end Scope

namespace Expression

/-- Why an expression has no value. -/
inductive EvaluationFault where
  | undefinedName (name : Text)
  /-- The value reached by `walked` has no such entry, item or attribute. -/
  | noItem (walked part : Text)
  /-- The sequence reached by `walked` is too short. -/
  | outOfRange (index : Int) (walked : Text)
  /-- The two sides have no order. -/
  | incomparable (left : String) (comparison : Comparison) (right : String)
  /-- A position in a sequence is made of digits but is no numeral. -/
  | badIndex (fault : Numeral.Fault)
  /-- The data have no values under names. -/
  | misused (fault : Misuse)
  /-- The expression, or two values that it compares, are nested too deeply. -/
  | tooDeep (excess : Host.Excess)
  deriving DecidableEq, Repr

/-- Whether a value is the given text. -/
def isName (name : Text) : Value → Bool
  | .text t => t == name
  | _ => false

/-- The fault of a name that is found in data without names, or not found there. -/
def foundIn (data : Value) (name : Text) (found : Bool) : EvaluationFault :=
  if found then .misused (.namedItem data.typeName name) else .undefinedName name

/-- The value that data have under a name. -/
def nameIn (data : Value) (name : Text) : Except EvaluationFault Value :=
  match data.exposed with
  | .map entries =>
    match Value.named name entries with
    | some v => .ok v
    | none => .error (.undefinedName name)
  | .list items => .error (foundIn data name (items.any (isName name)))
  | .tuple items => .error (foundIn data name (items.any (isName name)))
  | .stream _ items => .error (foundIn data name (items.any (isName name)))
  | .text t => .error (foundIn data name (Text.occursIn name t))
  | .bytes _ => .error (.misused .nameInBytes)
  | v => .error (.misused (.notSearchable v.typeName))

/-- The value of a name. -/
def lookup (scope : Scope) (name : Text) : Except EvaluationFault Value :=
  match scope.bindings.lookup name with
  | some v => .ok v
  | none => nameIn scope.data name

/-- Whether attributes of a name are hidden. -/
def isHidden (name : Text) : Bool := name.head? == some '_'

/-- The attribute of an object, the last definition of a name counting. -/
def attribute? (name : Text) (attributes : List (Text × Value)) : Option Value :=
  if isHidden name then none else attributes.reverse.lookup name

/-- A part of a date, or the first or last date. -/
def datePart? (d : Date) (part : Text) : Option Value :=
  [("year", Value.int d.year), ("month", .int d.month), ("day", .int d.day), ("min", .date .first),
    ("max", .date .last)].lookup (String.ofList part)

/-- A part of a moment. A zone is no value, but that there is none can be asked for. -/
def momentPart? (m : Moment) (part : Text) : Option Value :=
  ([("year", Value.int m.date.year), ("month", .int m.date.month), ("day", .int m.date.day),
    ("hour", .int m.hour), ("minute", .int m.minute), ("second", .int m.second),
    ("microsecond", .int m.microsecond), ("fold", .int 0), ("min", .moment .first),
    ("max", .moment .last)] ++ if m.zone.isNone then [("tzinfo", Value.null)] else []).lookup
      (String.ofList part)

/-- What the host gives a value under a name. -/
def lent? [Host] (v : Value) (name : Text) : Option Value :=
  if isHidden name then none else Host.attribute? v name

/-- One step of a path from a value that `walked` has reached. -/
def step [Host] (value : Value) (part walked : Text) : Except EvaluationFault Value :=
  match value.exposed with
  | .map entries =>
    match Value.named part entries with
    | some v => .ok v
    | none => .error (.noItem walked part)
  | .object _ attributes =>
    match attribute? part attributes with
    | some v => .ok v
    | none => .error (.noItem walked part)
  | .date d =>
    match (datePart? d part).or (lent? (.date d) part) with
    | some v => .ok v
    | none => .error (.noItem walked part)
  | .moment m =>
    match (momentPart? m part).or (lent? (.moment m) part) with
    | some v => .ok v
    | none => .error (.noItem walked part)
  | v =>
    match v.sequence? with
    | none =>
      match lent? v part with
      | some w => .ok w
      | none => .error (.noItem walked part)
    | some items =>
      if part.isEmpty || !part.all Text.isDigitLike then .error (.noItem walked part)
      else match Numeral.read part with
        | .error fault => .error (.badIndex fault)
        | .ok index =>
          match items[index.toNat]? with
          | some item => .ok item
          | none => .error (.outOfRange index walked)

/-- The value that further steps lead to. -/
def follow [Host] (value : Value) (walked : Text) : List Text → Except EvaluationFault Value
  | [] => .ok value
  | part :: rest =>
    match step value part walked with
    | .ok next => follow next (walked ++ '.' :: part) rest
    | .error fault => .error fault

/-- The value of an expression where so many calls may be under way. A comparison takes two calls,
the second one around its two sides. -/
def value [Host] (scope : Scope) : Nat → Expression → Except EvaluationFault Value
  | 0, _ => .error (.tooDeep .calls)
  | _ + 1, .literal l => .ok l.value
  | _ + 1, .path head steps =>
    match lookup scope head with
    | .ok v => follow v head steps
    | .error fault => .error fault
  | room + 1, .group e => value scope room e
  | room + 1, .negation e => (value scope room e).map fun v => .bool (!v.truthy)
  | room + 1, .both l r =>
    match value scope room l with
    | .ok v => if v.truthy then value scope room r else .ok v
    | .error fault => .error fault
  | room + 1, .either l r =>
    match value scope room l with
    | .ok v => if v.truthy then .ok v else value scope room r
    | .error fault => .error fault
  | room + 1, .compare c l r =>
    match value scope (room - 1) l with
    | .error fault => .error fault
    | .ok a =>
      match value scope (room - 1) r with
      | .error fault => .error fault
      | .ok b =>
        match Value.holds (Host.levels (room - 1)) c a b with
        | .ok answer => .ok (.bool answer)
        | .error .unordered => .error (.incomparable a.typeName c b.typeName)
        | .error .endless => .error (.tooDeep .compared)

/-- The value of an expression in a scope. -/
def evaluate [Host] (scope : Scope) (e : Expression) : Except EvaluationFault Value :=
  value scope scope.room e

/-- What is left of the data after a fault: a stream has been gone through in search of a name, up
to where it was found. -/
def EvaluationFault.remaining (data : Value) (fault : EvaluationFault) : Value :=
  match data, fault with
  | .stream id _, .undefinedName _ => .stream id []
  | .stream id items, .misused (.namedItem _ name) =>
    .stream id ((items.dropWhile fun v => !isName name v).drop 1)
  | data, _ => data

/-- The wording of a fault. -/
def EvaluationFault.message : EvaluationFault → String
  | .undefinedName name =>
    let name := String.ofList name
    s!"Undefined name '{name}'"
  | .noItem walked part =>
    let walked := String.ofList walked
    let part := String.ofList part
    s!"'{walked}' has no item '{part}'"
  | .outOfRange index walked =>
    let index := String.ofList (Text.ofInt index)
    let walked := String.ofList walked
    s!"Index {index} out of range in '{walked}'"
  | .incomparable left c right =>
    let sign := String.ofList c.sign
    s!"Cannot compare {left} {sign} {right}"
  | .badIndex fault => fault.message
  | .misused fault => fault.message
  | .tooDeep excess => excess.message

end Expression
end Stencil
