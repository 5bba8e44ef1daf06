import Stencil.Library.Sorting
import Stencil.Library.Standard

/-!
# Further handlers

A second library of handlers, beside the standard one, that uses what a handler can do beyond it:
routines that fill their body once, several times or not at all, with further names or without;
routines that fail; and handlers that only rearrange fragments.
-/

namespace Stencil
namespace Extension

variable [Host]

/-- A handler whose tag runs a routine. -/
def call (routine : CallContext → Routine) (tag : Occurrence) (inner : Fragment) :
    Except CompileFault Fragment :=
  .ok [.call routine inner tag.head.arguments (some tag.head.position)]

/-- A routine that is done with a text. -/
def answer (t : Text) : Routine := .done (.text t)

/-- Goes on with an argument, which has to be there. -/
def withArgument (context : CallContext) (name : String) (next : Text → Routine) : Routine :=
  match context.arguments.find? (Text.ofString name) with
  | some t => next t
  | none => .fail (.missingArgument (Text.ofString name))

/-- The body in capital letters. -/
def upper (_ : CallContext) : Routine := .render [] fun t => answer (Host.capitals t)

/-- The body `count` more times, with its index bound to `n`. -/
def repeatBody (index : Nat) (done : List Text) : Nat → Routine
  | 0 => answer done.reverse.flatten
  | count + 1 =>
    .render [(['n'], .int index)] fun t => repeatBody (index + 1) (t :: done) count

/-- The body as often as the argument `count` says. -/
def repeated (context : CallContext) : Routine :=
  withArgument context "count" fun t =>
    match Numeral.read t with
    | .ok n => repeatBody 0 [] n.toNat
    | .error fault => .fail (.badNumeral fault)

/-- The body with the value of an expression bound to a name. -/
def binding (context : CallContext) : Routine :=
  withArgument context "name" fun name =>
    withArgument context "value" fun t =>
      match Expression.read Host.reading t with
      | .error fault => .fail (.badExpression fault)
      | .ok e => .evaluate e fun v => .render [(name, v)] answer

/-- Fails. -/
def boom (_ : CallContext) : Routine := .fail (.divisionByZero "boom")

/-- The type of the first value that is not a text, with its index. -/
def firstUntyped? (index : Nat) : List Value → Option (Nat × String)
  | [] => none
  | .text _ :: rest => firstUntyped? (index + 1) rest
  | v :: _ => some (index, v.typeName)

/-! ### Names in order -/

mutual

/-- Why two values have no order: their types, or the types of the first items that differ. -/
def unordered : Value → Value → Misuse
  | .list as, .list bs => unorderedItems as bs
  | .tuple as, .tuple bs => unorderedItems as bs
  | a, b => .unordered a.typeName b.typeName

/-- Why two rows have no order. -/
def unorderedItems : List Value → List Value → Misuse
  | a :: as, b :: bs =>
    match Value.same (Host.levels Host.filling) a b with
    | .ok true => unorderedItems as bs
    | _ => unordered a b
  | _, _ => .unordered "list" "list"

end

/-- Whether a value comes before another one. -/
def precedes (a b : Value) : Except Misuse Bool :=
  (Value.ordered .less (Host.levels Host.filling) a b).mapError fun _ => unordered a b

mutual

/-- The type on account of which a value can be no key. -/
def keyless? : Value → Option String
  | .list _ => some "list"
  | .map _ => some "dict"
  | .tuple items => firstKeyless? items
  | _ => none

/-- The type on account of which a row can be no key. -/
def firstKeyless? : List Value → Option String
  | [] => none
  | v :: rest => (keyless? v).or (firstKeyless? rest)

end

/-- What data have instead of names if they are no map: their items. -/
def namesIn (data : Value) : Except Misuse (List Value) :=
  let items : Except Misuse (List Value) := match data with
    | .map entries => .ok (entries.map (·.1))
    | .text t => .ok (t.map fun c => .text [c])
    | .stream _ items => .ok items
    | v =>
      match v.sequence? with
      | some items => .ok items
      | none => .error (.notIterable v.typeName)
  match items with
  | .error fault => .error fault
  | .ok items =>
    match firstKeyless? items with
    | some typeName => .error (.noKey typeName)
    | none => .ok items

/-- The names that are visible, each once. -/
def visibleNames (visible : Names) : Except Misuse (List Value) :=
  (namesIn visible.data).map fun names =>
    let all := names ++ visible.bindings.reverse.map fun b => Value.text b.1
    (Value.distinct (all.map fun k => (k, .null))).map (·.1)

/-- The names that are visible, in order. -/
def names (context : CallContext) : Routine :=
  match (visibleNames context.names).bind (Sorting.sort precedes) with
  | .error fault => .fail (.misused fault)
  | .ok sorted =>
    match firstUntyped? 0 sorted with
    | some (index, typeName) => .fail (.untypedName index typeName)
    | none => answer (Text.join [','] (sorted.map Value.asText))

/-- The arguments, in the order of their names. -/
def arguments (context : CallContext) : Routine :=
  let sorted := context.arguments.mergeSort fun a b => Text.order a.1 b.1 != .gt
  answer (Text.join [';'] (sorted.map fun a => a.1 ++ '=' :: a.2))

/-- The body twice, with a bar between. -/
def twice (_ : CallContext) : Routine :=
  .render [] fun a => .render [] fun b => answer (a ++ '|' :: b)

/-- A routine without body, arguments and position. -/
def detached (routine : CallContext → Routine) (_ : Occurrence) (_ : Fragment) :
    Except CompileFault Fragment :=
  .ok [.call routine [] [] none]

/-- What the tag holds, twice. -/
def double (_ : Occurrence) (inner : Fragment) : Except CompileFault Fragment :=
  .ok (inner ++ inner)

/-- What the tag holds, between literals. -/
def wrap (_ : Occurrence) (inner : Fragment) : Except CompileFault Fragment :=
  .ok (.literal ['<'] :: .literal [] :: (inner ++ [.literal ['>']]))

/-- An empty literal. -/
def emptyLiteral (_ : Occurrence) (_ : Fragment) : Except CompileFault Fragment :=
  .ok [.literal []]

/-- The text between the tags. -/
def source (tag : Occurrence) (_ : Fragment) : Except CompileFault Fragment :=
  .ok [.literal tag.source]

/-- The start of a chain, taken if the condition does not hold. -/
def unlessHolds (tag : Occurrence) (inner : Fragment) : Except CompileFault Fragment :=
  match Expression.read Host.reading (Text.trim tag.head.raw) with
  | .ok e => .ok [.branch (.negation e) inner [] (some tag.head.position)]
  | .error fault => .error (.escaped fault)

/-- An instruction that no run knows. -/
def alien (_ : Occurrence) (_ : Fragment) : Except CompileFault Fragment := .ok [.unknown]

/-- A handler with its name. -/
def named (name : String) (apply : Occurrence → Fragment → Except CompileFault Fragment) :
    Handler := ⟨Text.ofString name, apply⟩

/-- The further handlers. -/
def handlers : List Handler :=
  [named "x_upper" (call upper), named "x_repeat" (call repeated), named "x_with" (call binding),
   named "x_boom" (detached boom), named "x_boom_at" (call boom),
   named "x_none" (call fun _ => .done .null), named "x_flag" (call fun _ => .done (.bool true)),
   named "x_num" (call fun _ => .done (.int 42)), named "x_names" (call names),
   named "x_args" (call arguments), named "x_twice" (call twice), named "x_double" double,
   named "x_wrap" wrap, named "x_empty" emptyLiteral, named "x_source" source,
   named "x_unless" unlessHolds, named "x_alien" alien]

/-- The standard handlers and the further ones. -/
def catalogue : Library := Library.ofHandlers (Standard.handlers ++ handlers)

end Extension
end Stencil
