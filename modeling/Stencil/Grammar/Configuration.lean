import Stencil.Grammar.Family
import Stencil.Number.Numeral
import Stencil.Value.Written

/-!
# Reading a grammar from configuration

A grammar is configured by a map: under `families`, the families by key, each a map with its
delimiters, its tags by name, and what else a family has. Delimiters may be any value and are taken
as the text of it; a priority may be any value that denotes an integer. What is missing has a
default: no name, no pattern, priority zero, and for the handler of a tag the name of the tag.
-/

namespace Stencil

/-- Why a value configures no grammar. -/
inductive ConfigurationFault where
  /-- The configuration itself is no map. -/
  | notMap
  /-- What stands under `families` is no map. -/
  | familiesNotMap
  /-- A family is no map. -/
  | familyNotMap (key : Text)
  /-- What stands under `tags` is no map. -/
  | tagsNotMap (key : Text)
  /-- A tag is no map. -/
  | tagNotMap (name : Text)
  /-- A key counts as false. -/
  | emptyKey
  /-- A delimiter is empty. -/
  | emptyDelimiter (key : Text)
  /-- A priority of a type that denotes no integer. -/
  | untypedPriority
  /-- A priority that is no numeral. -/
  | badPriority (fault : Numeral.Fault)
  /-- A priority that is not a number. -/
  | nanPriority
  /-- An infinite priority. -/
  | infinitePriority
  /-- The configuration passes for one that can be looked up, but cannot. -/
  | claimsEntries
  /-- A delimiter, or what a message would show, holds an integer of too many digits to be
  written. -/
  | unwritable
  deriving DecidableEq, Repr

namespace Configuration

/-- The value under a name, the absent value if there is none. -/
def field (name : String) (entries : List (Value × Value)) : Value :=
  (Value.named (Text.ofString name) entries).getD .null

/-- The integer that a value denotes. -/
def integer : Value → Except ConfigurationFault Int
  | .bool b => .ok (if b then 1 else 0)
  | .int n => .ok n
  | .float x =>
    match x with
    | .nan _ => .error .nanPriority
    | .infinite _ => .error .infinitePriority
    | x => .ok (x.truncate?.getD 0)
  | .text t => (Numeral.read t).mapError .badPriority
  | .bytes b =>
    let t : Text := b.map fun x => Char.ofNat x.toNat
    if b.all (·.toNat < 0x80) then
      (Numeral.read t).mapError fun fault =>
        match fault with
        | .malformed _ => .badPriority (.malformed (Text.quotedBytes b))
        | fault => .badPriority fault
    else .error (.badPriority (.malformed (Text.quotedBytes b)))
  | .points codes => .error (.badPriority (.malformed (Text.quotedPoints codes)))
  | _ => .error .untypedPriority

/-- The fault that shows the text of a value. -/
def showing (v : Value) (fault : Text → ConfigurationFault) : ConfigurationFault :=
  match v.asText? with
  | some t => fault t
  | none => .unwritable

/-- The declaration of a tag; one that counts as false declares nothing special. -/
def tag (name spec : Value) : Except ConfigurationFault TagSpec :=
  match if spec.truthy then spec.entries? else some [] with
  | none => .error (showing name .tagNotMap)
  | some entries => .ok
    { name := name
      handler := (Value.named (Text.ofString "handler") entries).getD name
      isolated := (field "isolated" entries).truthy
      arguments := field "arguments" entries
      verbatim := (field "verbatim" entries).truthy }

/-- The declarations of tags; a value that counts as false declares none. -/
def tags (key raw : Value) : Except ConfigurationFault (List TagSpec) :=
  if !raw.truthy then .ok []
  else match raw.entries? with
    | none => .error (showing key .tagsNotMap)
    | some entries => entries.mapM fun e => tag e.1 e.2

/-- The text of the value under a name, empty if there is none. -/
def delimiter (name : String) (entries : List (Value × Value)) :
    Except ConfigurationFault Text :=
  match Value.named (Text.ofString name) entries with
  | none => .ok []
  | some v =>
    match v.asText? with
    | some t => .ok t
    | none => .error .unwritable

/-- A family with checked delimiters. -/
def checked (key : Value) (opener closer : Text) (tags : List TagSpec) (arguments handler : Value)
    (priority : Int) : Except ConfigurationFault Family :=
  if !key.truthy then .error .emptyKey
  else if h : opener ≠ [] ∧ closer ≠ [] then
    .ok ⟨key, opener, closer, tags, arguments, handler, priority, h.1, h.2⟩
  else .error (showing key .emptyDelimiter)

/-- A family. -/
def family (key spec : Value) : Except ConfigurationFault Family :=
  match spec.entries? with
  | none => .error (showing key .familyNotMap)
  | some entries =>
    match tags key (field "tags" entries), delimiter "opener" entries,
        delimiter "closer" entries,
        integer ((Value.named (Text.ofString "priority") entries).getD (.int 0)) with
    | .error fault, _, _, _ => .error fault
    | _, .error fault, _, _ => .error fault
    | _, _, .error fault, _ => .error fault
    | _, _, _, .error fault => .error fault
    | .ok tags, .ok opener, .ok closer, .ok priority =>
      checked key opener closer tags (field "arguments" entries) (field "handler" entries) priority

/-- The families of a grammar, in the order in which they are declared. -/
def families (configuration : Value) : Except ConfigurationFault (List Family) :=
  match configuration.entries? with
  | none => .error (if configuration.claimsEntries then .claimsEntries else .notMap)
  | some entries =>
    let raw := field "families" entries
    if !raw.truthy then .ok []
    else match raw.entries? with
      | none => .error .familiesNotMap
      | some specs => specs.mapM fun e => family e.1 e.2

end Configuration

/-- The wording of a fault. -/
def ConfigurationFault.message : ConfigurationFault → String
  | .notMap => "The configuration must be a mapping"
  | .familiesNotMap => "'families' must be a mapping of delimiter key to definition"
  | .familyNotMap key =>
    let key := String.ofList key
    s!"Delimiter '{key}' must be a mapping"
  | .tagsNotMap key =>
    let key := String.ofList key
    s!"Delimiter '{key}': 'tags' must be a mapping"
  | .tagNotMap name =>
    let name := String.ofList name
    s!"Tag '{name}' must be a mapping"
  | .emptyKey => "Delimiter key cannot be empty"
  | .emptyDelimiter key =>
    let key := String.ofList key
    s!"Delimiter '{key}' must define both opener and closer"
  | .untypedPriority => "The priority must be an integer"
  | .badPriority fault => fault.message
  | .nanPriority => "cannot convert float NaN to integer"
  | .infinitePriority => "cannot convert float infinity to integer"
  | .claimsEntries => "The configuration cannot be looked up"
  | .unwritable => Numeral.unwritable

end Stencil
