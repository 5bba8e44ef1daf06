import Stencil.Grammar.Family
import Stencil.Program.Handler
import Stencil.Value.Written

/-!
# The registry of a grammar

A registry holds the families of a grammar and the handlers of their tags. Registering a family
looks up its handlers in the library by name; a handler that is there already stays. Handlers can
also be registered directly, and then replace what was there. A family that is registered again
under its key takes the place of the earlier one and keeps its rank.

Where two openers stand at one place, the family of higher priority wins, and of equal ones the one
whose key was registered first: `ordered` lists the families in this order.

Freezing checks that every tag has a handler and forbids any further registration.
-/

namespace Stencil

/-- What a handler is registered for: a tag of a family, or with the absent value for a name the
anonymous tags of a family. -/
structure Slot where
  family : Value
  tag : Value

/-- Whether two slots are the same. -/
def Slot.same (a b : Slot) : Bool := Value.sameKey a.family b.family && Value.sameKey a.tag b.tag

/-- The slot of a tag of a family, or without a name of its anonymous tags. -/
def Slot.of (family : Value) : Option Text → Slot
  | some name => ⟨family, .text name⟩
  | none => ⟨family, .null⟩

/-- The families of a grammar and the handlers of their tags. -/
structure Registry where
  library : Library
  /-- The families, in the order in which their keys were first registered. -/
  families : List Family
  handlers : List (Slot × Handler)
  frozen : Bool

/-- Why a registry refuses. -/
inductive RegistryFault where
  /-- The registry is frozen. -/
  | frozen
  /-- The key of a family that can be no key. -/
  | badKey
  /-- A handler name that can be no key, and so cannot be looked up. -/
  | badHandlerName
  /-- There is no family. -/
  | noFamilies
  /-- Tags have no handler; each is shown by family and name. -/
  | missingHandlers (slots : List Text)
  /-- A key or name that a message would show holds an integer of too many digits to be written. -/
  | unwritable
  deriving DecidableEq, Repr

/-- What is worth a warning in a registration. -/
inductive RegistryWarning where
  /-- The key was registered before. -/
  | familyReplaced (key : Text)
  /-- A handler was registered before. -/
  | handlerReplaced (family : Text) (tag : Option Text)
  deriving DecidableEq, Repr

/-- What a registration leaves behind. A registration that fails may have been done in part. -/
structure Registration where
  registry : Registry
  warnings : List RegistryWarning
  fault : Option RegistryFault

namespace Registry

/-- A registry without families. -/
def ofLibrary (library : Library) : Registry := ⟨library, [], [], false⟩

/-- The handler of a slot. -/
def handler? (registry : Registry) (slot : Slot) : Option Handler :=
  (registry.handlers.find? fun h => slot.same h.1).map (·.2)

/-- The handler of a tag of a family, or without a name of its anonymous tags. -/
def handlerFor? (registry : Registry) (family : Value) (name : Option Text) : Option Handler :=
  registry.handler? (Slot.of family name)

/-- The families after storing one under its key. -/
def putFamily (family : Family) : List Family → List Family
  | [] => [family]
  | f :: rest =>
    if Value.sameKey family.key f.key then family :: rest else f :: putFamily family rest

/-- The handlers after storing one in a slot. -/
def putHandler (slot : Slot) (handler : Handler) : List (Slot × Handler) → List (Slot × Handler)
  | [] => [(slot, handler)]
  | h :: rest => if slot.same h.1 then (h.1, handler) :: rest else h :: putHandler slot handler rest

/-- The family with a key. -/
def family? (registry : Registry) (key : Value) : Option Family :=
  Family.withKey? registry.families key

/-- Gives a slot the handler of the library with a name, unless it has one already. A name that
counts as false asks for none. -/
def bind (registry : Registry) (slot : Slot) (name : Value) : Except RegistryFault Registry :=
  if !name.truthy then .ok registry
  else if !name.isKey then .error .badHandlerName
  else match name with
    | .text t =>
      match registry.library.find? t, registry.handler? slot with
      | some h, none => .ok { registry with handlers := registry.handlers ++ [(slot, h)] }
      | _, _ => .ok registry
    | _ => .ok registry

/-- Gives each tag of a row its handler, up to the first whose handler has an impossible name. -/
def bindAll (registry : Registry) (family : Value) :
    List TagSpec → Registry × Option RegistryFault
  | [] => (registry, none)
  | spec :: rest =>
    match registry.bind ⟨family, spec.name⟩ spec.handler with
    | .ok next => bindAll next family rest
    | .error fault => (registry, some fault)

/-- Registers a family and the handlers that it names. -/
def registerFamily (registry : Registry) (family : Family) : Registration :=
  let replaced := (registry.family? family.key).isSome
  if registry.frozen then ⟨registry, [], some .frozen⟩
  else if !family.key.isKey then ⟨registry, [], some .badKey⟩
  else if replaced && !family.key.isWritable then ⟨registry, [], some .unwritable⟩
  else
    let warnings := if replaced then [.familyReplaced family.key.asText] else []
    let stored := { registry with families := putFamily family registry.families }
    match stored.bind ⟨family.key, .null⟩ family.handler with
    | .error fault => ⟨stored, warnings, some fault⟩
    | .ok bound =>
      let (done, fault) := bound.bindAll family.key family.tags
      ⟨done, warnings, fault⟩

/-- Registers a handler for a tag of a family, or for its anonymous tags. -/
def registerHandler (registry : Registry) (family : Value) (name : Option Text)
    (handler : Handler) : Registration :=
  let slot := Slot.of family name
  let replaced := (registry.handler? slot).isSome
  if registry.frozen then ⟨registry, [], some .frozen⟩
  else if !family.isKey then ⟨registry, [], some .badKey⟩
  else if replaced && !family.isWritable then ⟨registry, [], some .unwritable⟩
  else
    let warnings := if replaced then [.handlerReplaced family.asText name] else []
    ⟨{ registry with handlers := putHandler slot handler registry.handlers }, warnings, none⟩

/-- How a tag of a family is shown, if its family and its name can be written. -/
def label? (family : Value) (name : Value) : Option Text :=
  match family.asText?, name.asText? with
  | some f, some n => some (f ++ ':' :: n)
  | _, _ => none

/-- The tags of a family without a handler, each as it is shown. -/
def missingIn (registry : Registry) (family : Family) : List (Option Text) :=
  (if !family.hasNames && (registry.handler? ⟨family.key, .null⟩).isNone then
    [label? family.key (.text (Text.ofString "<default>"))]
  else []) ++
  (family.tags.filter fun spec => (registry.handler? ⟨family.key, spec.name⟩).isNone).map
    fun spec => label? family.key spec.name

/-- Checks that there is a family and that every tag has a handler. -/
def validate (registry : Registry) : Except RegistryFault Unit :=
  if registry.families.isEmpty then .error .noFamilies
  else match (registry.families.flatMap registry.missingIn).mapM id with
    | none => .error .unwritable
    | some [] => .ok ()
    | some missing => .error (.missingHandlers missing)

/-- Forbids any further registration, if the registry is complete. -/
def freeze (registry : Registry) : Except RegistryFault Registry :=
  match registry.validate with
  | .ok _ => .ok { registry with frozen := true }
  | .error fault => .error fault

/-- The families in the order in which they are preferred. -/
def ordered (registry : Registry) : List Family :=
  registry.families.mergeSort fun a b => b.priority ≤ a.priority

/-- A registry with families registered one after the other, up to the first that fails. -/
def registerAll (registry : Registry) : List Family → Except RegistryFault Registry
  | [] => .ok registry
  | family :: rest =>
    let step := registry.registerFamily family
    match step.fault with
    | some fault => .error fault
    | none => registerAll step.registry rest

/-- A registry over a library with the given families, frozen or not. -/
def build (library : Library) (families : List Family) (freezing : Bool) :
    Except RegistryFault Registry :=
  match (ofLibrary library).registerAll families with
  | .error fault => .error fault
  | .ok registry => if freezing then registry.freeze else .ok registry

end Registry

/-- The wording of a refusal. -/
def RegistryFault.message : RegistryFault → String
  | .frozen => "Grammar registry is frozen"
  | .badKey => "The key of a family must be a key"
  | .badHandlerName => "A handler name must be a key"
  | .noFamilies => "Grammar defines no delimiter families"
  | .missingHandlers slots =>
    let list := String.ofList (Text.join [',', ' '] slots)
    s!"No handlers registered for: {list}"
  | .unwritable => Numeral.unwritable

/-- The wording of a warning. -/
def RegistryWarning.message : RegistryWarning → String
  | .familyReplaced key =>
    let key := String.ofList key
    s!"Delimiter '{key}' overwrites existing definition"
  | .handlerReplaced family tag =>
    let family := String.ofList family
    let tag := match tag with
      | some [] => "<default>"
      | some t => String.ofList t
      | none => "<default>"
    s!"Handler for {family}:{tag} overwrites existing handler"

end Stencil
