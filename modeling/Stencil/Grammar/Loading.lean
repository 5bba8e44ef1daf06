import Stencil.Files
import Stencil.Grammar.Configuration
import Stencil.Grammar.Registry
import Stencil.Yaml.Document

/-!
# Loading a grammar from a file

A grammar file is a YAML document with a configuration. An empty document, or one that counts as
false, configures nothing. In a file, unlike in a configuration given otherwise, the keys of the
families have to be texts.
-/

namespace Stencil

/-- Why a grammar file gives no registry. -/
inductive LoadFault where
  | notFound (path : Text)
  /-- No file can have the path. -/
  | longPath
  | undecodable (fault : Utf8.Fault)
  /-- The file is no YAML document. -/
  | malformed (path : Text)
  /-- The file is a YAML document, but a part of it has no value. -/
  | valueless (fault : Yaml.Fault)
  | notMap (path : Text)
  | configuration (fault : ConfigurationFault)
  /-- The key of a family is no text. -/
  | untypedKey
  | registry (fault : RegistryFault)
  deriving DecidableEq, Repr

namespace LoadFault

/-- Whether the fault is of a kind that no user of a grammar is told of: a path that no file can
have, or something in the configuration of a type that has no use for it. -/
def isForeign : LoadFault → Bool
  | .longPath => true
  | .valueless fault => !fault.isBadValue
  | .configuration .notMap => true
  | .configuration .claimsEntries => true
  | .configuration .untypedPriority => true
  | .configuration .infinitePriority => true
  | .untypedKey => true
  | .registry .badKey => true
  | .registry .badHandlerName => true
  | _ => false

/-- The wording of a fault. -/
def message : LoadFault → String
  | .notFound path =>
    let path := String.ofList path
    s!"Grammar file not found: {path}"
  | .longPath => "File name too long"
  | .undecodable fault => fault.message
  | .malformed path =>
    let path := String.ofList path
    s!"Invalid YAML in {path}: malformed document"
  | .valueless fault => fault.message
  | .notMap path =>
    let path := String.ofList path
    s!"YAML must be a mapping: {path}"
  | .configuration fault => fault.message
  | .untypedKey => "The keys of the families must be texts"
  | .registry fault => fault.message

end LoadFault

namespace Registry

/-- The value of a document that has to be a map; one that counts as false is an empty map. -/
def asMap? (v : Value) : Option Value :=
  if !v.truthy then some (.map [])
  else if v.entries?.isSome then some v
  else none

/-- Whether a value is a text. -/
def isText : Value → Bool
  | .text _ => true
  | .points _ => true
  | _ => false

/-- The families and handlers that a configuration names, over a library. -/
def configure (library : Library) (freezing : Bool) (configuration : Value) :
    Except LoadFault Registry :=
  match Configuration.families configuration with
  | .error fault => .error (.configuration fault)
  | .ok families => (build library families freezing).mapError .registry

/-- The families of the configuration in a file. -/
def familiesInFile (configuration : Value) : Except LoadFault (List Family) :=
  match Configuration.families configuration with
  | .error fault => .error (.configuration fault)
  | .ok families =>
    if families.all fun f => isText f.key then .ok families else .error .untypedKey

/-- Loads a grammar file. -/
def load (files : FileView) (path : Text) (library : Library) (freezing : Bool) :
    Except LoadFault Registry :=
  let shown := Path.normalise path
  match files path with
  | .error .tooLong => .error .longPath
  | .error _ => .error (.notFound shown)
  | .ok bytes =>
    match Files.decode bytes with
    | .error fault => .error (.undecodable fault)
    | .ok t =>
      match Yaml.read t with
      | .error .malformed => .error (.malformed shown)
      | .error fault => .error (.valueless fault)
      | .ok v =>
        match asMap? v with
        | none => .error (.notMap shown)
        | some configuration =>
          match familiesInFile configuration with
          | .error fault => .error fault
          | .ok families => (build library families freezing).mapError .registry

end Registry
end Stencil
