import Stencil.Grammar.Registry
import Stencil.Source.Segment

/-!
# The list of the families

Whoever looks for a tag asks for the families in the order in which they are preferred. A directory
is a registry that puts them in order when it is asked for the first time, and keeps the list. The
list counts no more as soon as a family is stored, even if the registration then fails because of
the name of a handler; a registration that is turned down before leaves it as it is, and so does
everything else that a registry is asked.
-/

namespace Stencil

/-- Whether a registration with the fault was turned down before anything was stored. -/
def RegistryFault.isRefusal : RegistryFault → Bool
  | .badHandlerName => false
  | _ => true

/-- A registry with its families in order, if it has been asked for them since the last one was
stored. -/
structure Directory where
  registry : Registry
  kept : Option (List Family)

namespace Directory

/-- A directory that has not been asked yet. -/
def ofRegistry (registry : Registry) : Directory := ⟨registry, none⟩

/-- The families in the order in which they are preferred. The directory keeps the list. -/
def families (directory : Directory) : List Family × Directory :=
  match directory.kept with
  | some list => (list, directory)
  | none =>
    let list := directory.registry.ordered
    (list, { directory with kept := some list })

/-- The first place of a text, at or after a start, at which a family opens, and the one that is
preferred there. -/
def nextAfter? (directory : Directory) (t : Text) (start : Int) :
    Option (Nat × Family) × Directory :=
  let (list, directory) := directory.families
  (Family.nextAfter? list t start, directory)

/-- Registers a family and the handlers that it names. -/
def registerFamily (directory : Directory) (family : Family) : Registration × Directory :=
  let registration := directory.registry.registerFamily family
  let kept := if registration.fault.any (·.isRefusal) then directory.kept else none
  (registration, ⟨registration.registry, kept⟩)

/-- The directory after something else was asked of its registry. -/
def update (directory : Directory) (registry : Registry) : Directory :=
  { directory with registry := registry }

end Directory
end Stencil
