import Stencil.Document.Node
import Stencil.Program.CompileFault

/-!
# Handlers

A handler turns a tag into a fragment, given the fragment of what the tag holds. Handlers have a
name under which a grammar can ask for them; a library is a list of handlers by name.
-/

namespace Stencil

/-- What makes a fragment of a tag. -/
structure Handler where
  name : Text
  apply : Occurrence → Fragment → Except CompileFault Fragment

/-- Handlers by the names under which a grammar asks for them. -/
abbrev Library := List (Text × Handler)

namespace Library

/-- The handler with a name, the last one counting. -/
def find? (library : Library) (name : Text) : Option Handler := library.reverse.lookup name

/-- Handlers under their own names. -/
def ofHandlers (handlers : List Handler) : Library := handlers.map fun h => (h.name, h)

end Library
end Stencil
