import Stencil.Execution.Machine
import Stencil.Library.Standard
import Stencil.Program.Compiler
import Stencil.Text.Sha1
import Stencil.Text.Utf8

/-!
# The engine

An engine compiles templates over a frozen registry and keeps what it has compiled: a template that
is asked for again, under the same name and with the same text, is the very same template. Templates
are kept under their name and the digest of their text. Whether two templates are the same is told
by their serial numbers.
-/

namespace Stencil

variable [Host]

/-- A compiled template. -/
structure Template where
  name : Text
  body : Fragment
  /-- Tells this template from every other one that the engine has compiled. -/
  serial : Nat

/-- The text of a template filled with data. -/
def Template.run (template : Template) (data : Value) : Except RunFault Text :=
  Machine.render template.body data

/-- A compiler with its cache. -/
structure Engine where
  compiler : Compiler
  /-- The templates that are kept, by name and digest. -/
  cache : List (Text × Template)
  /-- How many templates have been compiled. -/
  compiled : Nat

namespace Engine

/-- The registry of an engine. -/
def registry (engine : Engine) : Registry := engine.compiler.registry

/-- An engine over a registry as it is. -/
def fresh (registry : Registry) : Engine := ⟨.ofRegistry registry, [], 0⟩

/-- An engine over a registry, which is frozen if it is not yet. -/
def ofRegistry (registry : Registry) : Except RegistryFault Engine :=
  if registry.frozen then .ok (fresh registry) else registry.freeze.map fresh

/-- An engine over the standard grammar. -/
def standard : Engine := fresh Standard.registry

/-- The digest of a text, forty hexadecimal digits. -/
def digest (source : Text) : Text := (Sha1.digest (Utf8.encode source)).hexadecimal

/-- What a template is kept under: its name and the digest of its text, with a colon between. -/
def cacheKey (name source : Text) : Text := name ++ ':' :: digest source

/-- The template with a name and a text, which the engine then keeps. A failure leaves the cache as
it is. -/
def compile (engine : Engine) (name source : Text) : Except CompileFault Template × Engine :=
  let key := cacheKey name source
  match engine.cache.lookup key with
  | some template => (.ok template, engine)
  | none =>
    match engine.compiler.compile source with
    | (.error fault, compiler) => (.error fault, { engine with compiler := compiler })
    | (.ok body, compiler) =>
      let template : Template := ⟨name, body, engine.compiled⟩
      (.ok template, ⟨compiler, (key, template) :: engine.cache, engine.compiled + 1⟩)

/-- The text of a template filled with data; the engine keeps the template. -/
def render (engine : Engine) (name source : Text) (data : Value) :
    Except CompileFault (Except RunFault Text) × Engine :=
  let (template, engine) := engine.compile name source
  (template.map fun t => t.run data, engine)

/-- The document that a text is. -/
def parse (engine : Engine) (source : Text) : Except CompileFault Document × Engine :=
  let (document, compiler) := engine.compiler.parse source
  (document, { engine with compiler := compiler })

/-- The engine without any templates kept. -/
def clear (engine : Engine) : Engine := { engine with cache := [] }

end Engine
end Stencil
