import Stencil.Program.Generation

/-!
# A compiler

Before a tag of a family with names can be read, the names are prepared, and must all be texts for
that. A compiler prepares the names of a family when it meets the first tag of the family, and keeps
them under the key of the family: what later templates find there is what an earlier one has left,
even one that could not be compiled.
-/

namespace Stencil

/-- The names of families that have been prepared, under the keys of the families. -/
abbrev Prepared := List (Value × List (Text × TagSpec))

/-- A computation that uses what has been prepared and may prepare more. -/
abbrev Preparing := StateM Prepared

namespace Preparing

/-- The names of a family, prepared if they are not yet. -/
def names? (family : Family) : Preparing (Option (List (Text × TagSpec))) := do
  let prepared ← get
  match prepared.find? fun e => Value.sameKey family.key e.1 with
  | some e => return some e.2
  | none =>
    match Tag.names? family.tags with
    | none => return none
    | some names =>
      set ((family.key, names) :: prepared)
      return some names

/-- Reads a tag; `none` if it begins with no name of its family. -/
def read (families : List Family) (raw : Text) : Preparing (Except Tag.Fault (Option Tag)) :=
  match Family.next? families raw with
  | some (0, family) =>
    if family.hasNames then do
      match ← names? family with
      | none => return .error .untypedName
      | some names => return Tag.readNamed family names (Text.trim (Tag.inner family raw))
    else return (Tag.readAnonymousIn family raw).map some
  | _ => return .ok none

/-- Adds the segment with the given index to a document under construction. -/
def add (families : List Family) (b : Building) (index : Nat) (segment : Segment) :
    Preparing (Except BuildFault Building) :=
  match segment.kind with
  | .text => return .ok (b.addText segment.raw segment.position)
  | .tag family => do
    let reading ← read families segment.raw
    return b.addReading families index segment family reading

/-- Adds segments, the first of which has the given index. -/
def addAll (families : List Family) (b : Building) (index : Nat) :
    List Segment → Preparing (Except BuildFault Building)
  | [] => return .ok b
  | segment :: rest => do
    match ← add families b index segment with
    | .ok b => addAll families b (index + 1) rest
    | .error fault => return .error fault

/-- The document that segments make. -/
def document (families : List Family) (segments : List Segment) :
    Preparing (Except BuildFault Document) := do
  match ← addAll families .empty 0 segments with
  | .error fault => return .error fault
  | .ok b => return b.finish.map fun children => ⟨children, segments⟩

/-- The document that a template is. -/
def parse (registry : Registry) (template : Text) : Preparing (Except CompileFault Document) :=
  match Segment.cut registry.ordered template with
  | .error fault => return .error (.unterminated fault)
  | .ok segments => do
    let built ← document registry.ordered segments
    return built.mapError .unbuilt

/-- The fragment of a template. -/
def compile (registry : Registry) (template : Text) :
    Preparing (Except CompileFault Fragment) := do
  match ← parse registry template with
  | .ok document => return Program.generate registry document
  | .error fault => return .error fault

end Preparing

/-- A registry with the names that have been prepared of its families. -/
structure Compiler where
  registry : Registry
  prepared : Prepared

namespace Compiler

/-- A compiler that has met no template yet. -/
def ofRegistry (registry : Registry) : Compiler := ⟨registry, []⟩

/-- What a computation gives, and the compiler with what it has prepared. -/
def run {α : Type} (compiler : Compiler) (x : Preparing α) : α × Compiler :=
  let (a, prepared) := StateT.run x compiler.prepared
  (a, { compiler with prepared := prepared })

/-- The document that a template is. -/
def parse (compiler : Compiler) (template : Text) : Except CompileFault Document × Compiler :=
  compiler.run (Preparing.parse compiler.registry template)

/-- The fragment of a template. -/
def compile (compiler : Compiler) (template : Text) : Except CompileFault Fragment × Compiler :=
  compiler.run (Preparing.compile compiler.registry template)

end Compiler
end Stencil
