import Stencil.CommandLine.Arguments
import Stencil.CommandLine.Assignment
import Stencil.CommandLine.Report
import Stencil.Engine
import Stencil.Grammar.Loading

/-!
# Running a command

A command reads its grammar first, then its data and assignments, then its templates; the first
thing that is wrong decides how it ends. What a user can mend is written to the error output, with
exit code 2. A check does not end at a template that does not compile, but notes it, and ends with
code 1. What is neither, a broken literal for instance, is no matter of the command and is left to
the caller as an `Escaped` fault.
-/

namespace Stencil
namespace CommandLine

variable [Host]

/-- A fault that no command takes care of. -/
inductive Escaped where
  | compile (fault : CompileFault)
  | load (fault : LoadFault)
  /-- A value or a data file is no YAML document, or one without a value. -/
  | yaml (fault : Yaml.Fault)
  /-- No file can have the path. -/
  | longPath
  | run (fault : Raised)
  deriving DecidableEq, Repr

/-- The wording of a fault that is left to the caller. -/
def Escaped.message : Escaped → String
  | .compile fault => fault.located
  | .load fault => fault.message
  | .yaml fault => fault.message
  | .longPath => LoadFault.longPath.message
  | .run fault => fault.message

/-- How a run of the program ends. -/
inductive Outcome where
  /-- The arguments ended it. -/
  | usage (exit : Exit)
  | ended (code : Nat) (output error : Text)
  | escaped (fault : Escaped)

/-- What ends a command early. -/
inductive Stop where
  /-- A message for the user. -/
  | message (text : String)
  | escaped (fault : Escaped)

/-- The files and the standard input that a command can read. The input can be read once. -/
structure Surroundings where
  files : FileView
  input : Text

/-- What a fault in loading a grammar means for the command. -/
def ofLoadFault (fault : LoadFault) : Stop :=
  if fault.isForeign then .escaped (.load fault) else .message fault.message

/-- What a fault in compiling a template means for the command. -/
def ofCompileFault (fault : CompileFault) : Stop :=
  match fault.class?, fault with
  | some _, _ => .message fault.located
  | none, .escaped reason =>
    if reason.isBadValue then .message reason.message else .escaped (.compile fault)
  | none, _ => .escaped (.compile fault)

/-- What a fault in filling a template means for the command. -/
def ofRunFault : RunFault → Stop
  | .render fault => .message fault.located
  | .raised (.misused fault) => .escaped (.run (.misused fault))
  | .raised cause => .message cause.message

/-- What a fault in an assignment means for the command. -/
def ofAssignmentFault : AssignmentFault → Stop
  | .unreadable fault =>
    if fault.isBadValue then .message fault.message else .escaped (.yaml fault)
  | fault => .message fault.message

/-- The engine over the chosen grammar, or over the standard one. An empty choice is none. -/
def engineOf (around : Surroundings) (grammar : Option Text) : Except Stop Engine :=
  match grammar.filter (!·.isEmpty) with
  | none => .ok .standard
  | some path =>
    match Registry.load around.files path Standard.library true with
    | .error fault => .error (ofLoadFault fault)
    | .ok registry =>
      (Engine.ofRegistry registry).mapError fun fault => ofLoadFault (.registry fault)

/-- Reads a file as text; `what` says what it is needed for. -/
def readFile (around : Surroundings) (what : String) (path : Text) : Except Stop Text :=
  match around.files path with
  | .error .tooLong => .error (.escaped .longPath)
  | .error _ =>
    let shown := String.ofList (Path.normalise path)
    .error (.message s!"{what} file not found: {shown}")
  | .ok bytes => (Files.decode bytes).mapError fun fault => .message fault.message

/-- Reads a template; a dash stands for the standard input, which is then used up. -/
def readTemplate (around : Surroundings) (path : Text) : Except Stop (Text × Surroundings) :=
  if path = ['-'] then
    .ok (Text.normaliseLineEnds around.input, { around with input := [] })
  else (readFile around "Template" path).map fun t => (t, around)

/-- What a fault in the data file that is shown in a way means for the command. -/
def ofDataFault (shown : String) : Yaml.Fault → Stop
  | .malformed => .message s!"Invalid data file {shown}: malformed document"
  | fault => if fault.isBadValue then .message fault.message else .escaped (.yaml fault)

/-- The data of a file, in which values will be set or not; empty without a file. -/
def readData (around : Surroundings) (path : Option Text) (isSettable : Bool) :
    Except Stop Workspace :=
  match path.filter (!·.isEmpty) with
  | none => .ok ⟨.map [], Yaml.firstIdentity⟩
  | some path =>
    let shown := String.ofList (Path.normalise path)
    match readFile around "Data" path with
    | .error stop => .error stop
    | .ok t =>
      match Yaml.readFrom Yaml.firstIdentity isSettable t with
      | .error fault => .error (ofDataFault shown fault)
      | .ok (v, free) =>
        match Registry.asMap? v with
        | some data => .ok ⟨data, free⟩
        | none => .error (.message s!"Data file must contain a mapping: {shown}")

/-- Fills a template with data and assignments. -/
def runRender (around : Surroundings) (engine : Engine) (template : Text) (data : Option Text)
    (assignments : List Text) : Except Stop Text :=
  match readData around data !assignments.isEmpty with
  | .error stop => .error stop
  | .ok work =>
    match assignAll valueOf work assignments with
    | .error fault => .error (ofAssignmentFault fault)
    | .ok work =>
      match readTemplate around template with
      | .error stop => .error stop
      | .ok (source, _) =>
        match (engine.render template source work.data.exposed).1 with
        | .error fault => .error (ofCompileFault fault)
        | .ok result => result.mapError ofRunFault

/-- The outline of a template. -/
def runTree (around : Surroundings) (engine : Engine) (template : Text) : Except Stop Text :=
  match readTemplate around template with
  | .error stop => .error stop
  | .ok (source, _) =>
    match (engine.parse source).1 with
    | .error fault => .error (ofCompileFault fault)
    | .ok document => .ok (Json.write 0 document.outline.toJson ++ ['\n'])

/-- Checks templates one after the other. -/
def checkAll (around : Surroundings) (engine : Engine) :
    List Text → Except Stop (List CheckResult)
  | [] => .ok []
  | path :: rest =>
    match readTemplate around path with
    | .error (.escaped fault) => .error (.escaped fault)
    | .error (.message message) =>
      (checkAll around engine rest).map (⟨path, some (.missing message)⟩ :: ·)
    | .ok (source, around) =>
      match engine.compile path source with
      | (.ok _, engine) => (checkAll around engine rest).map (⟨path, none⟩ :: ·)
      | (.error fault, engine) =>
        match fault.class? with
        | some kind =>
          (checkAll around engine rest).map (⟨path, some (.compile kind fault)⟩ :: ·)
        | none => .error (ofCompileFault fault)

/-- Does what is asked; gives the exit code and the output. -/
def perform (around : Surroundings) (request : Request) : Except Stop (Nat × Text) :=
  match engineOf around request.grammar with
  | .error stop => .error stop
  | .ok engine =>
    match request.command with
    | .render template data assignments =>
      (runRender around engine template data assignments).map fun t => (0, t)
    | .tree template => (runTree around engine template).map fun t => (0, t)
    | .check templates =>
      (checkAll around engine templates).map fun results =>
        (if results.all CheckResult.isOk then 0 else 1,
          Json.write 0 (reportJson results) ++ ['\n'])

/-- Runs the program with the given arguments. -/
def run (around : Surroundings) (arguments : List Text) : Outcome :=
  match request arguments with
  | .error exit => .usage exit
  | .ok request =>
    match perform around request with
    | .ok (code, output) => .ended code output []
    | .error (.message text) => .ended 2 [] (Text.trimEnd (Text.ofString text) ++ ['\n'])
    | .error (.escaped fault) => .escaped fault

end CommandLine
end Stencil
