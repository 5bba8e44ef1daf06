import Stencil.CommandLine.Run

/-!
# The program

Reads the files that the arguments name, and the standard input if they ask for it, runs the
command on the usual host, and writes what it gives.
-/

namespace Stencil
namespace CommandLine

attribute [local instance] Host.usual

/-- How the program is called. -/
def usage : String :=
  String.intercalate "\n"
    ["usage: stencil [-h] [-V] [-v] COMMAND",
     "  render [--data FILE] [--set KEY=VALUE] [--grammar FILE] TEMPLATE",
     "  tree [--grammar FILE] TEMPLATE",
     "  check [--grammar FILE] TEMPLATE...",
     ""]

/-- The paths that a request names. -/
def Request.paths (request : Request) : List Text :=
  request.grammar.toList ++
    match request.command with
    | .render template data _ => template :: data.toList
    | .tree template => [template]
    | .check templates => templates

/-- The bytes of a file, or why there are none. -/
def readBytes (path : Text) : IO (Except Absence (List UInt8)) := do
  if path.contains (Char.ofNat 0) then return .error .nullCharacter
  if Path.isLong path || (Path.components path).any Path.isLongName then return .error .tooLong
  try
    return .ok (← IO.FS.readBinFile (String.ofList path)).toList
  catch _ => return .error .notFound

/-- The files at some paths. -/
def readAll (paths : List Text) : IO (List (Text × Except Absence (List UInt8))) :=
  paths.mapM fun path => do return (path, ← readBytes path)

/-- The standard input as text, where a path asks for it. -/
def readInput (paths : List Text) : IO Text := do
  if paths.contains ['-'] then
    let bytes ← (← IO.getStdin).readBinToEnd
    match Utf8.decode bytes.toList with
    | .ok t => return t
    | .error fault => throw (IO.userError fault.message)
  else return []

/-- Writes how a run ended, and gives its exit code. -/
def report (outcome : Outcome) : IO UInt32 := do
  let out ← IO.getStdout
  let err ← IO.getStderr
  match outcome with
  | .usage .granted =>
    out.putStr usage
    return 0
  | .usage .mistaken =>
    err.putStr usage
    return 2
  | .escaped fault =>
    err.putStr (fault.message ++ "\n")
    return 1
  | .ended code output error =>
    out.putStr (String.ofList output)
    err.putStr (String.ofList error)
    return code.toUInt32

/-- Runs the program with arguments and gives its exit code. -/
def runProgram (arguments : List Text) : IO UInt32 := do
  let paths := match request arguments with
    | .ok request => request.paths
    | .error _ => []
  let files ← readAll (paths.filter (· ≠ ['-']))
  let input ← readInput paths
  report (run ⟨fun path => (files.lookup path).getD (.error .notFound), input⟩ arguments)

end CommandLine
end Stencil

/-- Runs the program. -/
def main (arguments : List String) : IO UInt32 :=
  Stencil.CommandLine.runProgram (arguments.map Stencil.Text.ofString)
