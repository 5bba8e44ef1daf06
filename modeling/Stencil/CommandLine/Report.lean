import Stencil.Document.Outline
import Stencil.Json
import Stencil.Program.CompileFault
import Stencil.Value.Written

/-!
# Reports

Two commands answer with JSON: the outline of a template, and the result of checking several
templates, each with what is wrong with it.
-/

namespace Stencil

/-- The family of a tag in a report, by its key. -/
def familyJson : Value → Json
  | .null => .null
  | key => .text key.asText

namespace Outline

mutual

/-- An outline as JSON. -/
def toJson : Outline → Json
  | .text value =>
    Json.fields
      [("type", .text (Text.ofString "text")), ("value", .text value), ("tag", .null),
       ("delimiter", .null), ("arguments", .object []), ("raw", .null), ("line", .null),
       ("children", .array [])]
  | .tag head children =>
    Json.fields
      [("type", .text (Text.ofString (if head.isDocument then "root" else "tag"))),
       ("value", .null), ("tag", Json.optional head.name), ("delimiter", familyJson head.family),
       ("arguments", .object (head.arguments.map fun a => (a.1, .text a.2))),
       ("raw", Json.optional head.raw), ("line", Json.count head.line),
       ("children", .array (toJsonAll children))]

/-- Outlines as JSON. -/
def toJsonAll : List Outline → List Json
  | [] => []
  | o :: rest => toJson o :: toJsonAll rest

end

end Outline

namespace CommandLine

/-- What a check found wrong with a template. -/
inductive CheckFault where
  /-- The template cannot be read; the message says why. -/
  | missing (message : String)
  /-- The template does not compile. -/
  | compile (kind : FaultClass) (fault : CompileFault)

/-- The result of checking a template. -/
structure CheckResult where
  path : Text
  fault : Option CheckFault

/-- How a class of faults is called in a report. -/
def className : FaultClass → String
  | .malformed => "MalformedTagError"
  | .unbalanced => "UnbalancedTagError"
  | .unknownTag => "UnknownTagError"
  | .expression => "ExpressionSyntaxError"

namespace CheckResult

/-- Whether nothing is wrong. -/
def isOk (result : CheckResult) : Bool := result.fault.isNone

/-- What is wrong, under which name, on which line and in which column. -/
def details : Option CheckFault → Json × Json × Json × Json
  | none => (.null, .null, .null, .null)
  | some (.missing message) =>
    (.text (Text.ofString message), .text (Text.ofString "MissingTemplate"), .null, .null)
  | some (.compile kind fault) =>
    (.text (Text.ofString fault.message), .text (Text.ofString (className kind)),
      Json.count (fault.position?.map Position.line),
      Json.count (fault.position?.map Position.column))

/-- A result as JSON. -/
def toJson (result : CheckResult) : Json :=
  let (message, kind, line, column) := details result.fault
  Json.fields
    [("path", .text result.path), ("ok", .bool result.isOk), ("error", message), ("kind", kind),
     ("line", line), ("column", column)]

end CheckResult

/-- The results of a check as JSON. -/
def reportJson (results : List CheckResult) : Json :=
  Json.fields
    [("ok", .bool (results.all CheckResult.isOk)),
     ("results", .array (results.map CheckResult.toJson))]

end CommandLine
end Stencil
