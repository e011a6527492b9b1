import WhereClause.Command.Error
import WhereClause.Predicate.Basic

/-!
# Responses

The one JSON object that a command answers with, its fields in ascending order.
-/
namespace WhereClause.Response

/-- The answer of a command that succeeded. -/
def ok (data : Json) : Json := .object [("data", data), ("status", .text "ok")]

/-- The answer of a command that failed. -/
def error (code message : String) : Json :=
  .object [("code", .text code), ("message", .text message), ("status", .text "error")]

def ofError (e : CommandError) : Json := error e.code e.message

/-- A predicate as the data of an answer. -/
def predicate (p : Predicate) : Json :=
  .object [("parameters", p.parametersJson), ("text", .text p.text)]

/-- The outcome of resolving a path as the data of an answer. -/
def resolution (path identifier : String) (mapped : Bool) : Json :=
  .object [("identifier", .text identifier), ("mapped", .bool mapped), ("path", .text path)]

end WhereClause.Response
