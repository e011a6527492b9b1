import WhereClause.Json.Printer
import WhereClause.Keyed
import WhereClause.Log.Severity

/-!
# Log lines

A line is one JSON object: the event and its severity, then the fields in
ascending order of key, whatever order they were given in. Every value is a text.
-/
namespace WhereClause.Log

/-- Puts a field behind those with a key that is not greater. -/
def insertField (field : String × String) : List (String × String) → List (String × String)
  | [] => [field]
  | f :: fields => if field.1 < f.1 then field :: f :: fields else f :: insertField field fields

/-- The fields in ascending order of key; equal keys stay in their order. -/
def sortFields (fields : List (String × String)) : List (String × String) :=
  fields.foldl (fun sorted field => insertField field sorted) []

/-- The object of a line. -/
def record (severity : Severity) (event : String) (fields : List (String × String)) : Json :=
  .object (("event", .text event) :: ("severity", .text severity.name) ::
    (sortFields fields).map fun (key, value) => (key, .text value))

/-- A line without its line feed. -/
def content (severity : Severity) (event : String) (fields : List (String × String)) : String :=
  (record severity event fields).render

/-- A line with the line feed that ends it. -/
def line (severity : Severity) (event : String) (fields : List (String × String)) : String :=
  content severity event fields ++ "\n"

end WhereClause.Log
