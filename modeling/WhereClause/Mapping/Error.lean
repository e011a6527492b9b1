import WhereClause.File

/-!
# Mapping errors

Why a mapping configuration is not taken. How the reader of a malformed text words
its complaint is left open: an ellipsis stands for it.
-/
namespace WhereClause

inductive MappingError where
  /-- The file cannot be read. -/
  | unreadable (failure : ReadFailure)
  /-- The text is not JSON of the expected form. -/
  | malformed
  /-- The configuration breaks a rule. -/
  | invalid (reason : String)
  deriving DecidableEq, Repr

namespace MappingError

def message : MappingError → String
  | unreadable failure => "Failed to read mapping config: " ++ failure.message
  | malformed => "Invalid mapping config JSON: ..."
  | invalid reason => "Invalid mapping config: " ++ reason

/-- The stable code of the kind of error. -/
def code : MappingError → String
  | unreadable _ => "PREDSQL_MAPPING_READ"
  | malformed => "PREDSQL_MAPPING_JSON"
  | invalid _ => "PREDSQL_MAPPING_INVALID"

end MappingError
end WhereClause
