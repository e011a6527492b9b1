/-!
# Errors

Why an expression has no predicate. Each error ends the work on it at once; no
partial text is ever handed out. The wording of all of them is `Error.message`.
-/
namespace WhereClause

inductive Error where
  /-- The expression has a form that is no predicate. -/
  | unsupportedShape (detail : String)
  /-- No predicate method has this name, or not with this many operands. -/
  | unsupportedOperation (name : String) (arity : Nat)
  /-- The operator has no form in a clause. -/
  | unsupportedOperator (detail : String)
  /-- The predicate tree pairs nodes that no expression yields. -/
  | malformedTree (detail : String)
  /-- The member path is not registered, and only registered ones are allowed. -/
  | unmappedMember (path : String)
  deriving DecidableEq, Repr

namespace Error

def message : Error → String
  | unsupportedShape detail => "Unsupported expression shape: " ++ detail
  | unsupportedOperation name arity =>
    "Unsupported operation: " ++ name ++ " with " ++ toString arity ++ " operand(s)"
  | unsupportedOperator detail => "Unsupported operator: " ++ detail
  | malformedTree detail => "Malformed predicate tree: " ++ detail
  | unmappedMember path => "Unmapped member path: " ++ path

/-- The stable code of the kind of error. -/
def code : Error → String
  | unsupportedShape _ => "PREDSQL_UNSUPPORTED_SHAPE"
  | unsupportedOperation _ _ => "PREDSQL_UNSUPPORTED_OPERATION"
  | unsupportedOperator _ => "PREDSQL_UNSUPPORTED_OPERATOR"
  | malformedTree _ => "PREDSQL_MALFORMED_TREE"
  | unmappedMember _ => "PREDSQL_UNMAPPED_MEMBER"

/-- The error points at a defect of this library and not of its input. -/
def isInternal : Error → Bool
  | malformedTree _ => true
  | _ => false

end Error
end WhereClause
