import WhereClause.Clause.Constant
import WhereClause.Pattern
import WhereClause.Predicate.Basic

/-!
# Clauses

The structure of a text: what every pair of parentheses holds. A clause has one
text and one list of parameters, both read off it from left to right, and each
clause is one group in parentheses.
-/
namespace WhereClause

/-- What stands on the left in a clause. -/
inductive Operand where
  | column (identifier : String)
  /-- A reference back to a bound parameter. -/
  | parameter (name : String)
  deriving DecidableEq, Repr

def Operand.text : Operand → String
  | column identifier => identifier
  | parameter name => "@" ++ name

inductive Clause where
  /-- Two clauses joined by a token. -/
  | join (left : Clause) (token : String) (right : Clause)
  /-- Two constants compared where they stand. -/
  | constants (a : Json) (token : String) (b : Json)
  | nullTest (operand : Operand) (negated : Bool)
  /-- A comparison with a value bound under a name, its placeholder wrapped or not. -/
  | bound (operand : Operand) (token : String) (formatter : Option Pattern) (name : String)
      (value : Json)
  deriving Repr, BEq

namespace Clause

/-- A placeholder for a parameter, wrapped as a formatter asks. -/
def placeholder (formatter : Option Pattern) (name : String) : String :=
  match formatter with
  | some pattern => pattern.apply ("@" ++ name)
  | none => "@" ++ name

/-- Two texts around a token, in parentheses. -/
def group (left token right : String) : String := "(" ++ left ++ " " ++ token ++ " " ++ right ++ ")"

def text : Clause → String
  | join left token right => group left.text token right.text
  | constants a token b => group (Constant.render a) token (Constant.render b)
  | nullTest operand negated =>
    "(" ++ operand.text ++ (if negated then " IS NOT NULL" else " IS NULL") ++ ")"
  | bound operand token formatter name _ => group operand.text token (placeholder formatter name)

def parameters : Clause → List Parameter
  | join left _ right => left.parameters ++ right.parameters
  | bound _ _ _ name value => [⟨name, value⟩]
  | constants _ _ _ | nullTest _ _ => []

def predicate (c : Clause) : Predicate := ⟨c.text, c.parameters⟩

end Clause
end WhereClause
