/-!
# Text patterns

How the operand of `LIKE` is put around a placeholder.
-/
namespace WhereClause

inductive Pattern where
  | startsWith
  | contains
  | endsWith
  deriving DecidableEq, Repr

namespace Pattern

def all : List Pattern := [startsWith, contains, endsWith]

/-- The name in documents. -/
def name : Pattern → String
  | startsWith => "starts_with"
  | contains => "contains"
  | endsWith => "ends_with"

def ofName? (s : String) : Option Pattern := all.find? (·.name == s)

/-- The operand that matches a placeholder's text at the start, anywhere, or at the end. -/
def apply (p : Pattern) (placeholder : String) : String :=
  match p with
  | startsWith => placeholder ++ " + '%'"
  | contains => "'%' + " ++ placeholder ++ " + '%'"
  | endsWith => "'%' + " ++ placeholder

end Pattern
end WhereClause
