import WhereClause.Error
import WhereClause.Operation

/-!
# Binary operators

The operators that a front end can put between two expressions. Arithmetic can be
written down but has no operation in a predicate.
-/
namespace WhereClause

inductive BinaryOperator where
  | equal
  | notEqual
  | greaterThan
  | greaterThanOrEqual
  | lessThan
  | lessThanOrEqual
  | andAlso
  | orElse
  | coalesce
  | add
  | subtract
  | multiply
  | divide
  deriving DecidableEq, Repr

namespace BinaryOperator

def all : List BinaryOperator :=
  [equal, notEqual, greaterThan, greaterThanOrEqual, lessThan, lessThanOrEqual, andAlso, orElse,
   coalesce, add, subtract, multiply, divide]

/-- The name in documents. -/
def name : BinaryOperator → String
  | equal => "equal"
  | notEqual => "not_equal"
  | greaterThan => "greater_than"
  | greaterThanOrEqual => "greater_than_or_equal"
  | lessThan => "less_than"
  | lessThanOrEqual => "less_than_or_equal"
  | andAlso => "and_also"
  | orElse => "or_else"
  | coalesce => "coalesce"
  | add => "add"
  | subtract => "subtract"
  | multiply => "multiply"
  | divide => "divide"

def ofName? (s : String) : Option BinaryOperator := all.find? (·.name == s)

/-- The operation in a predicate. -/
def operation : BinaryOperator → Except Error Operation
  | equal => .ok .eq
  | notEqual => .ok .ne
  | greaterThan => .ok .gt
  | greaterThanOrEqual => .ok .ge
  | lessThan => .ok .lt
  | lessThanOrEqual => .ok .le
  | andAlso => .ok .and
  | orElse => .ok .or
  | coalesce => .ok .coalesce
  | add => .error (.unsupportedOperator "Add")
  | subtract => .error (.unsupportedOperator "Subtract")
  | multiply => .error (.unsupportedOperator "Multiply")
  | divide => .error (.unsupportedOperator "Divide")

theorem ofName?_name (op : BinaryOperator) : ofName? op.name = some op := by
  cases op <;> decide

/-- Negations, patterns and membership come from methods only, never from an operator. -/
theorem operation_ne {b : BinaryOperator} {op : Operation} (h : b.operation = .ok op) :
    op ≠ .like ∧ op ≠ .within ∧ op ≠ .negate ∧ op ≠ .negateChecked ∧ op ≠ .not := by
  cases b <;> simp_all [operation] <;> subst h <;> decide

end BinaryOperator
end WhereClause
