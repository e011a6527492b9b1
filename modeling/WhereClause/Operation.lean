/-!
# Operations

The operators that a predicate tree can carry, and their tokens in a clause. An
operation without a token can stand in a tree but never in a text.
-/
namespace WhereClause

inductive Operation where
  | eq
  | ne
  | gt
  | ge
  | lt
  | le
  | and
  | or
  | like
  /-- Membership in a set. -/
  | within
  | negate
  | negateChecked
  | not
  | coalesce
  deriving DecidableEq, Repr

namespace Operation

def all : List Operation :=
  [eq, ne, gt, ge, lt, le, and, or, like, within, negate, negateChecked, not, coalesce]

/-- The name in documents. -/
def name : Operation → String
  | eq => "eq"
  | ne => "ne"
  | gt => "gt"
  | ge => "ge"
  | lt => "lt"
  | le => "le"
  | and => "and"
  | or => "or"
  | like => "like"
  | within => "in"
  | negate => "negate"
  | negateChecked => "negate_checked"
  | not => "not"
  | coalesce => "coalesce"

/-- The name in messages. -/
def label : Operation → String
  | eq => "Eq"
  | ne => "Ne"
  | gt => "Gt"
  | ge => "Ge"
  | lt => "Lt"
  | le => "Le"
  | and => "And"
  | or => "Or"
  | like => "Like"
  | within => "In"
  | negate => "Negate"
  | negateChecked => "NegateChecked"
  | not => "Not"
  | coalesce => "Coalesce"

def ofName? (s : String) : Option Operation := all.find? (·.name == s)

/-- The token in a clause. -/
def token? : Operation → Option String
  | eq => some "="
  | ne => some "!="
  | gt => some ">"
  | ge => some ">="
  | lt => some "<"
  | le => some "<="
  | and => some "AND"
  | or => some "OR"
  | like => some "LIKE"
  | within => some "IN"
  | negate => some "-"
  | negateChecked => some "-"
  | not => some "!"
  | coalesce => none

/-- The operation joins two predicates. -/
def isLogical : Operation → Bool
  | and | or => true
  | _ => false

/-- The operation that says the same of swapped operands. -/
def converse : Operation → Operation
  | gt => lt
  | ge => le
  | lt => gt
  | le => ge
  | op => op

/-- Swapping the operands can be undone by `converse`. -/
def hasConverse : Operation → Bool
  | eq | ne | gt | ge | lt | le => true
  | _ => false

@[simp] theorem converse_converse (op : Operation) : op.converse.converse = op := by
  cases op <;> rfl

@[simp] theorem hasConverse_converse (op : Operation) :
    op.converse.hasConverse = op.hasConverse := by
  cases op <;> rfl

end Operation
end WhereClause
