import WhereClause.Expr.Method
import WhereClause.Expr.Operator
import WhereClause.Kind
import WhereClause.Text.Parts

/-!
# Filter expressions

What a caller's filter is captured as, and the functions that build one. The
`subject` is the row being filtered; a member chain on it names a column, a member
chain on a constant reads a captured value. `lambda` and `convert` are wrappers.
-/
namespace WhereClause

inductive Expr where
  | constant (value : Json) (kind : Kind)
  /-- The row being filtered. -/
  | subject
  | lambda (body : Expr)
  /-- A coercion without effect. -/
  | convert (operand : Expr)
  | member (receiver : Expr) (name : String) (kind : Kind)
  | binary (op : BinaryOperator) (left right : Expr)
  | call (method : Method) (receiver : Option Expr) (args : List Expr)
  deriving Repr, BEq, Inhabited

namespace Expr

/-- A constant whose kind is left to its value. -/
def ofValue (value : Json) : Expr := .constant value .any

/-- The member of an expression, its kind not declared. -/
def get (e : Expr) (name : String) : Expr := .member e name .any

/-- The member chain on the subject that a dotted path names. -/
def field (path : String) : Expr := (Text.parts '.' path).foldl get .subject

/-- Declares the kind of a member or a constant; other forms have none to declare. -/
def typed (e : Expr) (declared : Kind) : Expr :=
  match e with
  | .member receiver name _ => .member receiver name declared
  | .constant value _ => .constant value declared
  | other => other

def equals (e other : Expr) : Expr := .binary .equal e other
def notEquals (e other : Expr) : Expr := .binary .notEqual e other
def gt (e other : Expr) : Expr := .binary .greaterThan e other
def ge (e other : Expr) : Expr := .binary .greaterThanOrEqual e other
def lt (e other : Expr) : Expr := .binary .lessThan e other
def le (e other : Expr) : Expr := .binary .lessThanOrEqual e other
def and (e other : Expr) : Expr := .binary .andAlso e other
def or (e other : Expr) : Expr := .binary .orElse e other

def startsWith (e text : Expr) : Expr := .call .startsWith (some e) [text]

/-- A substring of a member, or membership if the receiver is a collection. -/
def contains (e item : Expr) : Expr := .call .contains (some e) [item]

def endsWith (e text : Expr) : Expr := .call .endsWith (some e) [text]

/-- Membership in a collection, as a call of two operands. -/
def inCollection (collection item : Expr) : Expr := .call .contains none [collection, item]

def likeOrNull (e text : Expr) : Expr := .call .likeOrNull none [e, text]

def equalsOrNull (e value : Expr) : Expr := .call .equalsOrNull none [e, value]

/-- A collection with a member, or a member with a text. -/
def containsOrNull (e item : Expr) : Expr := .call .containsOrNull none [e, item]

/-- The call of a method known by its name only. -/
def callNamed (name : String) (receiver : Option Expr) (args : List Expr) : Except Error Expr := do
  let method ← Method.named name args.length
  return .call method receiver args

end Expr
end WhereClause
