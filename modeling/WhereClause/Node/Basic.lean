import WhereClause.Kind
import WhereClause.Operation
import WhereClause.Pattern

/-!
# Predicate trees

What an expression means before it is text: literals and member paths as leaves,
and composites of an operation with two children. A composite is logical or a
comparison; `Node.binary` chooses by the operation. Any tree can be written down,
also those that no expression yields.
-/
namespace WhereClause

/-- A value known beforehand. -/
structure Literal where
  kind : Kind
  value : Json
  /-- The value is bound to a parameter even if it is null. -/
  forced : Bool
  deriving Repr, BEq

namespace Literal

/-- A literal that is compared by `IS NULL` if it is null. -/
def plain (kind : Kind) (value : Json) : Literal := ⟨kind, value, false⟩

/-- A literal of the value's own kind. -/
def inferred (value : Json) : Literal := plain (Kind.of value) value

def null (kind : Kind) : Literal := plain kind .null

def force (l : Literal) : Literal := { l with forced := true }

def isNull (l : Literal) : Bool := l.value.isNull

end Literal

/-- A chain of members of the row, outermost first. -/
structure MemberPath where
  /-- The declared kind of the last member. -/
  kind : Kind
  segments : List String
  /-- The path refers back to a bound parameter and not to a column. -/
  nullRef : Bool
  /-- How a placeholder compared with this member is wrapped. -/
  formatter : Option Pattern
  deriving DecidableEq, Repr

namespace MemberPath

def ofSegments (kind : Kind) (segments : List String) : MemberPath := ⟨kind, segments, false, none⟩

/-- The path to a member of the member that `p` leads to. -/
def child (p : MemberPath) (kind : Kind) (name : String) : MemberPath :=
  ofSegments kind (p.segments ++ [name])

/-- The reference back to the parameter bound for this path. -/
def toNullRef (p : MemberPath) : MemberPath := ⟨p.kind, p.segments, true, none⟩

def format (p : MemberPath) (pattern : Pattern) : MemberPath := { p with formatter := some pattern }

/-- The path with points between its members. -/
def dotted (p : MemberPath) : String := ".".intercalate p.segments

end MemberPath

/-- The parameter for a path and the kind of the value bound to it. Sets get a name
of their own, so that a member can be compared with a value and with a set at once. -/
def parameterName (segments : List String) (kind : Kind) : String :=
  String.join segments ++ if kind.isCollection then "Collection" else ""

/-- The two sorts of composites. -/
inductive Form where
  | logical
  | comparison
  deriving DecidableEq, Repr

inductive Node where
  | literal (literal : Literal)
  | member (path : MemberPath)
  | composite (form : Form) (op : Operation) (left right : Node)
  deriving Repr, BEq

namespace Node

/-- The composite of an operation, logical for `and` and `or`. -/
def binary (op : Operation) (left right : Node) : Node :=
  .composite (if op.isLogical then .logical else .comparison) op left right

def or (left right : Node) : Node := binary .or left right

/-- The predicate `1 = 1`. -/
def tautology : Node :=
  binary .eq (.literal (.inferred (.int 1))) (.literal (.inferred (.int 1)))

def isComposite : Node → Bool
  | composite _ _ _ _ => true
  | _ => false

/-- The composites inside one another; a leaf has none. -/
def depth : Node → Nat
  | composite _ _ left right => 1 + max left.depth right.depth
  | _ => 0

/-- The name of the sort of node, in messages. -/
def shapeName : Node → String
  | literal _ => "literal"
  | member _ => "member path"
  | composite .logical _ _ _ => "logical"
  | composite .comparison _ _ _ => "comparison"

end Node
end WhereClause
