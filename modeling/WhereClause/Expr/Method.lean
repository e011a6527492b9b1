import WhereClause.Error
import WhereClause.Pattern

/-!
# Predicate methods

The named predicates that a call can invoke. The forms that end in `OrNull` also
hold when the caller binds no value.
-/
namespace WhereClause

inductive Method where
  | startsWith
  /-- A substring of a member, or membership in a collection. -/
  | contains
  | endsWith
  | containsOrNull
  | likeOrNull
  | equalsOrNull
  deriving DecidableEq, Repr

namespace Method

def all : List Method := [startsWith, contains, endsWith, containsOrNull, likeOrNull, equalsOrNull]

/-- The name, in documents and in messages. -/
def name : Method → String
  | startsWith => "StartsWith"
  | contains => "Contains"
  | endsWith => "EndsWith"
  | containsOrNull => "ContainsOrNull"
  | likeOrNull => "LikeOrNull"
  | equalsOrNull => "EqualsOrNull"

def ofName? (s : String) : Option Method := all.find? (·.name == s)

/-- The method of a call by name with some number of operands. -/
def named (name : String) (arity : Nat) : Except Error Method :=
  match ofName? name with
  | some method => .ok method
  | none => .error (.unsupportedOperation name arity)

/-- The pattern of the methods that match text with one operand. -/
def pattern? : Method → Option Pattern
  | startsWith => some .startsWith
  | contains => some .contains
  | endsWith => some .endsWith
  | containsOrNull | likeOrNull | equalsOrNull => none

theorem ofName?_name (m : Method) : ofName? m.name = some m := by
  cases m <;> decide

end Method
end WhereClause
