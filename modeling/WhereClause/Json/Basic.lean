import WhereClause.Binary64.Basic
import WhereClause.Keyed

/-!
# JSON values

Numbers are integers or finite doubles, and the two never meet: `1` and `1.0` are
different values. The fields of an object stand in the order in which they are
written; the reader yields them in ascending order of name with no name twice.
-/
namespace WhereClause

inductive Json where
  | null
  | bool (value : Bool)
  | int (value : Int)
  | float (value : Binary64)
  | text (value : String)
  | array (items : List Json)
  | object (fields : List (String × Json))
  deriving Repr, BEq, Inhabited

namespace Json

def isNull : Json → Bool
  | .null => true
  | _ => false

/-- The naturals below `2^64` fit a word. -/
def wordLimit : Nat := 0x10000000000000000

/-- Negative integers down to `-2^63` fit a signed word. -/
def signedLimit : Nat := 0x8000000000000000

/-- The integers that a JSON text can hold as integers. -/
def inIntRange (n : Int) : Bool :=
  decide (-(signedLimit : Int) ≤ n) && decide (n < (wordLimit : Int))

/-- An object from pairs in any order. -/
def ofPairs (pairs : List (String × Json)) : Json :=
  .object (Keyed.ofList pairs)

@[simp] theorem isNull_iff (j : Json) : j.isNull = true ↔ j = .null := by
  cases j <;> simp [isNull]

end Json
end WhereClause
