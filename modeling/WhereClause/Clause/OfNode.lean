import WhereClause.Clause.Basic
import WhereClause.Mapping.Basic
import WhereClause.Node.Basic

/-!
# The clause of a predicate tree

A composite joins two composites, or a member path and a literal, or two literals;
any other pair has no clause. The pair is looked at first, then the operation, then
the children from left to right; in a comparison the path is resolved before the
value is looked at. The first of these that fails is the error.
-/
namespace WhereClause

/-- The token of an operation, which one of them lacks. -/
def Operation.token (op : Operation) : Except Error String :=
  match op.token? with
  | some token => .ok token
  | none => .error (.unsupportedOperator op.label)

namespace Clause

/-- Whether an operation asks a value not to be null; only equality and inequality
can be asked of null. -/
def nullSense (op : Operation) : Except Error Bool :=
  match op with
  | .eq => .ok false
  | .ne => .ok true
  | other => .error (.unsupportedOperator (other.label ++ " against null"))

/-- What a member path stands for: the parameter it refers back to, or its identifier. -/
def operand (m : Mapping) (path : MemberPath) (name : String) : Traced Operand :=
  if path.nullRef then pure (.parameter name) else do
    let identifier ← m.resolve path.dotted
    return .column identifier

/-- The clause of a member path and a literal. -/
def ofComparison (m : Mapping) (op : Operation) (path : MemberPath) (literal : Literal) :
    Traced Clause := do
  let token ← Traced.ofResult op.token
  let name := parameterName path.segments literal.kind
  let left ← operand m path name
  if literal.isNull && !literal.forced then
    let negated ← Traced.ofResult (nullSense op)
    return .nullTest left negated
  else
    return .bound left token path.formatter name literal.value

/-- The clause of a tree under a mapping. -/
def ofNode (m : Mapping) : Node → Traced Clause
  | .composite _ op left right =>
    match left, right with
    | .composite _ _ _ _, .composite _ _ _ _ => do
      let token ← Traced.ofResult op.token
      let leftClause ← ofNode m left
      let rightClause ← ofNode m right
      return .join leftClause token rightClause
    | .member path, .literal literal => ofComparison m op path literal
    | .literal a, .literal b => do
      let token ← Traced.ofResult op.token
      return .constants a.value token b.value
    | _, _ =>
      Traced.fail (.malformedTree (left.shapeName ++ " " ++ op.label ++ " " ++ right.shapeName))
  | leaf => Traced.fail (.malformedTree (leaf.shapeName ++ " in predicate position"))

end Clause

/-- The predicate of a tree under a mapping. -/
def Predicate.ofNode (m : Mapping) (n : Node) : Traced Predicate := do
  let clause ← Clause.ofNode m n
  return clause.predicate

/-- A tree has a predicate exactly when it has a clause, and then the clause's. -/
theorem Predicate.result_ofNode_eq_ok_iff (m : Mapping) (n : Node) (p : Predicate) :
    (Predicate.ofNode m n).result = .ok p
      ↔ ∃ c, (Clause.ofNode m n).result = .ok c ∧ c.predicate = p := by
  unfold Predicate.ofNode
  rw [Traced.result_bind]
  cases (Clause.ofNode m n).result with
  | error e =>
    show (Except.error e : Except Error Predicate) = .ok p ↔ _
    simp
  | ok c =>
    show (Except.ok c.predicate : Except Error Predicate) = .ok p ↔ _
    simp

end WhereClause
