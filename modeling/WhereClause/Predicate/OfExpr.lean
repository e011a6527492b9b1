import WhereClause.Node.OfExpr
import WhereClause.Clause.OfNode

/-!
# The predicate of an expression under a mapping

First the tree of the expression, then the text of the tree. `compile` reports last
what came of it, so that every run ends with exactly one such event.
-/
namespace WhereClause

/-- The predicate of an expression. -/
def Predicate.ofExpr (m : Mapping) (e : Expr) : Traced Predicate := do
  let node ← e.toPredicate
  Predicate.ofNode m node

/-- The event that reports an outcome. -/
def outcomeEvent (m : Mapping) : Except Error Predicate → Event
  | .ok p => .predicateAccepted p.parameters.length m.tableAlias p.text.utf8ByteSize
  | .error e => .predicateRejected e

/-- Compiles an expression, and reports the outcome. -/
def compile (m : Mapping) (e : Expr) : Traced Predicate :=
  let run := Predicate.ofExpr m e
  ⟨run.events ++ [outcomeEvent m run.result], run.result⟩

/-- The report of the outcome comes last. -/
theorem events_compile (m : Mapping) (e : Expr) :
    (compile m e).events
      = (Predicate.ofExpr m e).events ++ [outcomeEvent m (compile m e).result] := rfl

end WhereClause
