import WhereClause.Expr.Basic
import WhereClause.Log.Traced
import WhereClause.Node.Expansion

/-!
# The predicate of an expression

Wrappers are taken off, member chains on the subject become paths, member chains
on constants are read there and then, and calls are expanded. Column names play no
part: a path is kept as the members that were named.
-/
namespace WhereClause

/-- The message for the subject where a value is required. -/
def subjectAsValue : Error :=
  .unsupportedShape "query subject used as a value; compare one of its members"

namespace Expr

/-- The subject, possibly behind coercions. -/
def isSubject : Expr → Bool
  | .subject => true
  | .convert operand => operand.isSubject
  | _ => false

end Expr

namespace Node

/-- The operands are of sorts that the operation can combine: predicates with
predicates, and otherwise a literal on the right or, if the operation has a
converse, on the left of a member path. -/
def combinable (op : Operation) (left right : Node) : Bool :=
  if op.isLogical then left.isComposite && right.isComposite
  else match left, right with
    | .member _, .literal _ => true
    | .literal _, .literal _ => true
    | .literal _, .member _ => op.hasConverse
    | left, right => left.isComposite && right.isComposite

/-- The composite of two operands; a member path always ends up on the left of a literal. -/
def combine (op : Operation) (left right : Node) : Except Error Node :=
  if combinable op left right then
    match left, right with
    | .literal _, .member _ => .ok (binary op.converse right left)
    | _, _ => .ok (binary op left right)
  else
    .error (.unsupportedShape (left.shapeName ++ " " ++ op.label ++ " " ++ right.shapeName))

/-- The member of a captured value: a field of an object, null if it has none of
that name. Nothing but an object has members. -/
def memberOfConstant (value : Json) (name : String) (kind : Kind) : Except Error Node :=
  match value with
  | .object fields =>
    let field := (Keyed.find? fields name).getD .null
    .ok (.literal (.plain (kind.orOf field) field))
  | other =>
    .error (.unsupportedShape
      ("member \x60" ++ name ++ "\x60 of a " ++ (Kind.of other).label ++ " constant"))

/-- The member of a node that is not the subject. -/
def memberOf (receiver : Node) (name : String) (kind : Kind) : Except Error Node :=
  match receiver with
  | .member parent => .ok (.member (parent.child kind name))
  | .literal captured => memberOfConstant captured.value name kind
  | .composite _ _ _ _ =>
    .error (.unsupportedShape
      ("member \x60" ++ name ++ "\x60 of a " ++ receiver.shapeName ++ " expression"))

/-- The predicate of a method over two operands. -/
def expandPair (method : Method) (first second : Node) : Except Error Node :=
  match method with
  | .contains => Expansion.containsInCollection first second
  | .containsOrNull => Expansion.containsOrNull first second
  | .likeOrNull => Expansion.likeOrNull first second
  | .equalsOrNull => Expansion.equalsOrNull first second
  | .startsWith | .endsWith => .error (.unsupportedOperation method.name 2)

/-- The predicate of a method called on a receiver with one argument. On a literal
`contains` is membership, on anything else a substring. -/
def expandCall (method : Method) (receiver arg : Node) : Except Error Node :=
  match method.pattern?, receiver with
  | some .contains, .literal _ => Expansion.containsInCollection receiver arg
  | some pattern, _ => Expansion.stringMatch pattern receiver arg
  | none, _ => expandPair method receiver arg

end Node

namespace Expr

/-- The node of an expression, with the calls expanded on the way. -/
def toNode : Expr → Traced Node
  | .constant value kind => pure (.literal (.plain (kind.orOf value) value))
  | .subject => Traced.fail subjectAsValue
  | .lambda body => body.toNode
  | .convert operand => operand.toNode
  | .member receiver name kind =>
    if receiver.isSubject then pure (.member (.ofSegments kind [name]))
    else do
      let node ← receiver.toNode
      Traced.ofResult (node.memberOf name kind)
  | .binary op left right => do
    let op ← Traced.ofResult op.operation
    let left ← left.toNode
    let right ← right.toNode
    Traced.ofResult (Node.combine op left right)
  | .call method (some receiver) [arg] => do
    let receiver ← receiver.toNode
    let arg ← arg.toNode
    let node ← Traced.ofResult (Node.expandCall method receiver arg)
    Traced.report (.predicateExpanded method)
    return node
  | .call method none [first, second] => do
    let first ← first.toNode
    let second ← second.toNode
    let node ← Traced.ofResult (Node.expandPair method first second)
    Traced.report (.predicateExpanded method)
    return node
  | .call method _ args => Traced.fail (.unsupportedOperation method.name args.length)

/-- A whole predicate is a composite; a leaf is refused. -/
def requireComposite (node : Node) : Except Error Node :=
  if node.isComposite then .ok node
  else .error (.unsupportedShape (node.shapeName ++ " used as a whole predicate"))

/-- The predicate of an expression. -/
def toPredicate (e : Expr) : Traced Node := do
  let node ← e.toNode
  Traced.ofResult (requireComposite node)

end Expr
end WhereClause
