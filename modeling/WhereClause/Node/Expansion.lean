import WhereClause.Error
import WhereClause.Node.Basic

/-!
# Expansion of predicate methods

The predicate that a method stands for, over operands that are nodes already. The
forms that end in `OrNull` pair the comparison with a check that the parameter of
that comparison is null, so the predicate holds whenever the caller binds nothing.
-/
namespace WhereClause.Expansion

/-- The member path that a method requires. -/
def expectMember (method : String) : Node → Except Error MemberPath
  | .member path => .ok path
  | other =>
    .error (.unsupportedShape (method ++ " expects a member path, got " ++ other.shapeName))

/-- The literal that a method requires. -/
def expectLiteral (method : String) : Node → Except Error Literal
  | .literal literal => .ok literal
  | other =>
    .error (.unsupportedShape (method ++ " expects a constant value, got " ++ other.shapeName))

/-- The set of values that a method requires; null stands for one that is not bound. -/
def expectCollection (method : String) (n : Node) : Except Error Literal := do
  let literal ← expectLiteral method n
  if literal.isNull || literal.kind.isCollection then return literal
  else throw (.unsupportedShape (method ++ " expects a collection, got " ++ literal.kind.label))

/-- The comparison, or the check that its parameter is null. The value is bound
even if it is null; the check has the same kind and so names the same parameter. -/
def orUnbound (op : Operation) (path : MemberPath) (value : Literal) : Node :=
  .or (.binary op (.member path) (.literal value.force))
    (.binary .eq (.member path.toNullRef) (.literal (.null value.kind)))

/-- The member matches a pattern of the value. -/
def stringMatch (pattern : Pattern) (member value : Node) : Except Error Node := do
  let path ← expectMember "string match" member
  let literal ← expectLiteral "string match" value
  return .binary .like (.member (path.format pattern)) (.literal literal)

/-- The member contains the value, or no value is bound. -/
def likeOrNull (member value : Node) : Except Error Node := do
  let path ← expectMember "LikeOrNull" member
  let literal ← expectLiteral "LikeOrNull" value
  return orUnbound .like (path.format .contains) literal

/-- The member equals the value, or no value is bound. -/
def equalsOrNull (member value : Node) : Except Error Node := do
  let path ← expectMember "EqualsOrNull" member
  let literal ← expectLiteral "EqualsOrNull" value
  return orUnbound .eq path literal

/-- The member is in the collection. -/
def containsInCollection (collection member : Node) : Except Error Node := do
  let literal ← expectCollection "Contains" collection
  let path ← expectMember "Contains" member
  return .binary .within (.member path) (.literal literal)

/-- There is nothing to be a member of. -/
def isEmptySet : Json → Bool
  | .null => true
  | .array items => items.isEmpty
  | _ => false

/-- The member is in the collection, or the collection is null or empty; or, for a
member and a text, the same as `likeOrNull`. An empty collection makes no clause:
the predicate is then true for every row. -/
def containsOrNull (first second : Node) : Except Error Node :=
  match first, second with
  | .literal _, .member path => do
    let literal ← expectCollection "ContainsOrNull" first
    if isEmptySet literal.value then return .tautology
    else return orUnbound .within path literal
  | .member path, .literal literal => return orUnbound .like (path.format .contains) literal
  | _, _ =>
    .error (.unsupportedShape
      ("ContainsOrNull over " ++ first.shapeName ++ " and " ++ second.shapeName))

end WhereClause.Expansion
