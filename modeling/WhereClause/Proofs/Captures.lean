import WhereClause.Proofs.Restating

/-!
# Captured values

A chain of members on a constant is read there and then: it stands for what its names lead to
in the value of the constant (`Expr.Reads.result_toNode`). Of the declared kinds only the last
one counts, and of the value only the fields on the way.
-/
namespace WhereClause

open Outcome

namespace Json

/-- What some names lead to in a value, null where an object has no field of a name. Only an
object has fields: from any other value no name leads on, and then name and value are the
reason. -/
def navigate : Json → List String → Except (String × Json) Json
  | value, [] => .ok value
  | .object fields, name :: names => (field fields name).navigate names
  | value, name :: _ => .error (name, value)

/-- The names lead through the same fields in both values, or to one value before they end. -/
inductive SameAlong : List String → Json → Json → Prop
  | same (names : List String) (value : Json) : SameAlong names value value
  | fields {name : String} {names : List String} {fields fields' : List (String × Json)}
      (h : SameAlong names (field fields name) (field fields' name)) :
      SameAlong (name :: names) (.object fields) (.object fields')

theorem SameAlong.navigate_eq {names : List String} {value value' : Json}
    (h : SameAlong names value value') : value.navigate names = value'.navigate names := by
  induction h with
  | same => rfl
  | fields _ ih => exact ih

theorem navigate_of_not_object {value : Json} (name : String) (names : List String)
    (h : ∀ fields, value ≠ .object fields) :
    value.navigate (name :: names) = .error (name, value) := by
  cases value with
  | object fields => exact absurd rfl (h fields)
  | _ => rfl

theorem navigate_append (value : Json) (front back : List String) :
    value.navigate (front ++ back) = value.navigate front >>= fun found => found.navigate back := by
  induction front generalizing value with
  | nil => rfl
  | cons name front ih =>
    cases value with
    | object fields => exact ih (field fields name)
    | _ => rfl

/-- The names lead nowhere exactly if those before one of them lead to a value that is no
object. -/
theorem navigate_eq_error_iff {value found : Json} {names : List String} {name : String} :
    value.navigate names = .error (name, found) ↔
      ∃ before after, names = before ++ name :: after ∧ value.navigate before = .ok found ∧
        ∀ fields, found ≠ .object fields := by
  constructor
  · intro h
    induction names generalizing value with
    | nil => cases h
    | cons first names ih =>
      cases value with
      | object fields =>
        obtain ⟨before, after, rfl, reached, plain⟩ := ih h
        exact ⟨first :: before, after, rfl, reached, plain⟩
      | _ =>
        cases h
        exact ⟨[], names, rfl, rfl, fun fields same => by cases same⟩
  · rintro ⟨before, after, rfl, reached, plain⟩
    rw [navigate_append, reached]
    exact navigate_of_not_object name after plain

end Json

/-- The error for a member of a captured value that is no object. -/
def noMember (name : String) (found : Json) : Error :=
  .unsupportedShape ("member \x60" ++ name ++ "\x60 of a " ++ (Kind.of found).label ++ " constant")

/-- The literal for a captured value of a declared kind: the kind is the value's own if nothing
is declared. -/
def Literal.captured (declared : Kind) (value : Json) : Literal where
  kind := if declared = .any then Kind.of value else declared
  value := value
  forced := false

theorem Literal.plain_orOf (declared : Kind) (value : Json) :
    plain (declared.orOf value) value = captured declared value := by
  cases declared <;> rfl

namespace Node

/-- The node of what was read from a captured value. -/
def ofRead (declared : Kind) : Except (String × Json) Json → Except Error Node
  | .ok found => .ok (.literal (.captured declared found))
  | .error (name, found) => .error (noMember name found)

theorem ofRead_eq_error_iff {declared : Kind} {read : Except (String × Json) Json} {error : Error} :
    ofRead declared read = .error error ↔
      ∃ name found, read = .error (name, found) ∧ error = noMember name found := by
  rcases read with ⟨name, found⟩ | found
  · simp [ofRead, eq_comm]
  · simp [ofRead]

/-- A member of a captured value is one name on the way. -/
theorem memberOfConstant_eq (value : Json) (name : String) (kind : Kind) :
    memberOfConstant value name kind = ofRead kind (value.navigate [name]) := by
  cases value with
  | object fields =>
    exact congrArg (Except.ok ∘ Node.literal) (Literal.plain_orOf kind (Json.field fields name))
  | _ => rfl

end Node

namespace Expr

/-- The expression reads the names one after another from a constant, with wrappers anywhere.
The kind is the one declared last; those declared before may be any. -/
inductive Reads (value : Json) : Expr → List String → Kind → Prop
  | constant (kind : Kind) : Reads value (.constant value kind) [] kind
  | member {receiver : Expr} {names : List String} {earlier : Kind} (name : String) (kind : Kind)
      (h : Reads value receiver names earlier) :
      Reads value (.member receiver name kind) (names ++ [name]) kind
  | lambda {body : Expr} {names : List String} {kind : Kind} (h : Reads value body names kind) :
      Reads value (.lambda body) names kind
  | convert {operand : Expr} {names : List String} {kind : Kind}
      (h : Reads value operand names kind) : Reads value (.convert operand) names kind

variable {value : Json} {e : Expr} {names : List String} {kind : Kind}

theorem Reads.isSubject (h : e.Reads value names kind) : e.isSubject = false := by
  induction h with
  | convert h ih => exact ih
  | _ => rfl

/-- What the names lead to is a literal, and where they lead nowhere the name that is to blame
is named. -/
theorem Reads.result_toNode (h : e.Reads value names kind) :
    e.toNode.result = Node.ofRead kind (value.navigate names) := by
  induction h with
  | constant kind => exact congrArg (Except.ok ∘ Node.literal) (Literal.plain_orOf kind value)
  | lambda h ih => exact ih
  | convert h ih => exact ih
  | @member receiver names earlier name kind h ih =>
    have step : (Expr.member receiver name kind).toNode.result
        = receiver.toNode.result >>= fun node => node.memberOf name kind := by
      rw [toNode, h.isSubject]
      simp
    rw [step, ih, Json.navigate_append]
    cases value.navigate names with
    | error stuck => rfl
    | ok found => exact Node.memberOfConstant_eq found name kind

/-- Whatever a captured value is put into, its error remains the error. -/
theorem Reads.result_operand (h : e.Reads value names kind) {step : Node → Except Error Node}
    {tree : Node → Node} (hstep : ∀ l, step (.literal l) = .ok (tree (.literal l)))
    (composite : ∀ operand, (tree operand).isComposite = true) :
    (e.toNode.result >>= fun operand => step operand >>= requireComposite)
      = e.toNode.result.map tree := by
  rw [h.result_toNode]
  cases value.navigate names with
  | error stuck => rfl
  | ok final =>
    show (step (.literal (.captured kind final)) >>= requireComposite) = _
    rw [hstep]
    exact if_pos (composite _)

section Comparing

variable {operator : BinaryOperator} {op : Operation} {other : Expr}

theorem result_toPredicate_binary_eq_bind (hop : operator.operation = .ok op) (left right : Expr) :
    (Expr.binary operator left right).toPredicate.result
      = left.toNode.result >>= fun l => right.toNode.result >>= fun r =>
          Node.combine op l r >>= requireComposite := by
  simp only [toPredicate, toNode, Traced.result_bind, Traced.result_ofResult, hop, bind_assoc]
  rfl

theorem Reads.result_beside_path (h : e.Reads value names kind) {path : MemberPath}
    (hop : operator.operation = .ok op) (compares : op.hasConverse = true)
    (hother : other.toNode.result = .ok (.member path)) :
    (Expr.binary operator other e).toPredicate.result
        = e.toNode.result.map (.binary op (.member path)) ∧
      (Expr.binary operator e other).toPredicate.result
        = e.toNode.result.map (.binary op.converse (.member path)) := by
  have plain := Operation.isLogical_eq_false_of_hasConverse compares
  constructor
  · rw [result_toPredicate_binary_eq_bind hop, hother]
    exact h.result_operand (fun l => Node.combine_eq_ok_iff.2 (.comparison path l plain))
      fun _ => rfl
  · rw [result_toPredicate_binary_eq_bind hop, hother]
    exact h.result_operand (fun l => Node.combine_eq_ok_iff.2 (.converse l path compares))
      fun _ => rfl

theorem Reads.result_beside_literal (h : e.Reads value names kind) {l : Literal}
    (hop : operator.operation = .ok op) (compares : op.hasConverse = true)
    (hother : other.toNode.result = .ok (.literal l)) :
    (Expr.binary operator other e).toPredicate.result
        = e.toNode.result.map (.binary op (.literal l)) ∧
      (Expr.binary operator e other).toPredicate.result
        = e.toNode.result.map (.binary op · (.literal l)) := by
  have plain := Operation.isLogical_eq_false_of_hasConverse compares
  constructor
  · rw [result_toPredicate_binary_eq_bind hop, hother]
    exact h.result_operand (fun r => Node.combine_eq_ok_iff.2 (.constants l r plain)) fun _ => rfl
  · rw [result_toPredicate_binary_eq_bind hop, hother]
    exact h.result_operand (fun r => Node.combine_eq_ok_iff.2 (.constants r l plain)) fun _ => rfl

end Comparing

/-- Members of a constant are read there and then, whatever wrappers stand between them. If all
values on the way are objects, the operand is the literal of what the names lead to, not forced,
of the kind declared last, or of the value's own kind if nothing is declared there. It fails
exactly if a name is to be read of a value that is no object, and the error is about the first
such name. A comparison with a column or another literal, on either side of it, takes in that
literal or fails with that error. Neither the kinds declared before the last one nor the fields
beside the way make a difference. -/
theorem reads_by_navigation (h : e.Reads value names kind) :
    (∀ final, value.navigate names = .ok final →
      e.toNode.result
        = .ok (.literal ⟨if kind = .any then Kind.of final else kind, final, false⟩)) ∧
    (∀ error, e.toNode.result = .error error ↔
      ∃ before name after found, names = before ++ name :: after ∧
        value.navigate before = .ok found ∧ (∀ fields, found ≠ .object fields) ∧
        error = noMember name found) ∧
    (∀ (operator : BinaryOperator) (op : Operation) (other : Expr),
      operator.isComparison = true → operator.operation = .ok op →
      (∀ path, other.toNode.result = .ok (.member path) →
        (Expr.binary operator other e).toPredicate.result
          = e.toNode.result.map (.binary op (.member path)) ∧
        (Expr.binary operator e other).toPredicate.result
          = e.toNode.result.map (.binary op.converse (.member path))) ∧
      ∀ l, other.toNode.result = .ok (.literal l) →
        (Expr.binary operator other e).toPredicate.result
          = e.toNode.result.map (.binary op (.literal l)) ∧
        (Expr.binary operator e other).toPredicate.result
          = e.toNode.result.map (.binary op · (.literal l))) ∧
    ∀ (value' : Json) (e' : Expr), e'.Reads value' names kind → Json.SameAlong names value value' →
      e'.toNode.result = e.toNode.result := by
  refine ⟨fun final hfinal => ?_, fun error => ?_, fun operator op other compares hop => ?_,
    fun value' e' h' same => ?_⟩
  · rw [h.result_toNode, hfinal]
    rfl
  · rw [h.result_toNode, Node.ofRead_eq_error_iff]
    simp only [Json.navigate_eq_error_iff]
    constructor
    · rintro ⟨name, found, ⟨before, after, split, reached, plain⟩, rfl⟩
      exact ⟨before, name, after, found, split, reached, plain, rfl⟩
    · rintro ⟨before, name, after, found, split, reached, plain, rfl⟩
      exact ⟨name, found, ⟨before, after, split, reached, plain⟩, rfl⟩
  · obtain ⟨op', hop', -, converse⟩ := BinaryOperator.exists_operation_of_isComparison compares
    obtain rfl : op' = op := Except.ok.inj (hop'.symm.trans hop)
    exact ⟨fun path hother => h.result_beside_path hop converse hother,
      fun l hother => h.result_beside_literal hop converse hother⟩
  · rw [h'.result_toNode, h.result_toNode, same.navigate_eq]

/-- A captured query: a record in a record, one field of which is missing and one null. -/
def capturedQuery : Json :=
  .object [("Page", .int 2), ("Query", .object [("Name", .text "abc"), ("Parent", .null)])]

/-- The name in the query, through wrappers and a wrong kind on the way. -/
def queriedName : Expr :=
  .convert (get (.lambda ((get (.constant capturedQuery .text) "Query").typed .integer)) "Name")

/-- The key of the parent in the query, which has none. -/
def queriedParentKey : Expr :=
  ((get (get (.constant capturedQuery .any) "Query") "Parent").get "Id").typed .integer

theorem queriedName_by_navigation :
    queriedName.Reads capturedQuery ["Query", "Name"] .any ∧
    queriedParentKey.Reads capturedQuery ["Query", "Parent", "Id"] .integer ∧
    queriedName.toNode.result = .ok (.literal ⟨.text, .text "abc", false⟩) ∧
    (Expr.equals (.field "Name") queriedName).toPredicate.result
      = .ok (.binary .eq (.member (.ofSegments .any ["Name"]))
          (.literal ⟨.text, .text "abc", false⟩)) ∧
    queriedParentKey.toNode.result
      = .error (.unsupportedShape "member `Id` of a Any constant") := by
  have name : queriedName.Reads capturedQuery ["Query", "Name"] .any :=
    .convert (.member "Name" .any (.lambda (.member "Query" .integer (.constant .text))))
  have key : queriedParentKey.Reads capturedQuery ["Query", "Parent", "Id"] .integer :=
    .member "Id" .integer (.member "Parent" .any (.member "Query" .any (.constant .any)))
  obtain ⟨read, -, compared, -⟩ := reads_by_navigation name
  obtain ⟨-, stuck, -, -⟩ := reads_by_navigation key
  have literal := read (.text "abc") rfl
  obtain ⟨besidePath, -⟩ := compared .equal .eq (.field "Name") rfl rfl
  refine ⟨name, key, literal, ?_, ?_⟩
  · rw [Expr.equals, (besidePath (.ofSegments .any ["Name"]) rfl).1, literal]
    rfl
  · have plain : ∀ fields, Json.null ≠ .object fields := fun _ same => by cases same
    exact (stuck _).2 ⟨["Query", "Parent"], "Id", [], .null, rfl, rfl, plain, rfl⟩

end Expr
end WhereClause
