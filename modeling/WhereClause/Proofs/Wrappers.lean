import WhereClause.Proofs.Expressible

/-!
# Wrappers

Coercions and lambdas say nothing: an expression and what is left of it without them have the
same predicate, or are refused for the same reason (`Expr.toNode_unwrap`). One lambda stays, the
one around the bare subject. A coerced subject still has members, but the subject under a
lambda has none.
-/
namespace WhereClause

namespace Expr

/-- What is left of a lambda, given what is left of its body. -/
def underLambda : Expr → Expr
  | .subject => .lambda .subject
  | body => body

mutual

/-- The expression without its wrappers, but for the lambdas whose body comes down to the
subject. -/
def unwrap : Expr → Expr
  | .constant value kind => .constant value kind
  | .subject => .subject
  | .lambda body => underLambda body.unwrap
  | .convert operand => operand.unwrap
  | .member receiver name kind => .member receiver.unwrap name kind
  | .binary op left right => .binary op left.unwrap right.unwrap
  | .call method receiver args => .call method (unwrapReceiver receiver) (unwrapArgs args)

def unwrapReceiver : Option Expr → Option Expr
  | none => none
  | some receiver => some receiver.unwrap

def unwrapArgs : List Expr → List Expr
  | [] => []
  | arg :: args => arg.unwrap :: unwrapArgs args

end

/-- There is no coercion anywhere, and no lambda but around the bare subject. -/
inductive Unwrapped : Expr → Prop
  | constant (value : Json) (kind : Kind) : Unwrapped (.constant value kind)
  | subject : Unwrapped .subject
  | lambda : Unwrapped (.lambda .subject)
  | member {receiver : Expr} (name : String) (kind : Kind) (h : receiver.Unwrapped) :
      Unwrapped (.member receiver name kind)
  | binary (op : BinaryOperator) {left right : Expr} (hleft : left.Unwrapped)
      (hright : right.Unwrapped) : Unwrapped (.binary op left right)
  | call (method : Method) {receiver : Option Expr} {args : List Expr}
      (hreceiver : ∀ r, receiver = some r → r.Unwrapped)
      (hargs : ∀ arg ∈ args, arg.Unwrapped) : Unwrapped (.call method receiver args)

theorem Unwrapped.underLambda {body : Expr} (h : body.Unwrapped) : body.underLambda.Unwrapped := by
  cases h with
  | subject => exact .lambda
  | constant value kind => exact .constant value kind
  | lambda => exact .lambda
  | member name kind h => exact .member name kind h
  | binary op hleft hright => exact .binary op hleft hright
  | call method hreceiver hargs => exact .call method hreceiver hargs

mutual

theorem unwrapped_unwrap : ∀ e : Expr, e.unwrap.Unwrapped
  | .constant value kind => .constant value kind
  | .subject => .subject
  | .lambda body => (unwrapped_unwrap body).underLambda
  | .convert operand => unwrapped_unwrap operand
  | .member receiver name kind => .member name kind (unwrapped_unwrap receiver)
  | .binary op left right => .binary op (unwrapped_unwrap left) (unwrapped_unwrap right)
  | .call method receiver args =>
    .call method (unwrapped_unwrapReceiver receiver) (unwrapped_unwrapArgs args)

theorem unwrapped_unwrapReceiver :
    ∀ (receiver : Option Expr) (r : Expr), unwrapReceiver receiver = some r → r.Unwrapped
  | none, r, h => by cases h
  | some receiver, r, h => by
    cases h
    exact unwrapped_unwrap receiver

theorem unwrapped_unwrapArgs : ∀ (args : List Expr), ∀ arg ∈ unwrapArgs args, arg.Unwrapped
  | [], other, h => by cases h
  | arg :: args, other, h => by
    rw [unwrapArgs] at h
    rcases List.mem_cons.1 h with rfl | h
    · exact unwrapped_unwrap arg
    · exact unwrapped_unwrapArgs args other h

end

theorem isSubject_underLambda {body : Expr} (h : body.Unwrapped) :
    body.underLambda.isSubject = false := by
  cases h <;> rfl

/-- A coerced subject becomes the subject, and nothing else does. -/
theorem isSubject_unwrap (e : Expr) : e.unwrap.isSubject = e.isSubject := by
  induction e using isSubject.induct with
  | case1 => rfl
  | case2 operand ih => exact ih
  | case3 e notSubject notConvert =>
    cases e with
    | subject => exact absurd rfl notSubject
    | convert operand => exact (notConvert operand rfl).elim
    | lambda body => exact isSubject_underLambda (unwrapped_unwrap body)
    | _ => rfl

/-- The subject is no operand, under a lambda or not. -/
theorem toNode_underLambda (body : Expr) : body.underLambda.toNode = body.toNode := by
  cases body <;> rfl

mutual

/-- Without its wrappers an expression has the same node, on the way to which the same is
reported. -/
theorem toNode_unwrap : ∀ e : Expr, e.unwrap.toNode = e.toNode
  | .constant value kind => rfl
  | .subject => rfl
  | .lambda body => by
    have same := toNode_unwrap body
    rw [unwrap, toNode_underLambda, same, toNode]
  | .convert operand => toNode_unwrap operand
  | .member receiver name kind => by
    have same := toNode_unwrap receiver
    rw [unwrap, toNode, toNode, isSubject_unwrap, same]
  | .binary op left right => by
    have sameLeft := toNode_unwrap left
    have sameRight := toNode_unwrap right
    rw [unwrap, toNode, toNode, sameLeft, sameRight]
  | .call method receiver args =>
    toNode_call_congr (toNode_unwrapReceiver receiver) (toNode_unwrapArgs args)

theorem toNode_unwrapReceiver : ∀ receiver : Option Expr,
    Option.Rel (fun r r' => r'.toNode = r.toNode) receiver (unwrapReceiver receiver)
  | none => .none
  | some receiver => .some (toNode_unwrap receiver)

theorem toNode_unwrapArgs : ∀ args : List Expr,
    List.Forall₂ (fun arg arg' => arg'.toNode = arg.toNode) args (unwrapArgs args)
  | [] => .nil
  | arg :: args => .cons (toNode_unwrap arg) (toNode_unwrapArgs args)

end

/-- Taking off the wrappers changes neither the predicate of an expression nor the reason why
it has none. What is left has no wrappers but lambdas around the bare subject. -/
theorem toPredicate_unwrap (e : Expr) :
    e.unwrap.toPredicate = e.toPredicate ∧ e.unwrap.Unwrapped := by
  refine ⟨?_, unwrapped_unwrap e⟩
  rw [toPredicate, toPredicate, toNode_unwrap]

/-! The lambda that stays cannot be left out. -/

example : (get (.lambda .subject) "Id").toNode.result = .error subjectAsValue := rfl

example : (get .subject "Id").toNode.result = .ok (.member (.ofSegments .any ["Id"])) := rfl

end Expr
end WhereClause
