import Mathlib.Data.List.Forall2
import WhereClause.Predicate.OfExpr
import WhereClause.Proofs.Combination

/-!
# The nodes of expressions

Which nodes expressions yield: values as they were given, member paths, and what operators
and methods make of such nodes. Whatever holds of all predicate trees that a caller can
reach is proved over `Expressible`, one case for each way to build a node.
-/
namespace WhereClause

open Outcome

inductive Node.Expressible : Node → Prop
  | value (kind : Kind) (value : Json) : Expressible (.literal (.plain kind value))
  | path (kind : Kind) (name : String) (names : List String) :
      Expressible (.member (.ofSegments kind (name :: names)))
  | combined {operator : BinaryOperator} {op : Operation} {left right n : Node}
      (hop : operator.operation = .ok op) (hleft : left.Expressible) (hright : right.Expressible)
      (h : Node.Combines op left right n) : Expressible n
  | expanded {method : Method} {first second n : Node} (hfirst : first.Expressible)
      (hsecond : second.Expressible) (h : Node.Expands method first second n) : Expressible n

namespace Node

theorem Combines.isComposite {op : Operation} {left right n : Node} (h : Combines op left right n) :
    n.isComposite = true := by
  cases h <;> rfl

theorem Expands.isComposite {method : Method} {first second n : Node}
    (h : Expands method first second n) : n.isComposite = true := by
  cases h <;> rfl

theorem Expressible.of_member {path : MemberPath} (h : Expressible (.member path)) :
    ∃ kind name names, path = .ofSegments kind (name :: names) := by
  cases h with
  | path kind name names => exact ⟨kind, name, names, rfl⟩
  | combined _ _ _ h => cases h.isComposite
  | expanded _ _ h => cases h.isComposite

theorem HasMember.expressible {receiver n : Node} {name : String} {kind : Kind}
    (h : HasMember name kind receiver n) (hreceiver : receiver.Expressible) : n.Expressible := by
  cases h with
  | path parent =>
    obtain ⟨kind', first, names, rfl⟩ := hreceiver.of_member
    exact .path kind first (names ++ [name])
  | field hcaptured => exact .value _ _

end Node

namespace Expr

open Node

theorem requireComposite_eq_ok_iff {n n' : Node} :
    requireComposite n = .ok n' ↔ n.isComposite = true ∧ n' = n := by
  unfold requireComposite
  cases n.isComposite <;> simp [eq_comm]

/-- The predicate of an expression is its node, and a composite. -/
theorem result_toPredicate_eq_ok_iff {e : Expr} {n : Node} :
    e.toPredicate.result = .ok n ↔ e.toNode.result = .ok n ∧ n.isComposite = true := by
  simp only [toPredicate, Traced.result_bind, Traced.result_ofResult, bind_eq_ok_iff,
    requireComposite_eq_ok_iff]
  constructor
  · rintro ⟨n', hn', composite, rfl⟩
    exact ⟨hn', composite⟩
  · rintro ⟨hn, composite⟩
    exact ⟨n, hn, composite, rfl⟩

/-! The step equations of `toNode`: what its parts yielded when it yields a node. -/

theorem result_toNode_member_eq_ok_iff {receiver : Expr} {name : String} {kind : Kind} {n : Node}
    (hsubject : ¬ receiver.isSubject = true) :
    (Expr.member receiver name kind).toNode.result = .ok n
      ↔ ∃ node, receiver.toNode.result = .ok node ∧ HasMember name kind node n := by
  simp only [toNode, hsubject, if_false, Bool.false_eq_true, Traced.result_bind,
    Traced.result_ofResult, bind_eq_ok_iff, memberOf_eq_ok_iff]

theorem result_toNode_binary_eq_ok_iff {operator : BinaryOperator} {left right : Expr} {n : Node} :
    (Expr.binary operator left right).toNode.result = .ok n
      ↔ ∃ op l r, operator.operation = .ok op ∧ left.toNode.result = .ok l
        ∧ right.toNode.result = .ok r ∧ Combines op l r n := by
  simp only [toNode, Traced.result_bind, Traced.result_ofResult, bind_eq_ok_iff,
    combine_eq_ok_iff]
  constructor
  · rintro ⟨op, hop, l, hl, r, hr, h⟩
    exact ⟨op, l, r, hop, hl, hr, h⟩
  · rintro ⟨op, l, r, hop, hl, hr, h⟩
    exact ⟨op, hop, l, hl, r, hr, h⟩

theorem result_toNode_call_eq_ok_iff {method : Method} {receiver arg : Expr} {n : Node} :
    (Expr.call method (some receiver) [arg]).toNode.result = .ok n
      ↔ ∃ a b, receiver.toNode.result = .ok a ∧ arg.toNode.result = .ok b
        ∧ Expands method a b n := by
  simp only [toNode, Traced.result_bind, Traced.result_ofResult, bind_eq_ok_iff,
    expandCall_eq_ok_iff]
  constructor
  · rintro ⟨a, ha, b, hb, n', hn', -, -, h⟩
    cases h
    exact ⟨a, b, ha, hb, hn'⟩
  · rintro ⟨a, b, ha, hb, h⟩
    exact ⟨a, ha, b, hb, n, h, (), rfl, rfl⟩

theorem result_toNode_pair_eq_ok_iff {method : Method} {first second : Expr} {n : Node} :
    (Expr.call method none [first, second]).toNode.result = .ok n
      ↔ ∃ a b, first.toNode.result = .ok a ∧ second.toNode.result = .ok b
        ∧ Expands method a b n ∧ (method.pattern? = none ∨ ∃ l, a = .literal l) := by
  simp only [toNode, Traced.result_bind, Traced.result_ofResult, bind_eq_ok_iff,
    expandPair_eq_ok_iff]
  constructor
  · rintro ⟨a, ha, b, hb, n', hn', -, -, h⟩
    cases h
    exact ⟨a, b, ha, hb, hn'⟩
  · rintro ⟨a, b, ha, hb, h⟩
    exact ⟨a, ha, b, hb, n, h, (), rfl, rfl⟩

/-- A call has one operand beside its receiver, or two without one. -/
theorem result_toNode_of_arity {method : Method} {receiver : Option Expr} {args : List Expr}
    (notCall : ∀ r arg, receiver = some r → args = [arg] → False)
    (notPair : ∀ first second, receiver = none → args = [first, second] → False) :
    (Expr.call method receiver args).toNode.result
      = .error (.unsupportedOperation method.name args.length) := by
  rw [toNode]
  · rfl
  · exact notCall
  · exact notPair

/-- A call sees no more of its operands than their nodes and how many there are. -/
theorem toNode_call_congr {method : Method} {receiver receiver' : Option Expr}
    {args args' : List Expr}
    (hreceiver : Option.Rel (fun r r' => r'.toNode = r.toNode) receiver receiver')
    (hargs : List.Forall₂ (fun arg arg' => arg'.toNode = arg.toNode) args args') :
    (Expr.call method receiver' args').toNode = (Expr.call method receiver args).toNode := by
  cases hreceiver with
  | some sameReceiver =>
    cases hargs with
    | nil => rfl
    | cons sameArg rest =>
      cases rest with
      | nil => rw [toNode, toNode, sameReceiver, sameArg]
      | cons _ rest => simp only [toNode, List.length_cons, rest.length_eq]
  | none =>
    cases hargs with
    | nil => rfl
    | cons sameFirst rest =>
      cases rest with
      | nil => rfl
      | cons sameSecond rest =>
        cases rest with
        | nil => rw [toNode, toNode, sameFirst, sameSecond]
        | cons _ rest => simp only [toNode, List.length_cons, rest.length_eq]

/-- Every node of an expression is built in one of the four ways. -/
theorem toNode_expressible {e : Expr} {n : Node} (h : e.toNode.result = .ok n) :
    n.Expressible := by
  induction e using toNode.induct generalizing n with
  | case1 value kind =>
    cases h
    exact .value _ _
  | case2 => cases h
  | case3 body ih => exact ih h
  | case4 operand ih => exact ih h
  | case5 receiver name kind hsubject =>
    rw [toNode, if_pos hsubject] at h
    cases h
    exact .path kind name []
  | case6 receiver name kind hsubject ih =>
    obtain ⟨node, hnode, h⟩ := (result_toNode_member_eq_ok_iff hsubject).1 h
    exact h.expressible (ih hnode)
  | case7 operator left right ihleft ihright =>
    obtain ⟨op, l, r, hop, hl, hr, h⟩ := result_toNode_binary_eq_ok_iff.1 h
    exact .combined hop (ihleft hl) (ihright hr) h
  | case8 method receiver arg ihreceiver iharg =>
    obtain ⟨a, b, ha, hb, h⟩ := result_toNode_call_eq_ok_iff.1 h
    exact .expanded (ihreceiver ha) (iharg hb) h
  | case9 method first second ihfirst ihsecond =>
    obtain ⟨a, b, ha, hb, h, -⟩ := result_toNode_pair_eq_ok_iff.1 h
    exact .expanded (ihfirst ha) (ihsecond hb) h
  | case10 method receiver args notCall notPair =>
    rw [result_toNode_of_arity notCall notPair] at h
    cases h

end Expr
end WhereClause
