import Mathlib.Logic.Relation
import WhereClause.Proofs.Places

/-!
# Two forms of one predicate

A comparison of a member and a value can be written either way round, and most methods can be
called on their first operand as well as on both. Which form is written at which places makes no
difference to the predicate, nor to the error where there is none: the two forms have the same
node (`Expr.Turns.equivalent`), nothing around them can tell them apart
(`Expr.Equivalent.plug`), and so the whole keeps its node step after step. Changes at several
places are several steps, in any order, since no step changes what another one depends on.
-/
namespace WhereClause

open Outcome

/-- The rest of a sequence matters only for what its first part can yield. -/
theorem Traced.bind_congr {α β : Type} {x : Traced α} {f g : α → Traced β}
    (h : ∀ a, x.result = .ok a → f a = g a) : (x >>= f) = (x >>= g) := by
  show Traced.bind x f = Traced.bind x g
  unfold Traced.bind
  cases hx : x.result with
  | ok a => simp only [h a hx]
  | error e => rfl

namespace BinaryOperator

def isComparison : BinaryOperator → Bool
  | equal | notEqual | greaterThan | greaterThanOrEqual | lessThan | lessThanOrEqual => true
  | andAlso | orElse | coalesce | add | subtract | multiply | divide => false

/-- The comparison that says the same of swapped operands. -/
def converse : BinaryOperator → BinaryOperator
  | greaterThan => lessThan
  | greaterThanOrEqual => lessThanOrEqual
  | lessThan => greaterThan
  | lessThanOrEqual => greaterThanOrEqual
  | operator => operator

theorem exists_operation_of_isComparison {operator : BinaryOperator}
    (h : operator.isComparison = true) :
    ∃ op, operator.operation = .ok op ∧ operator.converse.operation = .ok op.converse
      ∧ op.hasConverse = true := by
  cases operator <;> first | exact ⟨_, rfl, rfl, rfl⟩ | cases h

end BinaryOperator

namespace Node

/-- A literal and a path, in either order. -/
inductive Faces : Node → Node → Prop
  | valueFirst (value : Literal) (path : MemberPath) : Faces (.literal value) (.member path)
  | pathFirst (path : MemberPath) (value : Literal) : Faces (.member path) (.literal value)

theorem Faces.isComposite {left right : Node} (h : Faces left right) :
    left.isComposite = false ∧ right.isComposite = false := by
  cases h <;> exact ⟨rfl, rfl⟩

/-- The path ends up on the left, whichever of the two came first. -/
theorem Faces.combine_converse {left right : Node} {op : Operation} (h : Faces left right)
    (hop : op.hasConverse = true) : combine op.converse right left = combine op left right := by
  have comparison := Operation.isLogical_eq_false_of_hasConverse hop
  have converse : op.converse.hasConverse = true := (Operation.hasConverse_converse op).trans hop
  have converseComparison := Operation.isLogical_eq_false_of_hasConverse converse
  cases h with
  | valueFirst value path =>
    rw [combine_eq_ok_iff.2 (.converse value path hop),
      combine_eq_ok_iff.2 (.comparison path value converseComparison)]
  | pathFirst path value =>
    rw [combine_eq_ok_iff.2 (.comparison path value comparison),
      combine_eq_ok_iff.2 (.converse value path converse), Operation.converse_converse]

end Node

namespace Expr

variable {e e' part part' left right first : Expr}

/-- What is no predicate reports nothing on the way to its node. -/
theorem toNode_eq_pure {n : Node} (h : e.toNode.result = .ok n) (leaf : n.isComposite = false) :
    e.toNode = pure n := by
  induction e using toNode.induct generalizing n with
  | case1 value kind =>
    cases h
    rfl
  | case2 => cases h
  | case3 body ih => exact ih h leaf
  | case4 operand ih => exact ih h leaf
  | case5 receiver name kind hsubject =>
    rw [toNode, if_pos hsubject] at h ⊢
    cases h
    rfl
  | case6 receiver name kind hsubject ih =>
    obtain ⟨node, hnode, member⟩ := (result_toNode_member_eq_ok_iff hsubject).1 h
    have receiverLeaf : node.isComposite = false := by cases member <;> rfl
    rw [toNode, if_neg hsubject, ih hnode receiverLeaf]
    show Traced.ofResult (node.memberOf name kind) = pure n
    rw [Node.memberOf_eq_ok_iff.2 member]
    rfl
  | case7 operator left right =>
    obtain ⟨op, l, r, -, -, -, combined⟩ := result_toNode_binary_eq_ok_iff.1 h
    simp [combined.isComposite] at leaf
  | case8 method receiver arg =>
    obtain ⟨a, b, -, -, expanded⟩ := result_toNode_call_eq_ok_iff.1 h
    simp [expanded.isComposite] at leaf
  | case9 method first second =>
    obtain ⟨a, b, -, -, expanded, -⟩ := result_toNode_pair_eq_ok_iff.1 h
    simp [expanded.isComposite] at leaf
  | case10 method receiver args notCall notPair =>
    rw [result_toNode_of_arity notCall notPair] at h
    cases h

/-- One of the two has a literal for its node, and the other a path. -/
def Faces (left right : Expr) : Prop :=
  ∃ l r, left.toNode.result = .ok l ∧ right.toNode.result = .ok r ∧ Node.Faces l r

/-- The methods for which it does not matter whether the first operand is a receiver. Of those
that match text this is only `contains`, and only on a literal, where it asks for membership. -/
inductive FreeForm (first : Expr) : Method → Prop
  | containsOrNull : FreeForm first .containsOrNull
  | likeOrNull : FreeForm first .likeOrNull
  | equalsOrNull : FreeForm first .equalsOrNull
  | contains (set : Literal) (h : first.toNode.result = .ok (.literal set)) :
      FreeForm first .contains

/-- The two are forms of one predicate. -/
inductive Turns : Expr → Expr → Prop
  | operands {operator : BinaryOperator} {left right : Expr} (hop : operator.isComparison = true)
      (h : left.Faces right) :
      Turns (.binary operator left right) (.binary operator.converse right left)
  | asPair {method : Method} {first : Expr} (second : Expr) (h : first.FreeForm method) :
      Turns (.call method (some first) [second]) (.call method none [first, second])
  | asCall {method : Method} {first : Expr} (second : Expr) (h : first.FreeForm method) :
      Turns (.call method none [first, second]) (.call method (some first) [second])

/-- The second is the first with one predicate in it, at any place, in its other form. -/
inductive Restates : Expr → Expr → Prop
  | place (above : List Around) {part part' : Expr} (h : part.Turns part') :
      Restates (plug above part) (plug above part')

/-- The swapped comparison has the same node. -/
theorem Faces.toNode_converse {operator : BinaryOperator} (h : left.Faces right)
    (hop : operator.isComparison = true) :
    (Expr.binary operator.converse right left).toNode = (Expr.binary operator left right).toNode := by
  obtain ⟨l, r, hl, hr, faces⟩ := h
  obtain ⟨op, hoperation, hconverse, turnable⟩ :=
    BinaryOperator.exists_operation_of_isComparison hop
  -- Neither operand reports anything, so it does not show which of them was looked at first.
  have leftNode := toNode_eq_pure hl faces.isComposite.1
  have rightNode := toNode_eq_pure hr faces.isComposite.2
  rw [toNode, toNode, hoperation, hconverse, leftNode, rightNode]
  show Traced.ofResult (Node.combine op.converse r l) = Traced.ofResult (Node.combine op l r)
  rw [faces.combine_converse turnable]

theorem FreeForm.expandCall_eq {method : Method} {node : Node} (h : first.FreeForm method)
    (hnode : first.toNode.result = .ok node) (arg : Node) :
    Node.expandCall method node arg = Node.expandPair method node arg := by
  cases h with
  | contains set h =>
    rw [h] at hnode
    cases hnode
    rfl
  | _ => rfl

/-- The call on a receiver has the same node as the call of both operands. -/
theorem FreeForm.toNode_call {method : Method} (h : first.FreeForm method) (second : Expr) :
    (Expr.call method (some first) [second]).toNode
      = (Expr.call method none [first, second]).toNode := by
  rw [toNode, toNode]
  refine Traced.bind_congr fun node hnode => ?_
  simp only [h.expandCall_eq hnode]

/-- Nothing around an expression can tell the other one from it. -/
structure Equivalent (e e' : Expr) : Prop where
  toNode : e'.toNode = e.toNode
  isSubject : e'.isSubject = e.isSubject

theorem Turns.equivalent (h : part.Turns part') : part.Equivalent part' := by
  cases h with
  | operands hop h => exact ⟨h.toNode_converse hop, rfl⟩
  | asPair second h => exact ⟨(h.toNode_call second).symm, rfl⟩
  | asCall second h => exact ⟨h.toNode_call second, rfl⟩

/-- The step: what is around an expression sees its node, and whether it is the subject. -/
theorem Equivalent.put (h : part.Equivalent part') (around : Around) :
    (around.put part).Equivalent (around.put part') := by
  have others (args : List Expr) :
      List.Forall₂ (fun arg arg' => arg'.toNode = arg.toNode) args args :=
    List.forall₂_same.2 fun _ _ => rfl
  cases around with
  | lambda => exact ⟨h.toNode, rfl⟩
  | convert => exact ⟨h.toNode, h.isSubject⟩
  | owner name kind =>
    refine ⟨?_, rfl⟩
    rw [Around.put, Around.put, Expr.toNode, Expr.toNode, h.isSubject, h.toNode]
  | leftOf operator right =>
    refine ⟨?_, rfl⟩
    rw [Around.put, Around.put, Expr.toNode, Expr.toNode, h.toNode]
  | rightOf operator left =>
    refine ⟨?_, rfl⟩
    rw [Around.put, Around.put, Expr.toNode, Expr.toNode, h.toNode]
  | receiver method args => exact ⟨toNode_call_congr (.some h.toNode) (others args), rfl⟩
  | arg method callee before after =>
    refine ⟨toNode_call_congr ?_ ?_, rfl⟩
    · cases callee with
      | none => exact .none
      | some receiver => exact .some rfl
    · exact List.rel_append (others before) (.cons h.toNode (others after))

/-- The run: nothing changes with any number of others around. -/
theorem Equivalent.plug (h : part.Equivalent part') (above : List Around) :
    (plug above part).Equivalent (plug above part') := by
  induction above generalizing part part' with
  | nil => exact h
  | cons around above ih => exact ih (h.put around)

theorem Restates.toNode_eq (h : e.Restates e') : e'.toNode = e.toNode := by
  cases h with
  | place above h => exact (h.equivalent.plug above).toNode

/-- Putting predicates into their other form, one after the other and wherever they stand,
changes neither the predicate of the whole nor the reason why it has none. -/
theorem toPredicate_of_restated (h : Relation.ReflTransGen Restates e e') :
    e'.toPredicate = e.toPredicate := by
  have same : e'.toNode = e.toNode := by
    induction h with
    | refl => rfl
    | tail _ step ih => exact step.toNode_eq.trans ih
  rw [toPredicate, toPredicate, same]

/-- A key that is at least three and in a set, the value first and the set as a receiver. -/
def threeAtMost : Expr :=
  .and (.le (.ofValue (.int 3)) (.get .subject "Id"))
    (.contains (.ofValue (.array [.int 4])) (.get .subject "Id"))

/-- The same with the member first, and the set as an operand. -/
def atLeastThree : Expr :=
  .and (.ge (.get .subject "Id") (.ofValue (.int 3)))
    (.inCollection (.ofValue (.array [.int 4])) (.get .subject "Id"))

theorem threeAtMost_restated :
    Relation.ReflTransGen Restates threeAtMost atLeastThree ∧
    atLeastThree.toPredicate = threeAtMost.toPredicate ∧
    ∃ n, threeAtMost.toPredicate.result = .ok n := by
  have turned : Turns (.le (.ofValue (.int 3)) (.get .subject "Id"))
      (.ge (.get .subject "Id") (.ofValue (.int 3))) :=
    .operands rfl ⟨_, _, rfl, rfl, .valueFirst _ _⟩
  have paired : Turns (.contains (.ofValue (.array [.int 4])) (.get .subject "Id"))
      (.inCollection (.ofValue (.array [.int 4])) (.get .subject "Id")) :=
    .asPair _ (.contains _ rfl)
  have steps : Relation.ReflTransGen Restates threeAtMost atLeastThree :=
    .tail (.single (.place [.leftOf .andAlso _] turned)) (.place [.rightOf .andAlso _] paired)
  exact ⟨steps, toPredicate_of_restated steps, _, rfl⟩

end Expr
end WhereClause
