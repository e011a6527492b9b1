import WhereClause.Proofs.Expressible
import WhereClause.Proofs.Rendering

/-!
# Well-paired trees

The pairs of children for which a composite has a clause. A tree of such composites is
never refused as malformed, and every predicate of an expression is one
(`Node.Expressible.wellPaired`). So the internal error is out of reach of every
expression, whatever the mapping.
-/
namespace WhereClause

open Outcome

namespace Node

/-- A node stands in another one, or is it. -/
inductive Within : Node → Node → Prop
  | self (n : Node) : Within n n
  | left {n left : Node} (form : Form) (op : Operation) (right : Node) (h : Within n left) :
      Within n (.composite form op left right)
  | right {n right : Node} (form : Form) (op : Operation) (left : Node) (h : Within n right) :
      Within n (.composite form op left right)

/-- The children that a composite of an operation may have. A logical operation
joins composites only. -/
inductive Pair (op : Operation) : Node → Node → Prop
  | composites {left right : Node} (hleft : left.isComposite = true)
      (hright : right.isComposite = true) : Pair op left right
  | comparison (path : MemberPath) (value : Literal) (hop : op.isLogical = false) :
      Pair op (.member path) (.literal value)
  | constants (a b : Literal) (hop : op.isLogical = false) : Pair op (.literal a) (.literal b)

/-- A composite all of whose composites have children in pairs. -/
inductive WellPaired : Node → Prop
  | join (form : Form) (op : Operation) {left right : Node} (hleft : left.WellPaired)
      (hright : right.WellPaired) : WellPaired (.composite form op left right)
  | comparison (form : Form) {op : Operation} (path : MemberPath) (value : Literal)
      (hop : op.isLogical = false) :
      WellPaired (.composite form op (.member path) (.literal value))
  | constants (form : Form) {op : Operation} (a b : Literal) (hop : op.isLogical = false) :
      WellPaired (.composite form op (.literal a) (.literal b))

theorem WellPaired.isComposite {n : Node} (h : n.WellPaired) : n.isComposite = true := by
  cases h <;> rfl

theorem WellPaired.pair {n left right : Node} {form : Form} {op : Operation} (h : n.WellPaired)
    (within : Within (.composite form op left right) n) : Pair op left right := by
  induction h with
  | join form' op' hleft hright ihleft ihright =>
    cases within with
    | self => exact .composites hleft.isComposite hright.isComposite
    | left _ _ _ within => exact ihleft within
    | right _ _ _ within => exact ihright within
  | comparison form' path value hop =>
    cases within with
    | self => exact .comparison path value hop
    | left _ _ _ within => cases within
    | right _ _ _ within => cases within
  | constants form' a b hop =>
    cases within with
    | self => exact .constants a b hop
    | left _ _ _ within => cases within
    | right _ _ _ within => cases within

theorem wellPaired_orUnbound {op : Operation} (path : MemberPath) (value : Literal)
    (hop : op.isLogical = false) : (Expansion.orUnbound op path value).WellPaired :=
  .join _ _ (.comparison _ _ _ hop) (.comparison _ _ _ rfl)

theorem Combines.wellPaired {op : Operation} {left right n : Node} (h : Combines op left right n)
    (hleft : left.isComposite = true → left.WellPaired)
    (hright : right.isComposite = true → right.WellPaired) : n.WellPaired := by
  cases h with
  | join compositeLeft compositeRight => exact .join _ _ (hleft compositeLeft) (hright compositeRight)
  | comparison path value hop => exact .comparison _ path value hop
  | constants a b hop => exact .constants _ a b hop
  | converse value path hop =>
    refine .comparison _ path value (Operation.isLogical_eq_false_of_hasConverse ?_)
    rw [Operation.hasConverse_converse]
    exact hop

theorem Expands.wellPaired {method : Method} {first second n : Node}
    (h : Expands method first second n) : n.WellPaired := by
  cases h with
  | matched pattern path value hmethod => exact .comparison _ _ _ rfl
  | membership set path hset => exact .comparison _ _ _ rfl
  | equalsOrNull path value => exact wellPaired_orUnbound _ _ rfl
  | likeOrNull path value => exact wellPaired_orUnbound _ _ rfl
  | textOrNull path value => exact wellPaired_orUnbound _ _ rfl
  | setOrNull set path hset inhabited => exact wellPaired_orUnbound _ _ rfl
  | emptySet set path hset empty => exact .constants _ _ _ rfl

theorem Expressible.wellPaired {n : Node} (h : n.Expressible) (composite : n.isComposite = true) :
    n.WellPaired := by
  induction h with
  | value kind value => cases composite
  | path kind name names => cases composite
  | combined hop hleft hright h ihleft ihright => exact h.wellPaired ihleft ihright
  | expanded hfirst hsecond h => exact h.wellPaired

end Node

namespace Clause

section Failures

variable {P : Error → Prop} (hoperator : ∀ detail, P (.unsupportedOperator detail))
  (hunmapped : ∀ path, P (.unmappedMember path))

include hoperator

theorem fails_token (op : Operation) : Fails P op.token := by
  unfold Operation.token
  split
  · exact fails_ok _
  · exact fails_error (hoperator _)

theorem fails_nullSense (op : Operation) : Fails P (nullSense op) := by
  unfold nullSense
  split
  · exact fails_ok _
  · exact fails_ok _
  · exact fails_error (hoperator _)

omit hoperator

include hunmapped

theorem fails_resolve (m : Mapping) (path : String) : Fails P (m.resolve path).result := by
  unfold Mapping.resolve
  split
  · exact fails_ok _
  · split
    · exact fails_ok _
    · exact fails_error (hunmapped _)

theorem fails_operand (m : Mapping) (path : MemberPath) (name : String) :
    Fails P (operand m path name).result := by
  unfold operand
  split
  · exact fails_ok _
  · rw [Traced.result_bind]
    exact (fails_resolve hunmapped m _).bind fun _ _ => fails_ok _

include hoperator

theorem fails_ofComparison (m : Mapping) (op : Operation) (path : MemberPath) (value : Literal) :
    Fails P (ofComparison m op path value).result := by
  simp only [ofComparison, Traced.result_bind, Traced.result_ofResult]
  refine (fails_token hoperator op).bind fun token _ =>
    (fails_operand hunmapped m path _).bind fun left _ => ?_
  split
  · rw [Traced.result_bind]
    exact (fails_nullSense hoperator op).bind fun _ _ => fails_ok _
  · exact fails_ok _

/-- Only an unknown pair is refused as malformed, and a well-paired tree has none. -/
theorem fails_ofNode (m : Mapping) {n : Node} (h : n.WellPaired) :
    Fails P (ofNode m n).result := by
  induction h with
  | join form op hleft hright ihleft ihright =>
    rw [result_ofNode_join hleft.isComposite hright.isComposite]
    exact (fails_token hoperator _).bind fun _ _ => ihleft.bind fun _ _ =>
      ihright.bind fun _ _ => fails_ok _
  | comparison form path value hop => exact fails_ofComparison hoperator hunmapped m _ path value
  | constants form a b hop =>
    rw [result_ofNode_constants]
    exact (fails_token hoperator _).bind fun _ _ => fails_ok _

end Failures

end Clause

namespace Expr

section Failures

variable {P : Error → Prop} (hshape : ∀ detail, P (.unsupportedShape detail))
  (hoperation : ∀ name arity, P (.unsupportedOperation name arity))
  (hoperator : ∀ detail, P (.unsupportedOperator detail))

include hoperator in
theorem fails_operation (operator : BinaryOperator) : Fails P operator.operation := by
  cases operator <;> first | exact fails_ok _ | exact fails_error (hoperator _)

include hshape hoperation hoperator

theorem fails_toNode (e : Expr) : Fails P e.toNode.result := by
  induction e using toNode.induct with
  | case1 value kind => exact fails_ok _
  | case2 => exact fails_error (hshape _)
  | case3 body ih => exact ih
  | case4 operand ih => exact ih
  | case5 receiver name kind hsubject =>
    rw [toNode, if_pos hsubject]
    exact fails_ok _
  | case6 receiver name kind hsubject ih =>
    rw [toNode, if_neg hsubject, Traced.result_bind]
    exact ih.bind fun _ _ => Node.fails_memberOf hshape _ _ _
  | case7 operator left right ihleft ihright =>
    simp only [toNode, Traced.result_bind, Traced.result_ofResult]
    exact (fails_operation hoperator operator).bind fun _ _ => ihleft.bind fun _ _ =>
      ihright.bind fun _ _ => Node.fails_combine hshape _ _ _
  | case8 method receiver arg ihreceiver iharg =>
    simp only [toNode, Traced.result_bind, Traced.result_ofResult]
    exact ihreceiver.bind fun _ _ => iharg.bind fun _ _ =>
      (Node.fails_expandCall hshape _ _ _).bind fun _ _ => fails_ok _
  | case9 method first second ihfirst ihsecond =>
    simp only [toNode, Traced.result_bind, Traced.result_ofResult]
    exact ihfirst.bind fun _ _ => ihsecond.bind fun _ _ =>
      (Node.fails_expandPair hshape _ _ (.inr (hoperation _ _))).bind fun _ _ => fails_ok _
  | case10 method receiver args notCall notPair =>
    rw [result_toNode_of_arity notCall notPair]
    exact fails_error (hoperation _ _)

theorem fails_toPredicate (e : Expr) : Fails P e.toPredicate.result := by
  rw [toPredicate, Traced.result_bind]
  refine (fails_toNode hshape hoperation hoperator e).bind fun n _ => ?_
  unfold requireComposite
  split
  · exact fails_ok _
  · exact fails_error (hshape _)

end Failures

theorem wellPaired_of_toPredicate {e : Expr} {n : Node} (h : e.toPredicate.result = .ok n) :
    n.WellPaired := by
  obtain ⟨hn, composite⟩ := result_toPredicate_eq_ok_iff.1 h
  exact (toNode_expressible hn).wellPaired composite

end Expr

/-- No expression is refused as malformed, under no mapping: the tree of an expression
is a composite, and the children of all its composites can be paired. -/
theorem compile_error_not_internal (m : Mapping) (e : Expr) :
    (∀ error, (compile m e).result = .error error → error.isInternal = false) ∧
    ∀ n, e.toPredicate.result = .ok n → n.isComposite = true ∧
      ∀ form op left right, Node.Within (.composite form op left right) n →
        Node.Pair op left right := by
  constructor
  · rw [result_compile_eq_bind]
    have parsed : Fails (fun error => error.isInternal = false) e.toPredicate.result :=
      Expr.fails_toPredicate (fun _ => rfl) (fun _ _ => rfl) (fun _ => rfl) e
    refine parsed.bind fun n hn => ?_
    have paired := Expr.wellPaired_of_toPredicate hn
    exact (Clause.fails_ofNode (fun _ => rfl) (fun _ => rfl) m paired).bind fun _ _ => fails_ok _
  · intro n h
    have paired := Expr.wellPaired_of_toPredicate h
    exact ⟨paired.isComposite, fun form op left right within => paired.pair within⟩

/-- Two predicates under `coalesce`, which has a tree and no clause. -/
def coalescedChecks : Expr :=
  .binary .coalesce (.equals (.field "Id") (.ofValue (.int 1)))
    (.equalsOrNull (.field "Code") (.ofValue .null))

theorem coalesced_error_not_internal :
    (compile (.empty "m") coalescedChecks).result = .error (.unsupportedOperator "Coalesce") ∧
    (Error.unsupportedOperator "Coalesce").isInternal = false ∧
    ∃ n, coalescedChecks.toPredicate.result = .ok n ∧ n.isComposite = true ∧
      Node.Pair .or (.binary .eq (.member (.ofSegments .any ["Code"])) (.literal ⟨.any, .null, true⟩))
        (.binary .eq (.member ⟨.any, ["Code"], true, none⟩) (.literal (.null .any))) := by
  have compiled := compile_error_not_internal (.empty "m") coalescedChecks
  have refused : (compile (.empty "m") coalescedChecks).result
      = .error (.unsupportedOperator "Coalesce") := rfl
  have parsed : coalescedChecks.toPredicate.result = .ok
      (.binary .coalesce
        (.binary .eq (.member (.ofSegments .any ["Id"])) (.literal (.plain .integer (.int 1))))
        (Expansion.orUnbound .eq (.ofSegments .any ["Code"]) (.plain .any .null))) := rfl
  obtain ⟨composite, pairs⟩ := compiled.2 _ parsed
  exact ⟨refused, compiled.1 _ refused, _, parsed, composite,
    pairs _ _ _ _ (.right _ _ _ (.self _))⟩

end WhereClause
