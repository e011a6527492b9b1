import WhereClause.Proofs.Pairing

/-!
# The first violation

Which trees have a predicate, for all trees and not only for those of expressions, and which
error the others end with. `Node.visits` is the order in which the nodes of a tree are come to
and `Node.violations` what a node gets wrong by itself, in the order in which it is looked at.
The outcome is an error exactly where a visited node gets something wrong, and then the first
error on the way (`Clause.stopsAt_ofNode`).
-/
namespace WhereClause

open Outcome

namespace Outcome

variable {α β : Type}

/-- The outcome is the first of the errors that stand in its way, or a value if there is none. -/
def StopsAt (x : Except Error α) : List Error → Prop
  | [] => ∃ a, x = .ok a
  | error :: _ => x = .error error

theorem stopsAt_ok (a : α) : StopsAt (.ok a : Except Error α) [] := ⟨a, rfl⟩

theorem stopsAt_error (error : Error) : StopsAt (.error error : Except Error α) [error] := rfl

/-- What stands in the way of a sequence stands in the way of its first part, or else of the
rest. -/
theorem StopsAt.bind {x : Except Error α} {f : α → Except Error β} {first rest : List Error}
    (hfirst : StopsAt x first) (hrest : ∀ a, StopsAt (f a) rest) :
    StopsAt (x >>= f) (first ++ rest) := by
  cases first with
  | nil =>
    obtain ⟨a, rfl⟩ := hfirst
    exact hrest a
  | cons error errors =>
    have stopped : x = .error error := hfirst
    subst stopped
    exact rfl

theorem StopsAt.exists_ok_iff {x : Except Error α} {errors : List Error} (h : StopsAt x errors) :
    (∃ a, x = .ok a) ↔ errors = [] := by
  cases errors with
  | nil => exact ⟨fun _ => rfl, fun _ => h⟩
  | cons error errors =>
    have stopped : x = .error error := h
    simp [stopped]

theorem StopsAt.eq_error_iff {x : Except Error α} {errors : List Error} (h : StopsAt x errors)
    {error : Error} : x = .error error ↔ errors.head? = some error := by
  cases errors with
  | nil =>
    obtain ⟨a, rfl⟩ := h
    simp
  | cons first errors =>
    have stopped : x = .error first := h
    simp [stopped]

end Outcome

/-- The error of an operation without a token. -/
def Operation.tokenless (op : Operation) : List Error :=
  if op.token? = none then [.unsupportedOperator op.label] else []

/-- The error of an operation that a value tested for null is not asked with. -/
def Operation.againstNull (op : Operation) : List Error :=
  if op = .eq ∨ op = .ne then [] else [.unsupportedOperator (op.label ++ " against null")]

/-- The error of a path that a mapping has no identifier for. A reference back needs none. -/
def Mapping.missing (m : Mapping) (path : MemberPath) : List Error :=
  if path.nullRef = false ∧ m.policy = .reject ∧ m.contains path.dotted = false then
    [.unmappedMember path.dotted]
  else []

namespace Node

/-- A composite that gets nothing wrong by itself: its children pair, its operation has a token,
and in a comparison the path has an identifier and the operation suits the value. -/
inductive Orderly (m : Mapping) (op : Operation) : Node → Node → Prop
  | join {left right : Node} (token : op.token? ≠ none) (hleft : left.isComposite = true)
      (hright : right.isComposite = true) : Orderly m op left right
  | comparison (path : MemberPath) (value : Literal) (token : op.token? ≠ none)
      (registered : path.nullRef = false → m.policy = .reject → m.contains path.dotted = true)
      (nullable : value.value = .null → value.forced = false → op = .eq ∨ op = .ne) :
      Orderly m op (.member path) (.literal value)
  | constants (a b : Literal) (token : op.token? ≠ none) : Orderly m op (.literal a) (.literal b)

/-- The errors of a node by itself: the pairing of its children hides all others, and the path
of a comparison is looked at between the token and the value. -/
def violations (m : Mapping) : Node → List Error
  | .composite _ op left right =>
    match left, right with
    | .composite _ _ _ _, .composite _ _ _ _ => op.tokenless
    | .member path, .literal value =>
      op.tokenless ++ (m.missing path ++ if value.isTested then op.againstNull else [])
    | .literal _, .literal _ => op.tokenless
    | _, _ => [.malformedTree (left.shapeName ++ " " ++ op.label ++ " " ++ right.shapeName)]
  | leaf => [.malformedTree (leaf.shapeName ++ " in predicate position")]

/-- The nodes in the order in which they are come to: a composite first, then, if both of its
children are composites, those of the left child and those of the right one. -/
def visits : Node → List Node
  | .composite form op left right =>
    .composite form op left right ::
      if left.isComposite && right.isComposite then left.visits ++ right.visits else []
  | leaf => [leaf]

/-- What stands in the way of a tree, in the order in which it is met. -/
def obstacles (m : Mapping) (n : Node) : List Error := n.visits.flatMap (violations m)

theorem obstacles_join (m : Mapping) (form : Form) (op : Operation) {left right : Node}
    (hleft : left.isComposite = true) (hright : right.isComposite = true) :
    (composite form op left right).obstacles m
      = op.tokenless ++ (left.obstacles m ++ right.obstacles m) := by
  cases left with
  | composite form' op' l r =>
    cases right with
    | composite form'' op'' l' r' =>
      rw [obstacles, visits, hleft, hright]
      simp only [Bool.and_self, if_true, List.flatMap_cons, List.flatMap_append]
      rfl
    | _ => cases hright
  | _ => cases hleft

/-- Below a pair that is not joined nothing is come to. -/
theorem obstacles_of_not_join (m : Mapping) (form : Form) (op : Operation) {left right : Node}
    (h : (left.isComposite && right.isComposite) = false) :
    (composite form op left right).obstacles m = (composite form op left right).violations m := by
  rw [obstacles, visits, h]
  simp

end Node

namespace Clause

theorem stopsAt_token (op : Operation) : StopsAt op.token op.tokenless := by
  cases op <;> first | exact stopsAt_ok _ | exact stopsAt_error _

theorem stopsAt_nullSense (op : Operation) : StopsAt (nullSense op) op.againstNull := by
  cases op <;> first | exact stopsAt_ok _ | exact stopsAt_error _

theorem stopsAt_operand (m : Mapping) (path : MemberPath) (name : String) :
    StopsAt (operand m path name).result (m.missing path) := by
  unfold operand Mapping.missing
  cases path.nullRef with
  | true => exact stopsAt_ok _
  | false =>
    simp only [Bool.false_eq_true, if_false, Traced.result_bind, Mapping.resolve,
      Mapping.contains]
    cases m.lookup? path.dotted with
    | some identifier =>
      simp only [Option.isSome_some, Bool.true_eq_false, and_false, if_false]
      exact stopsAt_ok _
    | none =>
      cases m.policy with
      | fallback => exact stopsAt_ok _
      | reject => exact stopsAt_error _

theorem stopsAt_ofComparison (m : Mapping) (op : Operation) (path : MemberPath)
    (value : Literal) :
    StopsAt (ofComparison m op path value).result
      (op.tokenless ++ (m.missing path ++ if value.isTested then op.againstNull else [])) := by
  simp only [ofComparison, Traced.result_bind, Traced.result_ofResult]
  refine (stopsAt_token op).bind fun token => (stopsAt_operand m path _).bind fun left => ?_
  rw [Literal.isTested]
  split
  · rw [Traced.result_bind, ← List.append_nil op.againstNull]
    exact (stopsAt_nullSense op).bind fun _ => stopsAt_ok _
  · exact stopsAt_ok _

/-- A tree comes to a clause, unless one of the nodes on the way gets something wrong. -/
theorem stopsAt_ofNode (m : Mapping) (n : Node) :
    StopsAt (ofNode m n).result (n.obstacles m) := by
  induction n using ofNode.induct with
  | case1 form op form' op' l r form'' op'' l' r' ihleft ihright =>
    have joined := (stopsAt_token op).bind fun token => ihleft.bind fun a =>
      ihright.bind fun b => stopsAt_ok (join a token b)
    rwa [List.append_nil, ← Node.obstacles_join m form op rfl rfl,
      ← result_ofNode_join rfl rfl] at joined
  | case2 form op path value =>
    rw [Node.obstacles_of_not_join m form op rfl]
    exact stopsAt_ofComparison m op path value
  | case3 form op a b =>
    have compared := (stopsAt_token op).bind fun token =>
      stopsAt_ok (constants a.value token b.value)
    rw [List.append_nil] at compared
    rwa [Node.obstacles_of_not_join m form op rfl, result_ofNode_constants]
  | case4 form op left right notJoin notComparison notConstants =>
    cases left with
    | literal a =>
      cases right with
      | literal b => exact absurd rfl (notConstants a b rfl)
      | member path => exact stopsAt_error _
      | composite form' op' l r => exact stopsAt_error _
    | member path =>
      cases right with
      | literal value => exact absurd rfl (notComparison path value rfl)
      | member path' => exact stopsAt_error _
      | composite form' op' l r => exact stopsAt_error _
    | composite form' op' l r =>
      cases right with
      | literal value => exact stopsAt_error _
      | member path => exact stopsAt_error _
      | composite form'' op'' l' r' => exact absurd rfl (notJoin _ _ _ _ _ _ _ _ rfl)
  | case5 leaf notComposite =>
    cases leaf with
    | literal value => exact stopsAt_error _
    | member path => exact stopsAt_error _
    | composite form op left right => exact absurd rfl (notComposite form op left right)

end Clause

theorem Operation.tokenless_eq_nil_iff (op : Operation) : op.tokenless = [] ↔ op.token? ≠ none := by
  simp [tokenless]

theorem Operation.againstNull_eq_nil_iff (op : Operation) :
    op.againstNull = [] ↔ op = .eq ∨ op = .ne := by
  cases op <;> simp [againstNull]

theorem Mapping.missing_eq_nil_iff (m : Mapping) (path : MemberPath) :
    m.missing path = []
      ↔ (path.nullRef = false → m.policy = .reject → m.contains path.dotted = true) := by
  simp [missing]

theorem Literal.isTested_iff (l : Literal) :
    l.isTested = true ↔ l.value = .null ∧ l.forced = false := by
  simp [isTested, isNull, Json.isNull_iff]

namespace Node

theorem violations_join (m : Mapping) (form : Form) (op : Operation) {left right : Node}
    (hleft : left.isComposite = true) (hright : right.isComposite = true) :
    (composite form op left right).violations m = op.tokenless := by
  cases left with
  | composite form' op' l r =>
    cases right with
    | composite form'' op'' l' r' => rfl
    | _ => cases hright
  | _ => cases hleft

theorem violations_comparison_eq_nil_iff (m : Mapping) (form : Form) (op : Operation)
    (path : MemberPath) (value : Literal) :
    (composite form op (.member path) (.literal value)).violations m = [] ↔
      op.token? ≠ none ∧
        (path.nullRef = false → m.policy = .reject → m.contains path.dotted = true) ∧
        (value.value = .null → value.forced = false → op = .eq ∨ op = .ne) := by
  simp only [violations, List.append_eq_nil_iff, ite_eq_right_iff, Operation.tokenless_eq_nil_iff,
    Mapping.missing_eq_nil_iff, Operation.againstNull_eq_nil_iff, Literal.isTested_iff, and_imp]

theorem orderly_of_violations {m : Mapping} {form : Form} {op : Operation} {left right : Node}
    (h : (composite form op left right).violations m = []) : Orderly m op left right := by
  cases left with
  | literal a =>
    cases right with
    | literal b => exact .constants a b (op.tokenless_eq_nil_iff.1 h)
    | _ => cases h
  | member path =>
    cases right with
    | literal value =>
      obtain ⟨token, registered, nullable⟩ :=
        (violations_comparison_eq_nil_iff m form op path value).1 h
      exact .comparison path value token registered nullable
    | _ => cases h
  | composite form' op' l r =>
    cases right with
    | composite form'' op'' l' r' => exact .join (op.tokenless_eq_nil_iff.1 h) rfl rfl
    | _ => cases h

theorem Orderly.violations {m : Mapping} {op : Operation} {left right : Node}
    (h : Orderly m op left right) (form : Form) :
    (composite form op left right).violations m = [] := by
  cases h with
  | join token hleft hright =>
    rw [violations_join m form op hleft hright]
    exact op.tokenless_eq_nil_iff.2 token
  | comparison path value token registered nullable =>
    exact (violations_comparison_eq_nil_iff m form op path value).2 ⟨token, registered, nullable⟩
  | constants a b token => exact op.tokenless_eq_nil_iff.2 token

theorem violations_eq_nil_iff (m : Mapping) (form : Form) (op : Operation) (left right : Node) :
    (composite form op left right).violations m = [] ↔ Orderly m op left right :=
  ⟨orderly_of_violations, fun h => h.violations form⟩

/-- Below a pair that pairs and is not joined there is no composite. -/
theorem Orderly.eq_of_within {m : Mapping} {op : Operation} {left right n : Node} {form : Form}
    (h : Orderly m op left right) (notJoined : (left.isComposite && right.isComposite) = false)
    (within : Within n (.composite form op left right)) (hn : n.isComposite = true) :
    n = .composite form op left right := by
  cases within with
  | self => rfl
  | left _ _ _ within =>
    cases h with
    | join _ hleft hright => simp [hleft, hright] at notJoined
    | _ =>
      cases within
      cases hn
  | right _ _ _ within =>
    cases h with
    | join _ hleft hright => simp [hleft, hright] at notJoined
    | _ =>
      cases within
      cases hn

/-- Nothing stands in the way of a tree whose composites get nothing wrong, the root among them. -/
theorem obstacles_eq_nil_iff (m : Mapping) (n : Node) :
    n.obstacles m = [] ↔ n.isComposite = true ∧
      ∀ form op left right, Within (.composite form op left right) n →
        Orderly m op left right := by
  induction n with
  | literal value => simp [obstacles, visits, violations, isComposite]
  | member path => simp [obstacles, visits, violations, isComposite]
  | composite form op left right ihleft ihright =>
    cases joined : left.isComposite && right.isComposite with
    | true =>
      rw [Bool.and_eq_true] at joined
      obtain ⟨hleft, hright⟩ := joined
      rw [obstacles_join m form op hleft hright, List.append_eq_nil_iff, List.append_eq_nil_iff,
        ihleft, ihright, ← violations_join m form op hleft hright, violations_eq_nil_iff]
      constructor
      · rintro ⟨orderly, ⟨-, onLeft⟩, -, onRight⟩
        refine ⟨rfl, fun form' op' l r within => ?_⟩
        cases within with
        | self => exact orderly
        | left _ _ _ within => exact onLeft _ _ _ _ within
        | right _ _ _ within => exact onRight _ _ _ _ within
      · rintro ⟨-, all⟩
        exact ⟨all _ _ _ _ (.self _),
          ⟨hleft, fun _ _ _ _ within => all _ _ _ _ (.left _ _ _ within)⟩,
          hright, fun _ _ _ _ within => all _ _ _ _ (.right _ _ _ within)⟩
    | false =>
      rw [obstacles_of_not_join m form op joined, violations_eq_nil_iff]
      constructor
      · intro orderly
        refine ⟨rfl, fun form' op' l r within => ?_⟩
        cases orderly.eq_of_within joined within rfl
        exact orderly
      · rintro ⟨-, all⟩
        exact all _ _ _ _ (.self _)

end Node

/-- Any tree, of an expression or not, has a predicate exactly if it is a composite and none of
its composites gets anything wrong. Otherwise the error is the first of what the first node on
the way with a violation gets wrong. -/
theorem Predicate.ofNode_fails_first_violation (m : Mapping) (n : Node) :
    ((∃ p, (Predicate.ofNode m n).result = .ok p) ↔
      n.isComposite = true ∧
        ∀ form op left right, Node.Within (.composite form op left right) n →
          Node.Orderly m op left right) ∧
    ∀ error, (Predicate.ofNode m n).result = .error error ↔
      ∃ before v after, n.visits = before ++ v :: after ∧
        (∀ b ∈ before, b.violations m = []) ∧ (v.violations m).head? = some error := by
  have stops : StopsAt (Predicate.ofNode m n).result (n.obstacles m) := by
    have written := (Clause.stopsAt_ofNode m n).bind fun c => stopsAt_ok c.predicate
    rw [List.append_nil] at written
    rw [Predicate.ofNode, Traced.result_bind]
    exact written
  constructor
  · rw [stops.exists_ok_iff, Node.obstacles_eq_nil_iff]
  · intro error
    rw [stops.eq_error_iff, Node.obstacles, List.head?_flatMap, List.findSome?_eq_some_iff]
    simp only [List.head?_eq_none_iff, and_comm]

end WhereClause
