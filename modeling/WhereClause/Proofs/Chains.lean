import WhereClause.Proofs.Acceptance
import WhereClause.Proofs.Canonical

/-!
# Member chains

A chain of members that starts at the subject leads along a path (`Expr.Chain.exists_toNode`), and
nothing else in an expression does (`Expr.chain_of_toNode`). So every path in a tree is that of a
chain somewhere in the expression (`Expr.exists_part_of_mem_paths`).
-/
namespace WhereClause

open Outcome

namespace Node

variable {left right n : Node} {path : MemberPath}

/-- The check of a parameter refers back along the path that is compared beside it. -/
theorem segments_of_mem_orUnbound {op : Operation} {column : MemberPath} {value : Literal}
    (hpath : path ∈ (Expansion.orUnbound op column value).paths) :
    path.segments = column.segments := by
  have paths : (Expansion.orUnbound op column value).paths = [column, column.toNullRef] := rfl
  rw [paths] at hpath
  rcases List.mem_cons.1 hpath with rfl | hpath
  · rfl
  · obtain rfl := List.mem_singleton.1 hpath
    rfl

/-- An operation adds no path to those of its operands. -/
theorem Combines.mem_paths {op : Operation} (h : Combines op left right n) (hpath : path ∈ n.paths) :
    path ∈ left.paths ∨ path ∈ right.paths := by
  cases h with
  | converse value column hop => exact .inr (by simpa [binary, paths] using hpath)
  | _ => exact List.mem_append.1 hpath

/-- A method may put a path into a pattern or refer back to it, but it names no other one. -/
theorem Expands.exists_mem_paths {method : Method} (h : Expands method left right n)
    (hpath : path ∈ n.paths) :
    ∃ origin, (origin ∈ left.paths ∨ origin ∈ right.paths) ∧ path.segments = origin.segments := by
  cases h with
  | matched pattern column value hmethod =>
    obtain rfl := List.mem_singleton.1 hpath
    exact ⟨column, .inl (List.mem_singleton_self _), rfl⟩
  | membership set column hset =>
    obtain rfl := List.mem_singleton.1 hpath
    exact ⟨path, .inr (List.mem_singleton_self _), rfl⟩
  | equalsOrNull column value =>
    have same := segments_of_mem_orUnbound hpath
    exact ⟨column, .inl (List.mem_singleton_self _), same⟩
  | likeOrNull column value =>
    have same := segments_of_mem_orUnbound hpath
    exact ⟨column, .inl (List.mem_singleton_self _), same⟩
  | textOrNull column value =>
    have same := segments_of_mem_orUnbound hpath
    exact ⟨column, .inl (List.mem_singleton_self _), same⟩
  | setOrNull set column hset inhabited =>
    have same := segments_of_mem_orUnbound hpath
    exact ⟨column, .inr (List.mem_singleton_self _), same⟩
  | emptySet set column hset empty => cases hpath

end Node

namespace Expr

/-- The members that an expression leads through from the subject on, outermost first. -/
inductive Chain : Expr → List String → Prop
  | first {receiver : Expr} (name : String) (kind : Kind) (h : receiver.CoercesSubject) :
      Chain (.member receiver name kind) [name]
  | next {receiver : Expr} {names : List String} (name : String) (kind : Kind)
      (h : receiver.Chain names) : Chain (.member receiver name kind) (names ++ [name])
  | lambda {body : Expr} {names : List String} (h : body.Chain names) : Chain (.lambda body) names
  | convert {operand : Expr} {names : List String} (h : operand.Chain names) :
      Chain (.convert operand) names

/-- An expression that stands in another one, or is it. -/
inductive Part : Expr → Expr → Prop
  | self (e : Expr) : Part e e
  | body {part body : Expr} (h : Part part body) : Part part (.lambda body)
  | operand {part operand : Expr} (h : Part part operand) : Part part (.convert operand)
  | owner {part receiver : Expr} (name : String) (kind : Kind) (h : Part part receiver) :
      Part part (.member receiver name kind)
  | left {part left : Expr} (op : BinaryOperator) (right : Expr) (h : Part part left) :
      Part part (.binary op left right)
  | right {part right : Expr} (op : BinaryOperator) (left : Expr) (h : Part part right) :
      Part part (.binary op left right)
  | receiver {part receiver : Expr} (method : Method) (args : List Expr) (h : Part part receiver) :
      Part part (.call method (some receiver) args)
  | arg {part arg : Expr} {args : List Expr} (method : Method) (receiver : Option Expr)
      (harg : arg ∈ args) (h : Part part arg) : Part part (.call method receiver args)

/-- A chain somewhere in the expression leads along a dotted path. -/
def HasPath (e : Expr) (dotted : String) : Prop :=
  ∃ part names, Part part e ∧ part.Chain names ∧ ".".intercalate names = dotted

theorem Chain.exists_toNode {e : Expr} {names : List String} (h : e.Chain names) :
    ∃ kind, e.toNode.result = .ok (.member (.ofSegments kind names)) := by
  induction h with
  | first name kind h =>
    refine ⟨kind, ?_⟩
    rw [toNode, if_pos (coercesSubject_iff.1 h)]
    rfl
  | next name kind h ih =>
    obtain ⟨before, hreceiver⟩ := ih
    have notSubject := not_isSubject_of_toNode hreceiver
    exact ⟨kind, (result_toNode_member_eq_ok_iff notSubject).2 ⟨_, hreceiver, .path _⟩⟩
  | lambda h ih => exact ih
  | convert h ih => exact ih

theorem chain_of_toNode {e : Expr} {path : MemberPath} (h : e.toNode.result = .ok (.member path)) :
    e.Chain path.segments := by
  induction e using toNode.induct generalizing path with
  | case1 value kind => cases h
  | case2 => cases h
  | case3 body ih => exact .lambda (ih h)
  | case4 operand ih => exact .convert (ih h)
  | case5 receiver name kind hsubject =>
    rw [toNode, if_pos hsubject] at h
    cases h
    exact .first name kind (coercesSubject_iff.2 hsubject)
  | case6 receiver name kind hsubject ih =>
    obtain ⟨node, hnode, member⟩ := (result_toNode_member_eq_ok_iff hsubject).1 h
    cases member
    exact .next name kind (ih hnode)
  | case7 operator left right =>
    obtain ⟨op, l, r, -, -, -, combined⟩ := result_toNode_binary_eq_ok_iff.1 h
    cases combined.isComposite
  | case8 method receiver arg =>
    obtain ⟨a, b, -, -, expanded⟩ := result_toNode_call_eq_ok_iff.1 h
    cases expanded.isComposite
  | case9 method first second =>
    obtain ⟨a, b, -, -, expanded, -⟩ := result_toNode_pair_eq_ok_iff.1 h
    cases expanded.isComposite
  | case10 method receiver args notCall notPair =>
    rw [result_toNode_of_arity notCall notPair] at h
    cases h

theorem Chain.hasSort {e : Expr} {names : List String} (h : e.Chain names) : e.HasSort .path := by
  obtain ⟨kind, hnode⟩ := h.exists_toNode
  exact hasSort_iff.2 ⟨_, hnode, rfl⟩

theorem exists_part_of_mem_member {e : Expr} {column path : MemberPath}
    (h : e.toNode.result = .ok (.member column)) (hpath : path ∈ (Node.member column).paths) :
    ∃ part, Part part e ∧ part.Chain path.segments := by
  obtain rfl := List.mem_singleton.1 hpath
  exact ⟨e, .self e, chain_of_toNode h⟩

/-- Every path in a tree was led along by a chain in the expression. -/
theorem exists_part_of_mem_paths {e : Expr} {n : Node} {path : MemberPath}
    (h : e.toNode.result = .ok n) (hpath : path ∈ n.paths) :
    ∃ part, Part part e ∧ part.Chain path.segments := by
  induction e using toNode.induct generalizing n path with
  | case1 value kind =>
    cases h
    cases hpath
  | case2 => cases h
  | case3 body ih =>
    obtain ⟨part, within, chain⟩ := ih h hpath
    exact ⟨part, .body within, chain⟩
  | case4 operand ih =>
    obtain ⟨part, within, chain⟩ := ih h hpath
    exact ⟨part, .operand within, chain⟩
  | case5 receiver name kind hsubject =>
    have node := h
    rw [toNode, if_pos hsubject] at node
    cases node
    exact exists_part_of_mem_member h hpath
  | case6 receiver name kind hsubject ih =>
    obtain ⟨node, hnode, member⟩ := (result_toNode_member_eq_ok_iff hsubject).1 h
    cases member with
    | path parent => exact exists_part_of_mem_member h hpath
    | field hcaptured => cases hpath
  | case7 operator left right ihleft ihright =>
    obtain ⟨op, l, r, -, hl, hr, combined⟩ := result_toNode_binary_eq_ok_iff.1 h
    rcases combined.mem_paths hpath with hpath | hpath
    · obtain ⟨part, within, chain⟩ := ihleft hl hpath
      exact ⟨part, .left operator right within, chain⟩
    · obtain ⟨part, within, chain⟩ := ihright hr hpath
      exact ⟨part, .right operator left within, chain⟩
  | case8 method receiver arg ihreceiver iharg =>
    obtain ⟨a, b, ha, hb, expanded⟩ := result_toNode_call_eq_ok_iff.1 h
    obtain ⟨origin, horigin, segments⟩ := expanded.exists_mem_paths hpath
    rw [segments]
    rcases horigin with horigin | horigin
    · obtain ⟨part, within, chain⟩ := ihreceiver ha horigin
      exact ⟨part, .receiver method [arg] within, chain⟩
    · obtain ⟨part, within, chain⟩ := iharg hb horigin
      exact ⟨part, .arg method _ (List.mem_singleton_self _) within, chain⟩
  | case9 method first second ihfirst ihsecond =>
    obtain ⟨a, b, ha, hb, expanded, -⟩ := result_toNode_pair_eq_ok_iff.1 h
    obtain ⟨origin, horigin, segments⟩ := expanded.exists_mem_paths hpath
    rw [segments]
    rcases horigin with horigin | horigin
    · obtain ⟨part, within, chain⟩ := ihfirst ha horigin
      exact ⟨part, .arg method none List.mem_cons_self within, chain⟩
    · obtain ⟨part, within, chain⟩ := ihsecond hb horigin
      exact ⟨part, .arg method none (List.mem_cons_of_mem _ List.mem_cons_self) within, chain⟩
  | case10 method receiver args notCall notPair =>
    rw [result_toNode_of_arity notCall notPair] at h
    cases h

/-- The path is led along in the expression itself, before there is any tree. -/
theorem hasPath_of_mem_paths {e : Expr} {n : Node} {path : MemberPath}
    (h : e.toNode.result = .ok n) (hpath : path ∈ n.paths) : e.HasPath path.dotted := by
  obtain ⟨part, within, chain⟩ := exists_part_of_mem_paths h hpath
  exact ⟨part, path.segments, within, chain, rfl⟩

/-- Getting member after member goes on with a chain. -/
theorem Chain.foldl_get {e : Expr} {before : List String} (h : e.Chain before)
    (names : List String) : (names.foldl get e).Chain (before ++ names) := by
  induction names generalizing e before with
  | nil => simpa using h
  | cons name names ih =>
    have longer : (names.foldl get (e.get name)).Chain (before ++ [name] ++ names) :=
      ih (h.next name .any)
    rw [List.append_assoc] at longer
    exact longer

/-- The field of a dotted path is the chain of its parts, of which there is always one. -/
theorem chain_field (path : String) : (field path).Chain (Text.parts '.' path) := by
  have parted : Text.parts '.' path ≠ [] := by
    simp [Text.parts, Text.partsFrom_ne_nil]
  obtain ⟨first, names, hparts⟩ := List.exists_cons_of_ne_nil parted
  unfold field
  rw [hparts]
  exact Chain.foldl_get (.first first .any .subject) names

end Expr
end WhereClause
