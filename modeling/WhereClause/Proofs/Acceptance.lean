import WhereClause.Proofs.Expressible

/-!
# Which expressions are predicates

The grammar of operands, over the expressions themselves and without a word about trees.
As an operand an expression is a path, a literal or a predicate, or it is none of these and
refused. `Expr.HasSort` says which, with one rule for each form; `BinaryOperator.Joins` and
`Method.Takes` are the tables of operand sorts that operators and methods accept. Every node
has a sort too, and an expression has the sort of its node (`Expr.hasSort_iff`).
-/
namespace WhereClause

open Outcome

/-- What an expression is as an operand. -/
inductive OperandSort where
  | path
  | literal (value : Json) (kind : Kind)
  | predicate

/-- A literal that may stand for a set: one of that kind, or null for a set that is not bound. -/
inductive OperandSort.IsSet : OperandSort → Prop
  | unbound (kind : Kind) : IsSet (.literal .null kind)
  | collection (value : Json) : IsSet (.literal value .collection)

namespace BinaryOperator

def isArithmetic : BinaryOperator → Bool
  | add | subtract | multiply | divide => true
  | _ => false

/-- The operators between predicates only. -/
def isConnective : BinaryOperator → Bool
  | andAlso | orElse => true
  | _ => false

/-- The operand sorts that an operator accepts on its left and right. -/
inductive Joins (op : BinaryOperator) : OperandSort → OperandSort → Prop
  | predicates (hop : op.isArithmetic = false) : Joins op .predicate .predicate
  | comparison (value : Json) (kind : Kind) (hop : op.isArithmetic = false)
      (connective : op.isConnective = false) : Joins op .path (.literal value kind)
  | constants (value : Json) (kind : Kind) (value' : Json) (kind' : Kind)
      (hop : op.isArithmetic = false) (connective : op.isConnective = false) :
      Joins op (.literal value kind) (.literal value' kind')
  /-- The literal may come first, but nothing can be coalesced into a literal. -/
  | converse (value : Json) (kind : Kind) (hop : op.isArithmetic = false)
      (connective : op.isConnective = false) (hcoalesce : op ≠ .coalesce) :
      Joins op (.literal value kind) .path

end BinaryOperator

/-- The operand sorts that a method accepts, `onReceiver` if the first is its receiver and
else as two arguments. -/
inductive Method.Takes (onReceiver : Bool) : Method → OperandSort → OperandSort → Prop
  | equalsOrNull (value : Json) (kind : Kind) :
      Takes onReceiver .equalsOrNull .path (.literal value kind)
  | likeOrNull (value : Json) (kind : Kind) :
      Takes onReceiver .likeOrNull .path (.literal value kind)
  | textOrNull (value : Json) (kind : Kind) :
      Takes onReceiver .containsOrNull .path (.literal value kind)
  | setOrNull {set : OperandSort} (hset : set.IsSet) : Takes onReceiver .containsOrNull set .path
  | membership {set : OperandSort} (hset : set.IsSet) : Takes onReceiver .contains set .path
  | contains (value : Json) (kind : Kind) (receives : onReceiver = true) :
      Takes onReceiver .contains .path (.literal value kind)
  | startsWith (value : Json) (kind : Kind) (receives : onReceiver = true) :
      Takes onReceiver .startsWith .path (.literal value kind)
  | endsWith (value : Json) (kind : Kind) (receives : onReceiver = true) :
      Takes onReceiver .endsWith .path (.literal value kind)

namespace Expr

/-- The subject under any number of coercions. -/
inductive CoercesSubject : Expr → Prop
  | subject : CoercesSubject .subject
  | convert {operand : Expr} (h : operand.CoercesSubject) : CoercesSubject (.convert operand)

/-- The sort of an expression as an operand. -/
inductive HasSort : Expr → OperandSort → Prop
  | constant (value : Json) (kind : Kind) :
      HasSort (.constant value kind) (.literal value (kind.orOf value))
  | lambda {body : Expr} {s : OperandSort} (h : body.HasSort s) : HasSort (.lambda body) s
  | convert {operand : Expr} {s : OperandSort} (h : operand.HasSort s) :
      HasSort (.convert operand) s
  | ofSubject {receiver : Expr} (name : String) (kind : Kind) (h : receiver.CoercesSubject) :
      HasSort (.member receiver name kind) .path
  | ofPath {receiver : Expr} (name : String) (kind : Kind) (h : receiver.HasSort .path) :
      HasSort (.member receiver name kind) .path
  /-- A member of a captured object is its field, null if there is none. -/
  | ofObject {receiver : Expr} {fields : List (String × Json)} {declared : Kind} (name : String)
      (kind : Kind) (h : receiver.HasSort (.literal (.object fields) declared)) :
      HasSort (.member receiver name kind)
        (.literal (Json.field fields name) (kind.orOf (Json.field fields name)))
  | binary {op : BinaryOperator} {left right : Expr} {s t : OperandSort} (hleft : left.HasSort s)
      (hright : right.HasSort t) (h : op.Joins s t) : HasSort (.binary op left right) .predicate
  | call {method : Method} {receiver arg : Expr} {s t : OperandSort}
      (hreceiver : receiver.HasSort s) (harg : arg.HasSort t) (h : method.Takes true s t) :
      HasSort (.call method (some receiver) [arg]) .predicate
  | pair {method : Method} {first second : Expr} {s t : OperandSort} (hfirst : first.HasSort s)
      (hsecond : second.HasSort t) (h : method.Takes false s t) :
      HasSort (.call method none [first, second]) .predicate

theorem coercesSubject_iff {e : Expr} : e.CoercesSubject ↔ e.isSubject = true := by
  constructor
  · intro h
    induction h with
    | subject => rfl
    | convert h ih => exact ih
  · intro h
    induction e using isSubject.induct with
    | case1 => exact .subject
    | case2 operand ih => exact .convert (ih h)
    | case3 e notSubject notConvert =>
      rw [isSubject] at h
      · cases h
      · exact notSubject
      · exact notConvert

/-- The subject is no operand, only its members are. -/
theorem CoercesSubject.result_toNode {e : Expr} (h : e.CoercesSubject) :
    e.toNode.result = .error subjectAsValue := by
  induction h with
  | subject => rfl
  | convert h ih => exact ih

theorem not_isSubject_of_toNode {e : Expr} {n : Node} (h : e.toNode.result = .ok n) :
    ¬ e.isSubject = true := by
  intro hsubject
  rw [(coercesSubject_iff.2 hsubject).result_toNode] at h
  cases h

end Expr

namespace Node

/-- The sort that a node is of as an operand. -/
def sort : Node → OperandSort
  | .member _ => .path
  | .literal l => .literal l.value l.kind
  | .composite _ _ _ _ => .predicate

theorem sort_eq_path_iff {n : Node} : n.sort = .path ↔ ∃ path, n = .member path := by
  cases n <;> simp [sort]

theorem sort_eq_predicate_iff {n : Node} : n.sort = .predicate ↔ n.isComposite = true := by
  cases n <;> simp [sort, isComposite]

theorem sort_eq_literal_iff {n : Node} {value : Json} {kind : Kind} :
    n.sort = .literal value kind ↔ ∃ l, n = .literal l ∧ l.value = value ∧ l.kind = kind := by
  cases n <;> simp [sort]

theorem isSet_sort_iff {l : Literal} :
    (literal l).sort.IsSet ↔ l.isNull = true ∨ l.kind.isCollection = true := by
  obtain ⟨kind, value, forced⟩ := l
  constructor
  · intro h
    cases h with
    | unbound => exact .inl rfl
    | collection => exact .inr rfl
  · rintro (hnull | hkind)
    · obtain rfl : value = .null := (Json.isNull_iff value).1 hnull
      exact .unbound kind
    · obtain rfl : kind = .collection := by simpa [Kind.isCollection] using hkind
      exact .collection value

theorem exists_literal_of_isSet {n : Node} (h : n.sort.IsSet) :
    ∃ l, n = .literal l ∧ (l.isNull = true ∨ l.kind.isCollection = true) := by
  cases n with
  | literal l => exact ⟨l, rfl, isSet_sort_iff.1 h⟩
  | member path => cases h
  | composite form op left right => cases h

end Node

/-! Each table holds exactly the sorts of the nodes that there is a predicate for. -/

namespace BinaryOperator

theorem exists_operation_iff {operator : BinaryOperator} :
    (∃ op, operator.operation = .ok op) ↔ operator.isArithmetic = false := by
  cases operator <;> simp [operation, isArithmetic]

variable {operator : BinaryOperator} {op : Operation}

theorem isConnective_of_operation (hop : operator.operation = .ok op) :
    operator.isConnective = op.isLogical := by
  cases operator <;> cases hop <;> rfl

theorem hasConverse_iff_of_operation (hop : operator.operation = .ok op) :
    op.hasConverse = true ↔ operator.isConnective = false ∧ operator ≠ .coalesce := by
  cases operator <;> cases hop <;> simp [isConnective, Operation.hasConverse]

end BinaryOperator

namespace Node

variable {left right n : Node} {s t : OperandSort}

theorem Combines.joins {operator : BinaryOperator} {op : Operation} (h : Combines op left right n)
    (hop : operator.operation = .ok op) : operator.Joins left.sort right.sort := by
  have notArithmetic := BinaryOperator.exists_operation_iff.1 ⟨op, hop⟩
  have connective := BinaryOperator.isConnective_of_operation hop
  cases h with
  | join hleft hright =>
    rw [sort_eq_predicate_iff.2 hleft, sort_eq_predicate_iff.2 hright]
    exact .predicates notArithmetic
  | comparison path value hlogical =>
    exact .comparison _ _ notArithmetic (connective.trans hlogical)
  | constants a b hlogical => exact .constants _ _ _ _ notArithmetic (connective.trans hlogical)
  | converse value path hconverse =>
    obtain ⟨notConnective, notCoalesce⟩ :=
      (BinaryOperator.hasConverse_iff_of_operation hop).1 hconverse
    exact .converse _ _ notArithmetic notConnective notCoalesce

theorem exists_combines_of_joins {operator : BinaryOperator} (h : operator.Joins s t)
    (hleft : left.sort = s) (hright : right.sort = t) :
    ∃ op n, operator.operation = .ok op ∧ Combines op left right n := by
  have notArithmetic : operator.isArithmetic = false := by cases h <;> assumption
  obtain ⟨op, hop⟩ := BinaryOperator.exists_operation_iff.2 notArithmetic
  have connective := BinaryOperator.isConnective_of_operation hop
  cases h with
  | predicates =>
    exact ⟨op, _, hop, .join (sort_eq_predicate_iff.1 hleft) (sort_eq_predicate_iff.1 hright)⟩
  | comparison value kind _ notConnective =>
    obtain ⟨path, rfl⟩ := sort_eq_path_iff.1 hleft
    obtain ⟨l, rfl, -, -⟩ := sort_eq_literal_iff.1 hright
    exact ⟨op, _, hop, .comparison path l (connective.symm.trans notConnective)⟩
  | constants value kind value' kind' _ notConnective =>
    obtain ⟨a, rfl, -, -⟩ := sort_eq_literal_iff.1 hleft
    obtain ⟨b, rfl, -, -⟩ := sort_eq_literal_iff.1 hright
    exact ⟨op, _, hop, .constants a b (connective.symm.trans notConnective)⟩
  | converse value kind _ notConnective notCoalesce =>
    obtain ⟨l, rfl, -, -⟩ := sort_eq_literal_iff.1 hleft
    obtain ⟨path, rfl⟩ := sort_eq_path_iff.1 hright
    have hconverse := (BinaryOperator.hasConverse_iff_of_operation hop).2 ⟨notConnective, notCoalesce⟩
    exact ⟨op, _, hop, .converse l path hconverse⟩

/-- As arguments alone the operands of a method are accepted only if the method does not
match text, or if the first of them is a literal. -/
theorem Expands.takes {method : Method} {onReceiver : Bool} (h : Expands method left right n)
    (hform : onReceiver = true ∨ method.pattern? = none ∨ ∃ l, left = .literal l) :
    method.Takes onReceiver left.sort right.sort := by
  cases h with
  | matched pattern path value hpattern =>
    have receives : onReceiver = true := by
      rcases hform with receives | hmethod | ⟨l, hl⟩
      · exact receives
      · rw [hmethod] at hpattern
        cases hpattern
      · cases hl
    cases method with
    | startsWith => exact .startsWith _ _ receives
    | contains => exact .contains _ _ receives
    | endsWith => exact .endsWith _ _ receives
    | _ => cases hpattern
  | membership set path hset => exact .membership (isSet_sort_iff.2 hset)
  | equalsOrNull path value => exact .equalsOrNull _ _
  | likeOrNull path value => exact .likeOrNull _ _
  | textOrNull path value => exact .textOrNull _ _
  | setOrNull set path hset inhabited => exact .setOrNull (isSet_sort_iff.2 hset)
  | emptySet set path hset empty => exact .setOrNull (isSet_sort_iff.2 hset)

theorem exists_expands_of_takes {method : Method} {onReceiver : Bool}
    (h : method.Takes onReceiver s t) (hleft : left.sort = s) (hright : right.sort = t) :
    (∃ n, Expands method left right n) ∧
      (onReceiver = true ∨ method.pattern? = none ∨ ∃ l, left = .literal l) := by
  have textual (value : Json) (kind : Kind) (hs : s = .path) (ht : t = .literal value kind) :
      ∃ path l, left = .member path ∧ right = .literal l := by
    obtain ⟨path, hpath⟩ := sort_eq_path_iff.1 (hleft.trans hs)
    obtain ⟨l, hl, -, -⟩ := sort_eq_literal_iff.1 (hright.trans ht)
    exact ⟨path, l, hpath, hl⟩
  cases h with
  | equalsOrNull value kind =>
    obtain ⟨path, l, rfl, rfl⟩ := textual value kind rfl rfl
    exact ⟨⟨_, .equalsOrNull path l⟩, .inr (.inl rfl)⟩
  | likeOrNull value kind =>
    obtain ⟨path, l, rfl, rfl⟩ := textual value kind rfl rfl
    exact ⟨⟨_, .likeOrNull path l⟩, .inr (.inl rfl)⟩
  | textOrNull value kind =>
    obtain ⟨path, l, rfl, rfl⟩ := textual value kind rfl rfl
    exact ⟨⟨_, .textOrNull path l⟩, .inr (.inl rfl)⟩
  | setOrNull hset =>
    obtain ⟨l, rfl, hset⟩ := exists_literal_of_isSet (hleft ▸ hset)
    obtain ⟨path, rfl⟩ := sort_eq_path_iff.1 hright
    refine ⟨?_, .inr (.inl rfl)⟩
    by_cases empty : Expansion.isEmptySet l.value = true
    · exact ⟨_, .emptySet l path hset empty⟩
    · exact ⟨_, .setOrNull l path hset (Bool.not_eq_true _ ▸ empty)⟩
  | membership hset =>
    obtain ⟨l, rfl, hset⟩ := exists_literal_of_isSet (hleft ▸ hset)
    obtain ⟨path, rfl⟩ := sort_eq_path_iff.1 hright
    exact ⟨⟨_, .membership l path hset⟩, .inr (.inr ⟨l, rfl⟩)⟩
  | contains value kind receives =>
    obtain ⟨path, l, rfl, rfl⟩ := textual value kind rfl rfl
    exact ⟨⟨_, .matched .contains path l rfl⟩, .inl receives⟩
  | startsWith value kind receives =>
    obtain ⟨path, l, rfl, rfl⟩ := textual value kind rfl rfl
    exact ⟨⟨_, .matched .startsWith path l rfl⟩, .inl receives⟩
  | endsWith value kind receives =>
    obtain ⟨path, l, rfl, rfl⟩ := textual value kind rfl rfl
    exact ⟨⟨_, .matched .endsWith path l rfl⟩, .inl receives⟩

end Node

namespace Expr

open Node

/-- An expression has the sort of its node. -/
theorem hasSort_of_toNode {e : Expr} {n : Node} (h : e.toNode.result = .ok n) :
    e.HasSort n.sort := by
  induction e using toNode.induct generalizing n with
  | case1 value kind =>
    cases h
    exact .constant value kind
  | case2 => cases h
  | case3 body ih => exact .lambda (ih h)
  | case4 operand ih => exact .convert (ih h)
  | case5 receiver name kind hsubject =>
    rw [toNode, if_pos hsubject] at h
    cases h
    exact .ofSubject name kind (coercesSubject_iff.2 hsubject)
  | case6 receiver name kind hsubject ih =>
    obtain ⟨node, hnode, h⟩ := (result_toNode_member_eq_ok_iff hsubject).1 h
    have hreceiver := ih hnode
    cases h with
    | path parent => exact .ofPath name kind hreceiver
    | field hcaptured =>
      rw [sort, hcaptured] at hreceiver
      exact .ofObject name kind hreceiver
  | case7 operator left right ihleft ihright =>
    obtain ⟨op, l, r, hop, hl, hr, h⟩ := result_toNode_binary_eq_ok_iff.1 h
    rw [sort_eq_predicate_iff.2 h.isComposite]
    exact .binary (ihleft hl) (ihright hr) (h.joins hop)
  | case8 method receiver arg ihreceiver iharg =>
    obtain ⟨a, b, ha, hb, h⟩ := result_toNode_call_eq_ok_iff.1 h
    rw [sort_eq_predicate_iff.2 h.isComposite]
    exact .call (ihreceiver ha) (iharg hb) (h.takes (.inl rfl))
  | case9 method first second ihfirst ihsecond =>
    obtain ⟨a, b, ha, hb, h, hform⟩ := result_toNode_pair_eq_ok_iff.1 h
    rw [sort_eq_predicate_iff.2 h.isComposite]
    exact .pair (ihfirst ha) (ihsecond hb) (h.takes (.inr hform))
  | case10 method receiver args notCall notPair =>
    rw [result_toNode_of_arity notCall notPair] at h
    cases h

/-- An expression that has a sort has a node of that sort. -/
theorem HasSort.exists_toNode {e : Expr} {s : OperandSort} (h : e.HasSort s) :
    ∃ n, e.toNode.result = .ok n ∧ n.sort = s := by
  induction h with
  | constant value kind => exact ⟨_, rfl, rfl⟩
  | lambda h ih => exact ih
  | convert h ih => exact ih
  | ofSubject name kind h =>
    rw [toNode, if_pos (coercesSubject_iff.1 h)]
    exact ⟨_, rfl, rfl⟩
  | ofPath name kind h ih =>
    obtain ⟨node, hnode, hsort⟩ := ih
    obtain ⟨parent, rfl⟩ := sort_eq_path_iff.1 hsort
    exact ⟨_, (result_toNode_member_eq_ok_iff (not_isSubject_of_toNode hnode)).2
      ⟨_, hnode, .path parent⟩, rfl⟩
  | ofObject name kind h ih =>
    obtain ⟨node, hnode, hsort⟩ := ih
    obtain ⟨captured, rfl, hcaptured, -⟩ := sort_eq_literal_iff.1 hsort
    exact ⟨_, (result_toNode_member_eq_ok_iff (not_isSubject_of_toNode hnode)).2
      ⟨_, hnode, .field hcaptured⟩, rfl⟩
  | binary hleft hright h ihleft ihright =>
    obtain ⟨l, hl, hlsort⟩ := ihleft
    obtain ⟨r, hr, hrsort⟩ := ihright
    obtain ⟨op, n, hop, hn⟩ := exists_combines_of_joins h hlsort hrsort
    exact ⟨n, result_toNode_binary_eq_ok_iff.2 ⟨op, l, r, hop, hl, hr, hn⟩,
      sort_eq_predicate_iff.2 hn.isComposite⟩
  | call hreceiver harg h ihreceiver iharg =>
    obtain ⟨a, ha, hasort⟩ := ihreceiver
    obtain ⟨b, hb, hbsort⟩ := iharg
    obtain ⟨⟨n, hn⟩, -⟩ := exists_expands_of_takes h hasort hbsort
    exact ⟨n, result_toNode_call_eq_ok_iff.2 ⟨a, b, ha, hb, hn⟩,
      sort_eq_predicate_iff.2 hn.isComposite⟩
  | pair hfirst hsecond h ihfirst ihsecond =>
    obtain ⟨a, ha, hasort⟩ := ihfirst
    obtain ⟨b, hb, hbsort⟩ := ihsecond
    obtain ⟨⟨n, hn⟩, hform⟩ := exists_expands_of_takes h hasort hbsort
    have withoutReceiver := hform.resolve_left Bool.false_ne_true
    exact ⟨n, result_toNode_pair_eq_ok_iff.2 ⟨a, b, ha, hb, hn, withoutReceiver⟩,
      sort_eq_predicate_iff.2 hn.isComposite⟩

theorem hasSort_iff {e : Expr} {s : OperandSort} :
    e.HasSort s ↔ ∃ n, e.toNode.result = .ok n ∧ n.sort = s := by
  constructor
  · exact HasSort.exists_toNode
  · rintro ⟨n, hn, rfl⟩
    exact hasSort_of_toNode hn

/-- The expressions that are taken as a whole predicate are those of that sort, and as
an operand an expression stands for what its sort says: a path, this very value under this
kind, or a predicate. Every other expression is refused. -/
theorem accepted_iff_hasSort (e : Expr) :
    ((∃ n, e.toPredicate.result = .ok n) ↔ e.HasSort .predicate) ∧
    ∀ s, (∃ n, e.toNode.result = .ok n ∧ n.sort = s) ↔ e.HasSort s := by
  constructor
  · simp only [result_toPredicate_eq_ok_iff, hasSort_iff, sort_eq_predicate_iff]
  · exact fun s => hasSort_iff.symm

end Expr
end WhereClause
