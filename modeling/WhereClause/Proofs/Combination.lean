import WhereClause.Node.OfExpr
import WhereClause.Proofs.Outcome

/-!
# What operands combine to

The ways in which nodes make a new one, each said once as a relation: `HasMember` for a
member of a node, `Combines` for an operation between two nodes and `Expands` for a method
over two nodes. The functions succeed exactly where the relations hold
(`memberOf_eq_ok_iff`, `combine_eq_ok_iff`, `expandCall_eq_ok_iff`,
`expandPair_eq_ok_iff`), and fail otherwise because of the shapes of the nodes.
-/
namespace WhereClause

/-- The field of an object, null if it has none of that name. -/
def Json.field (fields : List (String × Json)) (name : String) : Json :=
  (Keyed.find? fields name).getD .null

theorem Literal.isNull_of_inhabited {set : Literal} (h : Expansion.isEmptySet set.value = false) :
    set.isNull = false := by
  obtain ⟨kind, value, forced⟩ := set
  cases value <;> first | rfl | cases h

theorem Expansion.ne_null_of_inhabited {value : Json} (h : isEmptySet value = false) :
    value ≠ .null := by
  rintro rfl
  cases h

theorem Expansion.ne_empty_of_inhabited {value : Json} (h : isEmptySet value = false) :
    value ≠ .array [] := by
  rintro rfl
  cases h

theorem Operation.isLogical_eq_false_of_hasConverse {op : Operation} (h : op.hasConverse = true) :
    op.isLogical = false := by
  cases op <;> first | rfl | cases h

namespace Expansion

open Outcome

theorem expectMember_eq_ok_iff {method : String} {n : Node} {path : MemberPath} :
    expectMember method n = .ok path ↔ n = .member path := by
  cases n <;> simp [expectMember]

theorem expectLiteral_eq_ok_iff {method : String} {n : Node} {value : Literal} :
    expectLiteral method n = .ok value ↔ n = .literal value := by
  cases n <;> simp [expectLiteral]

theorem expectCollection_eq_ok_iff {method : String} {n : Node} {set : Literal} :
    expectCollection method n = .ok set
      ↔ n = .literal set ∧ (set.isNull = true ∨ set.kind.isCollection = true) := by
  rw [← Bool.or_eq_true]
  unfold expectCollection
  rw [bind_eq_ok_iff]
  constructor
  · rintro ⟨value, hn, h⟩
    split at h
    · next hset =>
      cases h
      exact ⟨expectLiteral_eq_ok_iff.1 hn, hset⟩
    · cases h
  · rintro ⟨rfl, hset⟩
    exact ⟨set, rfl, if_pos hset⟩

theorem stringMatch_eq_ok_iff {pattern : Pattern} {first second n : Node} :
    stringMatch pattern first second = .ok n
      ↔ ∃ path value, first = .member path ∧ second = .literal value
        ∧ n = .binary .like (.member (path.format pattern)) (.literal value) := by
  simp only [stringMatch, bind_eq_ok_iff, expectMember_eq_ok_iff, expectLiteral_eq_ok_iff]
  simp [pure, Except.pure, eq_comm]

theorem likeOrNull_eq_ok_iff {first second n : Node} :
    likeOrNull first second = .ok n
      ↔ ∃ path value, first = .member path ∧ second = .literal value
        ∧ n = orUnbound .like (path.format .contains) value := by
  simp only [likeOrNull, bind_eq_ok_iff, expectMember_eq_ok_iff, expectLiteral_eq_ok_iff]
  simp [pure, Except.pure, eq_comm]

theorem equalsOrNull_eq_ok_iff {first second n : Node} :
    equalsOrNull first second = .ok n
      ↔ ∃ path value, first = .member path ∧ second = .literal value
        ∧ n = orUnbound .eq path value := by
  simp only [equalsOrNull, bind_eq_ok_iff, expectMember_eq_ok_iff, expectLiteral_eq_ok_iff]
  simp [pure, Except.pure, eq_comm]

theorem containsInCollection_eq_ok_iff {first second n : Node} :
    containsInCollection first second = .ok n
      ↔ ∃ set path, first = .literal set ∧ second = .member path
        ∧ (set.isNull = true ∨ set.kind.isCollection = true)
        ∧ n = .binary .within (.member path) (.literal set) := by
  simp only [containsInCollection, bind_eq_ok_iff, expectMember_eq_ok_iff,
    expectCollection_eq_ok_iff]
  constructor
  · rintro ⟨set, ⟨hfirst, hset⟩, path, hsecond, h⟩
    cases h
    exact ⟨set, path, hfirst, hsecond, hset, rfl⟩
  · rintro ⟨set, path, hfirst, hsecond, hset, rfl⟩
    exact ⟨set, ⟨hfirst, hset⟩, path, hsecond, rfl⟩

section Failures

variable {P : Error → Prop} (hshape : ∀ detail, P (.unsupportedShape detail))

include hshape

theorem fails_expectMember (method : String) (n : Node) : Fails P (expectMember method n) := by
  cases n with
  | member path => exact fails_ok path
  | _ => exact fails_error (hshape _)

theorem fails_expectLiteral (method : String) (n : Node) : Fails P (expectLiteral method n) := by
  cases n with
  | literal value => exact fails_ok value
  | _ => exact fails_error (hshape _)

theorem fails_expectCollection (method : String) (n : Node) :
    Fails P (expectCollection method n) := by
  refine (fails_expectLiteral hshape method n).bind fun value _ => ?_
  split
  · exact fails_ok _
  · exact fails_error (hshape _)

theorem fails_stringMatch (pattern : Pattern) (first second : Node) :
    Fails P (stringMatch pattern first second) :=
  (fails_expectMember hshape _ _).bind fun _ _ =>
    (fails_expectLiteral hshape _ _).bind fun _ _ => fails_ok _

theorem fails_likeOrNull (first second : Node) : Fails P (likeOrNull first second) :=
  (fails_expectMember hshape _ _).bind fun _ _ =>
    (fails_expectLiteral hshape _ _).bind fun _ _ => fails_ok _

theorem fails_equalsOrNull (first second : Node) : Fails P (equalsOrNull first second) :=
  (fails_expectMember hshape _ _).bind fun _ _ =>
    (fails_expectLiteral hshape _ _).bind fun _ _ => fails_ok _

theorem fails_containsInCollection (first second : Node) :
    Fails P (containsInCollection first second) :=
  (fails_expectCollection hshape _ _).bind fun _ _ =>
    (fails_expectMember hshape _ _).bind fun _ _ => fails_ok _

theorem fails_containsOrNull (first second : Node) : Fails P (containsOrNull first second) := by
  unfold containsOrNull
  split
  · refine (fails_expectCollection hshape _ _).bind fun value _ => ?_
    split <;> exact fails_ok _
  · exact fails_ok _
  · exact fails_error (hshape _)

end Failures

end Expansion

namespace Node

open Outcome Expansion

/-- The member of a node: the path goes on, or a captured object is read. -/
inductive HasMember (name : String) (kind : Kind) : Node → Node → Prop
  | path (parent : MemberPath) :
      HasMember name kind (.member parent) (.member (parent.child kind name))
  | field {captured : Literal} {fields : List (String × Json)}
      (hcaptured : captured.value = .object fields) :
      HasMember name kind (.literal captured)
        (.literal (.plain (kind.orOf (Json.field fields name)) (Json.field fields name)))

/-- The predicate of an operation between two nodes. -/
inductive Combines (op : Operation) : Node → Node → Node → Prop
  | join {left right : Node} (hleft : left.isComposite = true) (hright : right.isComposite = true) :
      Combines op left right (binary op left right)
  | comparison (path : MemberPath) (value : Literal) (hop : op.isLogical = false) :
      Combines op (.member path) (.literal value) (binary op (.member path) (.literal value))
  | constants (a b : Literal) (hop : op.isLogical = false) :
      Combines op (.literal a) (.literal b) (binary op (.literal a) (.literal b))
  /-- A literal on the left changes sides, and the operation is turned around. -/
  | converse (value : Literal) (path : MemberPath) (hop : op.hasConverse = true) :
      Combines op (.literal value) (.member path)
        (binary op.converse (.member path) (.literal value))

/-- The predicate of a method over two nodes. -/
inductive Expands : Method → Node → Node → Node → Prop
  | matched {method : Method} (pattern : Pattern) (path : MemberPath) (value : Literal)
      (hmethod : method.pattern? = some pattern) :
      Expands method (.member path) (.literal value)
        (binary .like (.member (path.format pattern)) (.literal value))
  | membership (set : Literal) (path : MemberPath)
      (hset : set.isNull = true ∨ set.kind.isCollection = true) :
      Expands .contains (.literal set) (.member path)
        (binary .within (.member path) (.literal set))
  | equalsOrNull (path : MemberPath) (value : Literal) :
      Expands .equalsOrNull (.member path) (.literal value) (orUnbound .eq path value)
  | likeOrNull (path : MemberPath) (value : Literal) :
      Expands .likeOrNull (.member path) (.literal value)
        (orUnbound .like (path.format .contains) value)
  | textOrNull (path : MemberPath) (value : Literal) :
      Expands .containsOrNull (.member path) (.literal value)
        (orUnbound .like (path.format .contains) value)
  | setOrNull (set : Literal) (path : MemberPath)
      (hset : set.isNull = true ∨ set.kind.isCollection = true)
      (inhabited : isEmptySet set.value = false) :
      Expands .containsOrNull (.literal set) (.member path) (orUnbound .within path set)
  | emptySet (set : Literal) (path : MemberPath)
      (hset : set.isNull = true ∨ set.kind.isCollection = true)
      (empty : isEmptySet set.value = true) :
      Expands .containsOrNull (.literal set) (.member path) tautology

theorem memberOf_eq_ok_iff {receiver n : Node} {name : String} {kind : Kind} :
    receiver.memberOf name kind = .ok n ↔ HasMember name kind receiver n := by
  constructor
  · intro h
    cases receiver with
    | member parent =>
      cases h
      exact .path parent
    | literal captured =>
      unfold memberOf memberOfConstant at h
      dsimp only at h
      split at h
      · next fields hcaptured =>
        cases h
        exact .field hcaptured
      · cases h
    | composite form op left right => cases h
  · intro h
    cases h with
    | path parent => rfl
    | @field captured fields hcaptured =>
      show memberOfConstant captured.value name kind = _
      rw [hcaptured]
      rfl

theorem Combines.of_combine {op : Operation} {left right n : Node}
    (h : combine op left right = .ok n) : Combines op left right n := by
  unfold combine at h
  split at h
  case isFalse => cases h
  case isTrue accepted =>
    cases left with
    | composite form op' l r =>
      cases right with
      | composite form' op'' l' r' =>
        cases h
        exact .join rfl rfl
      | _ => simp [combinable, isComposite] at accepted
    | member path =>
      cases right with
      | literal value =>
        cases h
        exact .comparison path value (by simpa [combinable, isComposite] using accepted)
      | _ => simp [combinable, isComposite] at accepted
    | literal value =>
      cases right with
      | literal value' =>
        cases h
        exact .constants value value' (by simpa [combinable, isComposite] using accepted)
      | member path =>
        cases h
        have hop : op.isLogical = false ∧ op.hasConverse = true := by
          simpa [combinable, isComposite] using accepted
        exact .converse value path hop.2
      | composite form op' l r => simp [combinable, isComposite] at accepted

theorem combine_eq_ok_iff {op : Operation} {left right n : Node} :
    combine op left right = .ok n ↔ Combines op left right n := by
  refine ⟨.of_combine, fun h => ?_⟩
  cases h with
  | join hleft hright =>
    cases left with
    | composite form op' l r =>
      cases right with
      | composite form' op'' l' r' => simp [combine, combinable, isComposite]
      | _ => cases hright
    | _ => cases hleft
  | comparison path value hop => simp [combine, combinable, hop]
  | constants a b hop => simp [combine, combinable, hop]
  | converse value path hop =>
    simp [combine, combinable, hop, Operation.isLogical_eq_false_of_hasConverse hop]

theorem Expands.of_containsOrNull {first second n : Node}
    (h : containsOrNull first second = .ok n) : Expands .containsOrNull first second n := by
  unfold containsOrNull at h
  split at h
  · next set path =>
    obtain ⟨value, hvalue, h⟩ := bind_eq_ok_iff.1 h
    obtain ⟨same, hset⟩ := expectCollection_eq_ok_iff.1 hvalue
    cases same
    split at h
    · next empty =>
      cases h
      exact .emptySet set path hset empty
    · next inhabited =>
      cases h
      exact .setOrNull set path hset (Bool.not_eq_true _ ▸ inhabited)
  · next path value =>
    cases h
    exact .textOrNull path value
  · cases h

theorem Expands.of_expandPair {method : Method} {first second n : Node}
    (h : expandPair method first second = .ok n) : Expands method first second n := by
  cases method with
  | contains =>
    obtain ⟨set, path, rfl, rfl, hset, rfl⟩ := containsInCollection_eq_ok_iff.1 h
    exact .membership set path hset
  | containsOrNull => exact .of_containsOrNull h
  | likeOrNull =>
    obtain ⟨path, value, rfl, rfl, rfl⟩ := likeOrNull_eq_ok_iff.1 h
    exact .likeOrNull path value
  | equalsOrNull =>
    obtain ⟨path, value, rfl, rfl, rfl⟩ := equalsOrNull_eq_ok_iff.1 h
    exact .equalsOrNull path value
  | startsWith => cases h
  | endsWith => cases h

theorem expandPair_of_expands {method : Method} {first second n : Node}
    (h : Expands method first second n) (hmethod : method.pattern? = none ∨ ∃ l, first = .literal l) :
    expandPair method first second = .ok n := by
  cases h with
  | matched pattern path value matches? =>
    rcases hmethod with hmethod | ⟨l, hl⟩
    · rw [hmethod] at matches?
      cases matches?
    · cases hl
  | membership set path hset =>
    exact containsInCollection_eq_ok_iff.2 ⟨set, path, rfl, rfl, hset, rfl⟩
  | equalsOrNull path value => rfl
  | likeOrNull path value => rfl
  | textOrNull path value => rfl
  | setOrNull set path hset inhabited =>
    refine bind_eq_ok_iff.2 ⟨set, expectCollection_eq_ok_iff.2 ⟨rfl, hset⟩, ?_⟩
    rw [inhabited]
    rfl
  | emptySet set path hset empty =>
    refine bind_eq_ok_iff.2 ⟨set, expectCollection_eq_ok_iff.2 ⟨rfl, hset⟩, ?_⟩
    rw [empty]
    rfl

/-- Without a receiver a method of text has nothing to match: only `contains` remains of
them, and asks for membership. -/
theorem expandPair_eq_ok_iff {method : Method} {first second n : Node} :
    expandPair method first second = .ok n
      ↔ Expands method first second n ∧ (method.pattern? = none ∨ ∃ l, first = .literal l) := by
  constructor
  · intro h
    refine ⟨.of_expandPair h, ?_⟩
    cases method with
    | contains =>
      obtain ⟨set, path, hfirst, -⟩ := containsInCollection_eq_ok_iff.1 h
      exact .inr ⟨set, hfirst⟩
    | startsWith => cases h
    | endsWith => cases h
    | _ => exact .inl rfl
  · rintro ⟨h, hmethod⟩
    exact expandPair_of_expands h hmethod

/-- On a receiver every method has its predicate. -/
theorem expandCall_eq_ok_iff {method : Method} {receiver arg n : Node} :
    expandCall method receiver arg = .ok n ↔ Expands method receiver arg n := by
  unfold expandCall
  split
  · next value hmethod =>
    have hcontains : method = .contains := by
      cases method <;> first | rfl | cases hmethod
    subst hcontains
    show expandPair .contains _ _ = .ok n ↔ _
    exact ⟨.of_expandPair, fun h => expandPair_of_expands h (.inr ⟨value, rfl⟩)⟩
  · next pattern hmethod notSet =>
    constructor
    · intro h
      obtain ⟨path, value, rfl, rfl, rfl⟩ := stringMatch_eq_ok_iff.1 h
      exact .matched _ path value hmethod
    · intro h
      cases h with
      | matched pattern' path value hmethod' =>
        rw [hmethod'] at hmethod
        cases hmethod
        exact stringMatch_eq_ok_iff.2 ⟨path, value, rfl, rfl, rfl⟩
      | membership set path hset =>
        cases hmethod
        exact absurd rfl (notSet set rfl)
      | _ => cases hmethod
  · next hmethod =>
    exact ⟨.of_expandPair, fun h => expandPair_of_expands h (.inl hmethod)⟩

section Failures

variable {P : Error → Prop} (hshape : ∀ detail, P (.unsupportedShape detail))

include hshape

theorem fails_combine (op : Operation) (left right : Node) : Fails P (combine op left right) := by
  unfold combine
  split
  · split <;> exact fails_ok _
  · exact fails_error (hshape _)

theorem fails_memberOf (receiver : Node) (name : String) (kind : Kind) :
    Fails P (receiver.memberOf name kind) := by
  cases receiver with
  | member parent => exact fails_ok _
  | literal captured =>
    unfold memberOf memberOfConstant
    dsimp only
    split
    · exact fails_ok _
    · exact fails_error (hshape _)
  | composite form op l r => exact fails_error (hshape _)

theorem fails_expandPair {method : Method} (first second : Node)
    (hmethod : method ≠ .startsWith ∧ method ≠ .endsWith ∨ P (.unsupportedOperation method.name 2)) :
    Fails P (expandPair method first second) := by
  cases method with
  | contains => exact fails_containsInCollection hshape first second
  | containsOrNull => exact fails_containsOrNull hshape first second
  | likeOrNull => exact fails_likeOrNull hshape first second
  | equalsOrNull => exact fails_equalsOrNull hshape first second
  | startsWith => exact fails_error (hmethod.resolve_left fun h => h.1 rfl)
  | endsWith => exact fails_error (hmethod.resolve_left fun h => h.2 rfl)

/-- With a receiver only the shapes of the operands can be wrong. -/
theorem fails_expandCall (method : Method) (receiver arg : Node) :
    Fails P (expandCall method receiver arg) := by
  unfold expandCall
  split
  · exact fails_containsInCollection hshape _ _
  · exact fails_stringMatch hshape _ _ _
  · next hmethod =>
    refine fails_expandPair hshape _ _ (.inl ⟨?_, ?_⟩) <;> rintro rfl <;> cases hmethod

end Failures

end Node
end WhereClause
