import WhereClause.Proofs.Expressible
import WhereClause.Proofs.Rendering

/-!
# The canonical form of predicates

The trees that expressions yield as predicates, and the clauses that such trees have. A
tree is put together from comparisons of a column, checks that a parameter is bound, pairs
of constants, and other such trees (`Node.Canonical`). The clause of each form is said in
`Node.Writes`, with what is known of its parts beside it; what all texts of expressions
have in common is proved by induction over that relation.
-/
namespace WhereClause

open Outcome Expansion

namespace Node

/-- The member paths that stand in a tree, from left to right. -/
def paths : Node → List MemberPath
  | .literal _ => []
  | .member path => [path]
  | .composite _ _ left right => left.paths ++ right.paths

/-- The constants that stand in the text of a tree: those compared with one another. -/
def constants : Node → List Json
  | .composite _ _ (.literal a) (.literal b) => [a.value, b.value]
  | .composite _ _ left right => left.constants ++ right.constants
  | _ => []

/-- A comparison as an expression states it: a column with a value that is not yet forced. -/
structure Comparison (op : Operation) (path : MemberPath) (value : Literal) : Prop where
  operation : op.hasConverse = true ∨ op = .coalesce ∨ op = .like ∨ op = .within
  column : path.nullRef = false
  /-- Only what is matched as text is put into a pattern. -/
  formatter : path.formatter.isSome = true ↔ op = .like
  unforced : value.forced = false
  set : op = .within → value.isNull = true ∨ value.kind.isCollection = true

/-- A set that a comparison is given is null or declared as one. -/
theorem Comparison.isSet {op : Operation} {path : MemberPath} {value : Literal}
    (h : Comparison op path value) (within : op = .within) :
    value.isNull = true ∨ value.kind = .collection := by
  simpa [Kind.isCollection] using h.set within

/-- The predicates of expressions. -/
inductive Canonical : Node → Prop
  | comparison {op : Operation} {path : MemberPath} {value : Literal}
      (h : Comparison op path value) : Canonical (binary op (.member path) (.literal value))
  /-- The value is forced beside a check of its parameter, and a set is never empty there. -/
  | orUnbound {op : Operation} {path : MemberPath} {value : Literal}
      (h : Comparison op path value)
      (inhabited : op = .within → isEmptySet value.value = false) :
      Canonical (orUnbound op path value)
  | constants {op : Operation} {a b : Literal} (hop : op.hasConverse = true ∨ op = .coalesce)
      (ha : a.forced = false) (hb : b.forced = false) :
      Canonical (binary op (.literal a) (.literal b))
  | join {op : Operation} {left right : Node}
      (hop : op.isLogical = true ∨ op.hasConverse = true ∨ op = .coalesce)
      (hleft : left.Canonical) (hright : right.Canonical) : Canonical (binary op left right)

theorem Canonical.isComposite {n : Node} (h : n.Canonical) : n.isComposite = true := by
  cases h <;> rfl

theorem Expressible.forced_of_literal {l : Literal} (h : Expressible (.literal l)) :
    l.forced = false := by
  cases h with
  | value kind value => rfl
  | combined _ _ _ h => cases h.isComposite
  | expanded _ _ h => cases h.isComposite

/-- A path is a column, not put into a pattern. -/
theorem Expressible.column_of_member {path : MemberPath} (h : Expressible (.member path)) :
    path.nullRef = false ∧ path.formatter = none := by
  obtain ⟨kind, name, names, rfl⟩ := h.of_member
  exact ⟨rfl, rfl⟩

/-- A comparison, an inequality or a coalescence of a column, as operators make it. -/
theorem comparison_of_operator {op : Operation} {path : MemberPath} {value : Literal}
    (hop : op.hasConverse = true ∨ op = .coalesce) (hpath : Expressible (.member path))
    (hvalue : Expressible (.literal value)) : Comparison op path value where
  operation := hop.imp_right .inl
  column := hpath.column_of_member.1
  formatter := by
    rw [hpath.column_of_member.2]
    rcases hop with hop | rfl
    · constructor
      · intro h
        cases h
      · rintro rfl
        cases hop
    · simp
  unforced := hvalue.forced_of_literal
  set := by
    rcases hop with hop | rfl
    · rintro rfl
      cases hop
    · intro h
      cases h

/-- A match of a column with a pattern. -/
theorem comparison_of_pattern (pattern : Pattern) {path : MemberPath} {value : Literal}
    (hpath : Expressible (.member path)) (hvalue : Expressible (.literal value)) :
    Comparison .like (path.format pattern) value where
  operation := .inr (.inr (.inl rfl))
  column := hpath.column_of_member.1
  formatter := by simp [MemberPath.format]
  unforced := hvalue.forced_of_literal
  set h := by cases h

/-- A membership of a column in a set. -/
theorem comparison_of_set {path : MemberPath} {set : Literal}
    (hpath : Expressible (.member path)) (hset : Expressible (.literal set))
    (isSet : set.isNull = true ∨ set.kind.isCollection = true) : Comparison .within path set where
  operation := .inr (.inr (.inr rfl))
  column := hpath.column_of_member.1
  formatter := by simp [hpath.column_of_member.2]
  unforced := hset.forced_of_literal
  set _ := isSet

theorem isLogical_or_of_operation {operator : BinaryOperator} {op : Operation}
    (hop : operator.operation = .ok op) :
    op.isLogical = true ∨ op.hasConverse = true ∨ op = .coalesce := by
  cases operator <;> cases hop <;> simp [Operation.isLogical, Operation.hasConverse]

theorem Combines.canonical {operator : BinaryOperator} {op : Operation} {left right n : Node}
    (h : Combines op left right n) (hop : operator.operation = .ok op)
    (hleft : left.Expressible) (hright : right.Expressible)
    (ihleft : left.isComposite = true → left.Canonical)
    (ihright : right.isComposite = true → right.Canonical) : n.Canonical := by
  have kinds := isLogical_or_of_operation hop
  cases h with
  | join compositeLeft compositeRight =>
    exact .join kinds (ihleft compositeLeft) (ihright compositeRight)
  | comparison path value hlogical =>
    have compares := kinds.resolve_left (by simp [hlogical])
    exact .comparison (comparison_of_operator compares hleft hright)
  | constants a b hlogical =>
    have compares := kinds.resolve_left (by simp [hlogical])
    exact .constants compares hleft.forced_of_literal hright.forced_of_literal
  | converse value path hconverse =>
    have compares : op.converse.hasConverse = true :=
      (Operation.hasConverse_converse op).trans hconverse
    exact .comparison (comparison_of_operator (.inl compares) hright hleft)

theorem Expands.canonical {method : Method} {first second n : Node}
    (h : Expands method first second n) (hfirst : first.Expressible)
    (hsecond : second.Expressible) : n.Canonical := by
  cases h with
  | matched pattern path value hmethod =>
    exact .comparison (comparison_of_pattern pattern hfirst hsecond)
  | membership set path hset => exact .comparison (comparison_of_set hsecond hfirst hset)
  | equalsOrNull path value =>
    exact .orUnbound (comparison_of_operator (.inl rfl) hfirst hsecond) (fun h => by cases h)
  | likeOrNull path value =>
    exact .orUnbound (comparison_of_pattern .contains hfirst hsecond) (fun h => by cases h)
  | textOrNull path value =>
    exact .orUnbound (comparison_of_pattern .contains hfirst hsecond) (fun h => by cases h)
  | setOrNull set path hset inhabited =>
    exact .orUnbound (comparison_of_set hsecond hfirst hset) (fun _ => inhabited)
  | emptySet set path hset empty => exact .constants (.inl rfl) rfl rfl

theorem Expressible.canonical {n : Node} (h : n.Expressible) (composite : n.isComposite = true) :
    n.Canonical := by
  induction h with
  | value kind value => cases composite
  | path kind name names => cases composite
  | combined hop hleft hright h ihleft ihright => exact h.canonical hop hleft hright ihleft ihright
  | expanded hfirst hsecond h => exact h.canonical hfirst hsecond

end Node

theorem Expr.canonical_of_toPredicate {e : Expr} {n : Node} (h : e.toPredicate.result = .ok n) :
    n.Canonical := by
  obtain ⟨hn, composite⟩ := result_toPredicate_eq_ok_iff.1 h
  exact (toNode_expressible hn).canonical composite

namespace Node

/-- The clause of a canonical tree under a mapping. -/
inductive Writes (m : Mapping) : Node → Clause → Prop
  | tested {op : Operation} {path : MemberPath} {value : Literal} {identifier : String}
      {negated : Bool} (h : Comparison op path value) (hvalue : value.isTested = true)
      (hidentifier : m.identifier? path.dotted = some identifier)
      (hsense : Clause.nullSense op = .ok negated) :
      Writes m (binary op (.member path) (.literal value)) (.nullTest (.column identifier) negated)
  | bound {op : Operation} {path : MemberPath} {value : Literal} {identifier token : String}
      (h : Comparison op path value) (hvalue : value.isTested = false)
      (hidentifier : m.identifier? path.dotted = some identifier) (htoken : op.token = .ok token) :
      Writes m (binary op (.member path) (.literal value))
        (.bound (.column identifier) token path.formatter
          (parameterName path.segments value.kind) value.value)
  /-- The check names the parameter that was bound beside it. -/
  | orUnbound {op : Operation} {path : MemberPath} {value : Literal} {identifier token : String}
      (h : Comparison op path value) (inhabited : op = .within → isEmptySet value.value = false)
      (hidentifier : m.identifier? path.dotted = some identifier) (htoken : op.token = .ok token) :
      Writes m (orUnbound op path value)
        (.join
          (.bound (.column identifier) token path.formatter
            (parameterName path.segments value.kind) value.value)
          "OR" (.nullTest (.parameter (parameterName path.segments value.kind)) false))
  | constants {op : Operation} {a b : Literal} {token : String} (hop : op.hasConverse = true)
      (htoken : op.token = .ok token) :
      Writes m (binary op (.literal a) (.literal b)) (.constants a.value token b.value)
  | join {op : Operation} {left right : Node} {a b : Clause} {token : String}
      (hop : op.isLogical = true ∨ op.hasConverse = true) (htoken : op.token = .ok token)
      (hleft : left.Writes m a) (hright : right.Writes m b) :
      Writes m (binary op left right) (.join a token b)

end Node

section Writing

variable {m : Mapping} {op : Operation} {path : MemberPath} {value : Literal} {c : Clause}

theorem MemberPath.StandsFor.exists_column {name : String} {left : Operand}
    (h : path.StandsFor m name left) (hpath : path.nullRef = false) :
    ∃ identifier, m.identifier? path.dotted = some identifier ∧ left = .column identifier := by
  cases h with
  | reference hreference => simp [hpath] at hreference
  | column _ hidentifier => exact ⟨_, hidentifier, rfl⟩

namespace Node

theorem Comparison.writes (h : Comparison op path value)
    (hc : (binary op (.member path) (.literal value)).Renders m c) :
    (binary op (.member path) (.literal value)).Writes m c := by
  cases hc with
  | join _ _ hleft _ => cases hleft
  | nullTest _ htested hleft hsense =>
    obtain ⟨identifier, hidentifier, rfl⟩ := hleft.exists_column h.column
    exact .tested h htested hidentifier hsense
  | bound _ hbound htoken hleft =>
    obtain ⟨identifier, hidentifier, rfl⟩ := hleft.exists_column h.column
    exact .bound h hbound hidentifier htoken

theorem writes_orUnbound (h : Comparison op path value)
    (inhabited : op = .within → isEmptySet value.value = false)
    (hc : (orUnbound op path value).Renders m c) : (orUnbound op path value).Writes m c := by
  cases hc with
  | join _ hor hcomparison hcheck =>
    cases hor
    cases hcomparison with
    | join _ _ hleft _ => cases hleft
    | nullTest _ htested _ _ => simp [Literal.isTested, Literal.force] at htested
    | bound _ _ htoken hleft =>
      obtain ⟨identifier, hidentifier, rfl⟩ := hleft.exists_column h.column
      cases hcheck with
      | join _ _ hleft _ => cases hleft
      | bound _ hbound _ _ => cases hbound
      | nullTest _ _ hreference hsense =>
        cases hsense
        cases hreference with
        | column hcolumn _ => cases hcolumn
        | reference _ => exact .orUnbound h inhabited hidentifier htoken

/-- An operation that compares or coalesces compares, if it has a token. -/
theorem hasConverse_of_token {token : String} (htoken : op.token = .ok token)
    (hop : op.hasConverse = true ∨ op = .coalesce) : op.hasConverse = true := by
  rcases hop with hop | rfl
  · exact hop
  · cases htoken

/-- A canonical tree has no other clause than the one of its form. -/
theorem Canonical.writes {n : Node} (h : n.Canonical) (hc : n.Renders m c) : n.Writes m c := by
  induction h generalizing c with
  | comparison h => exact h.writes hc
  | orUnbound h inhabited => exact writes_orUnbound h inhabited hc
  | constants hop ha hb =>
    cases hc with
    | join _ _ hleft _ => cases hleft
    | constants _ _ _ htoken => exact .constants (hasConverse_of_token htoken hop) htoken
  | join hop hleft hright ihleft ihright =>
    cases hc with
    | join _ htoken hrendersLeft hrendersRight =>
      have joins := hop.imp_right (hasConverse_of_token htoken)
      exact .join joins htoken (ihleft hrendersLeft) (ihright hrendersRight)
    | constants => cases hleft.isComposite
    | nullTest => cases hleft.isComposite
    | bound => cases hleft.isComposite

theorem Writes.isComposite {n : Node} (h : n.Writes m c) : n.isComposite = true := by
  cases h <;> rfl

end Node

/-- What an expression compiles to is what its tree writes. -/
theorem writes_of_compile {e : Expr} {p : Predicate} (h : (compile m e).result = .ok p) :
    ∃ n c, e.toPredicate.result = .ok n ∧ n.Writes m c ∧ c.predicate = p := by
  obtain ⟨n, c, hn, hc, hp⟩ := result_compile_eq_ok_iff.1 h
  exact ⟨n, c, hn, (Expr.canonical_of_toPredicate hn).writes hc, hp⟩

end Writing
end WhereClause
