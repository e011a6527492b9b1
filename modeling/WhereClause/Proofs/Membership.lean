import WhereClause.Proofs.Chains
import WhereClause.Proofs.Spelling

/-!
# Sets

Which sets a text compares with. A comparison with a set is brought into a tree by a call only
(`Expr.hasCall_of_toNode`), and its clause binds what the first operand of the call stands
for, which is never null. It is an array, unless that operand is declared to be a collection: a
declaration is believed, whatever the value is.
-/
namespace WhereClause

open Outcome

/-- A value that counts as a collection is an array, or was declared to be one. -/
theorem Kind.orOf_eq_collection {declared : Kind} {value : Json}
    (h : declared.orOf value = .collection) :
    declared = .collection ∨ ∃ items, value = .array items := by
  cases declared with
  | any =>
    cases value with
    | array items => exact .inr ⟨items, rfl⟩
    | _ => cases h
  | collection => exact .inl rfl
  | _ => cases h

theorem Operation.eq_within_of_token {op : Operation} (h : op.token = .ok "IN") : op = .within := by
  cases op <;> first | rfl | simp [token, token?] at h

namespace Node

/-- The paths and the sets that a tree compares them with, from left to right. -/
def memberships : Node → List (MemberPath × Literal)
  | .composite _ op (.member path) (.literal set) => if op = .within then [(path, set)] else []
  | .composite _ _ left right => left.memberships ++ right.memberships
  | _ => []

variable {left right n : Node} {path : MemberPath} {set : Literal}

theorem memberships_join {op : Operation} (hleft : left.isComposite = true) :
    (binary op left right).memberships = left.memberships ++ right.memberships := by
  cases left with
  | composite form op' l r => rw [binary, memberships]; simp
  | _ => cases hleft

theorem memberships_comparison {op : Operation} :
    (binary op (.member path) (.literal set)).memberships
      = if op = .within then [(path, set)] else [] := rfl

theorem memberships_orUnbound {op : Operation} :
    (Expansion.orUnbound op path set).memberships
      = if op = .within then [(path, set.force)] else [] := by
  rw [Expansion.orUnbound, or, memberships_join rfl, memberships_comparison]
  exact List.append_nil _

/-- No operator compares with a set. -/
theorem Combines.mem_memberships {operator : BinaryOperator} {op : Operation}
    (h : Combines op left right n) (hop : operator.operation = .ok op)
    (hset : (path, set) ∈ n.memberships) :
    (path, set) ∈ left.memberships ∨ (path, set) ∈ right.memberships := by
  obtain ⟨-, notWithin, -⟩ := BinaryOperator.operation_ne hop
  cases h with
  | join hleft hright =>
    rw [memberships_join hleft] at hset
    exact List.mem_append.1 hset
  | comparison column value hlogical =>
    rw [memberships_comparison, if_neg notWithin] at hset
    cases hset
  | constants a b hlogical => cases hset
  | converse value column hconverse =>
    have turned : op.converse ≠ .within := by cases op <;> first | decide | cases hconverse
    rw [memberships_comparison, if_neg turned] at hset
    cases hset

/-- The call that compares a path with a set: the second operand is the path, and the first is
the set but for whether it is forced. -/
structure Tests (method : Method) (first second : Node) (path : MemberPath) (set : Literal) :
    Prop where
  isMembership : method = .contains ∨ method = .containsOrNull
  item : second = .member path
  collection : ∃ l, first = .literal l ∧ l.value = set.value ∧ l.kind = set.kind
  inhabited : method = .containsOrNull → Expansion.isEmptySet set.value = false

theorem Expands.tests {method : Method} (h : Expands method left right n)
    (hset : (path, set) ∈ n.memberships) : Tests method left right path set := by
  cases h with
  | matched pattern column value hpattern => cases hset
  | membership given column isSet =>
    obtain ⟨rfl, rfl⟩ := Prod.mk.inj (List.mem_singleton.1 hset)
    refine ⟨.inl rfl, rfl, ⟨set, rfl, rfl, rfl⟩, fun h => ?_⟩
    cases h
  | equalsOrNull column value =>
    rw [memberships_orUnbound] at hset
    cases hset
  | likeOrNull column value =>
    rw [memberships_orUnbound] at hset
    cases hset
  | textOrNull column value =>
    rw [memberships_orUnbound] at hset
    cases hset
  | setOrNull given column isSet inhabited =>
    rw [memberships_orUnbound] at hset
    obtain ⟨rfl, rfl⟩ := Prod.mk.inj (List.mem_singleton.1 hset)
    exact ⟨.inr rfl, rfl, ⟨given, rfl, rfl, rfl⟩, fun _ => inhabited⟩
  | emptySet given column isSet empty => cases hset

end Node

namespace Expr

/-- A call with its two operands, on the first of them or on both. -/
inductive Calls (method : Method) (first second : Expr) : Expr → Prop
  | onFirst : Calls method first second (.call method (some first) [second])
  | onBoth : Calls method first second (.call method none [first, second])

/-- There is a call in the expression whose predicate has the property. -/
def HasCall (Q : Node → Prop) (e : Expr) : Prop :=
  ∃ part method first second a b n, Part part e ∧ Calls method first second part ∧
    first.toNode.result = .ok a ∧ second.toNode.result = .ok b ∧
    Node.Expands method a b n ∧ Q n

theorem HasCall.of_part {Q : Node → Prop} {e whole : Expr} (h : e.HasCall Q)
    (around : ∀ {part : Expr}, Part part e → Part part whole) : whole.HasCall Q := by
  obtain ⟨part, method, first, second, a, b, n, within, call⟩ := h
  exact ⟨part, method, first, second, a, b, n, around within, call⟩

/-- What no leaf of a tree has and no operator adds was brought in by a call. -/
theorem hasCall_of_toNode {Q : Node → Prop}
    (leaf : ∀ {n : Node}, n.isComposite = false → ¬ Q n)
    (combined : ∀ {operator : BinaryOperator} {op : Operation} {l r n : Node},
      operator.operation = .ok op → Node.Combines op l r n → Q n → Q l ∨ Q r)
    {e : Expr} {n : Node} (h : e.toNode.result = .ok n) (hn : Q n) : e.HasCall Q := by
  induction e using toNode.induct generalizing n with
  | case1 value kind =>
    cases h
    exact absurd hn (leaf rfl)
  | case2 => cases h
  | case3 body ih => exact (ih h hn).of_part .body
  | case4 operand ih => exact (ih h hn).of_part .operand
  | case5 receiver name kind hsubject =>
    rw [toNode, if_pos hsubject] at h
    cases h
    exact absurd hn (leaf rfl)
  | case6 receiver name kind hsubject ih =>
    -- The member of a path or of a literal is a leaf itself.
    obtain ⟨node, hnode, member⟩ := (result_toNode_member_eq_ok_iff hsubject).1 h
    cases member <;> exact absurd hn (leaf rfl)
  | case7 operator left right ihleft ihright =>
    obtain ⟨op, l, r, hop, hl, hr, joined⟩ := result_toNode_binary_eq_ok_iff.1 h
    rcases combined hop joined hn with hQ | hQ
    · exact (ihleft hl hQ).of_part (.left operator right)
    · exact (ihright hr hQ).of_part (.right operator left)
  | case8 method receiver arg =>
    obtain ⟨a, b, ha, hb, expanded⟩ := result_toNode_call_eq_ok_iff.1 h
    exact ⟨_, method, receiver, arg, a, b, n, .self _, .onFirst, ha, hb, expanded, hn⟩
  | case9 method first second =>
    obtain ⟨a, b, ha, hb, expanded, -⟩ := result_toNode_pair_eq_ok_iff.1 h
    exact ⟨_, method, first, second, a, b, n, .self _, .onBoth, ha, hb, expanded, hn⟩
  | case10 method receiver args notCall notPair =>
    rw [result_toNode_of_arity notCall notPair] at h
    cases h

/-- The kind that an expression declares for its value. -/
def declared : Expr → Kind
  | .constant _ kind | .member _ _ kind => kind
  | .lambda body => body.declared
  | .convert operand => operand.declared
  | .subject | .binary _ _ _ | .call _ _ _ => .any

theorem HasSort.kind_eq {e : Expr} {value : Json} {kind : Kind}
    (h : e.HasSort (.literal value kind)) : kind = e.declared.orOf value := by
  generalize hs : OperandSort.literal value kind = s at h
  induction h with
  | constant value kind =>
    cases hs
    rfl
  | lambda h ih => exact ih hs
  | convert h ih => exact ih hs
  | ofObject name kind h =>
    cases hs
    rfl
  | _ => cases hs

/-- Somewhere in the expression a method is called that compares the path along some members
with the value that a collection stands for. -/
structure TestsMembership (e : Expr) (method : Method) (collection : Expr) (names : List String)
    (value : Json) : Prop where
  call : ∃ part item, Part part e ∧ Calls method collection item part ∧ item.Chain names
  isMembership : method = .contains ∨ method = .containsOrNull
  value : ∃ kind, collection.HasSort (.literal value kind)

/-- The path and the set of a comparison in a tree are the operands of a call. -/
theorem exists_testsMembership {e : Expr} {n : Node} {path : MemberPath} {set : Literal}
    (h : e.toNode.result = .ok n) (hset : (path, set) ∈ n.memberships) :
    ∃ method collection, e.TestsMembership method collection path.segments set.value ∧
      set.kind = collection.declared.orOf set.value ∧
      (method = .containsOrNull → Expansion.isEmptySet set.value = false) := by
  have leaf {n : Node} (hn : n.isComposite = false) : (path, set) ∉ n.memberships := by
    intro hmem
    cases n with
    | composite form op l r => cases hn
    | _ => cases hmem
  have hasCall : e.HasCall fun n => (path, set) ∈ n.memberships :=
    hasCall_of_toNode leaf (fun hop joined => joined.mem_memberships hop) h hset
  obtain ⟨part, method, collection, item, a, b, n', within, calls, ha, hb, expanded, hset⟩ :=
    hasCall
  obtain ⟨isMembership, rfl, ⟨l, rfl, hvalue, hkind⟩, inhabited⟩ := expanded.tests hset
  have sort : collection.HasSort (.literal set.value set.kind) := by
    rw [← hvalue, ← hkind]
    exact hasSort_of_toNode ha
  exact ⟨method, collection,
    ⟨⟨part, item, within, calls, chain_of_toNode hb⟩, isMembership, _, sort⟩, sort.kind_eq,
    inhabited⟩

end Expr

/-- The token between the two sides of a group. -/
def Clause.token? : Clause → Option String
  | join _ token _ | constants _ token _ | bound _ token _ _ _ => some token
  | nullTest _ _ => none

/-- What a part of a clause binds, the clause binds. -/
theorem Clause.mem_parameters_of_mem_groups {k c : Clause} (h : k ∈ c.groups) {q : Parameter}
    (hq : q ∈ k.parameters) : q ∈ c.parameters := by
  induction c with
  | join left token right ihleft ihright =>
    rcases List.mem_cons.1 h with rfl | h
    · exact hq
    · exact List.mem_append.2 ((List.mem_append.1 h).imp ihleft ihright)
  | _ =>
    obtain rfl := List.mem_singleton.1 h
    exact hq

/-- The one form of a group with `IN`: a column compared with a value that is no null, under a
name with the ending of a set. -/
structure Clause.ComparesSet (m : Mapping) (k : Clause) (names : List String) (value : Json) :
    Prop where
  column : ∃ identifier, m.identifier? (".".intercalate names) = some identifier ∧
    k = .bound (.column identifier) "IN" none (String.join names ++ "Collection") value
  notNull : value ≠ .null

namespace Node

variable {m : Mapping} {n : Node} {k c : Clause}

theorem Comparison.kind_of_within {path : MemberPath} {set : Literal}
    (h : Comparison .within path set) (notNull : set.value ≠ .null) : set.kind = .collection :=
  (h.isSet rfl).resolve_left fun hnull => notNull ((Json.isNull_iff set.value).1 hnull)

theorem Comparison.comparesSet {path : MemberPath} {set : Literal} {identifier : String}
    (h : Comparison .within path set) (notNull : set.value ≠ .null)
    (hidentifier : m.identifier? path.dotted = some identifier) :
    (Clause.bound (.column identifier) "IN" path.formatter (parameterName path.segments set.kind)
      set.value).ComparesSet m path.segments set.value where
  column := by
    have noPattern : path.formatter = none := by
      have notMatched : ¬ path.formatter.isSome = true := fun hsome =>
        absurd (h.formatter.1 hsome) (by decide)
      simpa using notMatched
    refine ⟨identifier, hidentifier, ?_⟩
    rw [noPattern, h.kind_of_within notNull]
    rfl
  notNull := notNull

theorem Comparison.notNull_of_bound {op : Operation} {path : MemberPath} {value : Literal}
    (h : Comparison op path value) (hbound : value.isTested = false) : value.value ≠ .null := by
  intro hnull
  have tested : value.isTested = true := by
    rw [Literal.isTested, Literal.isNull, hnull, h.unforced]
    rfl
  rw [hbound] at tested
  cases tested

/-- A group with `IN` compares a path of the tree with its set. -/
theorem Writes.comparesSet (h : n.Writes m c) (hk : k ∈ c.groups) (htoken : k.token? = some "IN") :
    ∃ path set, (path, set) ∈ n.memberships ∧ set.kind = .collection ∧
      k.ComparesSet m path.segments set.value := by
  induction h with
  | tested h hvalue hidentifier hsense =>
    obtain rfl := List.mem_singleton.1 hk
    cases htoken
  | @bound op path value identifier token h hvalue hidentifier hop =>
    obtain rfl := List.mem_singleton.1 hk
    cases htoken
    obtain rfl := Operation.eq_within_of_token hop
    have notNull := h.notNull_of_bound hvalue
    exact ⟨path, value, List.mem_singleton_self _, h.kind_of_within notNull,
      h.comparesSet notNull hidentifier⟩
  | @orUnbound op path value identifier token h inhabited hidentifier hop =>
    -- The whole is joined by `OR`, and the check beside the comparison has no token.
    rcases List.mem_cons.1 hk with rfl | hk
    · exact absurd (Option.some.inj htoken) (by decide)
    rcases List.mem_cons.1 hk with rfl | hk
    · cases htoken
      obtain rfl := Operation.eq_within_of_token hop
      have notNull := Expansion.ne_null_of_inhabited (inhabited rfl)
      exact ⟨path, value.force, List.mem_singleton_self _, h.kind_of_within notNull,
        h.comparesSet notNull hidentifier⟩
    · obtain rfl := List.mem_singleton.1 hk
      cases htoken
  | constants hconverse hop =>
    obtain rfl := List.mem_singleton.1 hk
    cases htoken
    obtain rfl := Operation.eq_within_of_token hop
    cases hconverse
  | @join op left right a b token hjoins hop hleft hright ihleft ihright =>
    rcases List.mem_cons.1 hk with rfl | hk
    · cases htoken
      obtain rfl := Operation.eq_within_of_token hop
      rcases hjoins with h | h <;> cases h
    rw [memberships_join hleft.isComposite]
    rcases List.mem_append.1 hk with hk | hk
    · obtain ⟨path, set, hset, rest⟩ := ihleft hk
      exact ⟨path, set, List.mem_append_left _ hset, rest⟩
    · obtain ⟨path, set, hset, rest⟩ := ihright hk
      exact ⟨path, set, List.mem_append_right _ hset, rest⟩

end Node

/-- In what an expression compiles to, every group with `IN` compares a column with a value bound
under the members of its path, put together and with the ending of a set. A call of `Contains` or
`ContainsOrNull` in the expression asks for it, and the value is what the collection of that call
stands for. It is never null, it is an array unless that collection is declared to be one, and
`ContainsOrNull` never compares with an empty array. -/
theorem compile_sets {m : Mapping} {e : Expr} {p : Predicate}
    (h : (compile m e).result = .ok p) :
    ∃ n c, e.toPredicate.result = .ok n ∧ (Clause.ofNode m n).result = .ok c ∧ c.predicate = p ∧
      ∀ k ∈ c.groups, k.token? = some "IN" → k.text.toList <:+: p.text.toList ∧
        ∃ method collection names value, e.TestsMembership method collection names value ∧
          k.ComparesSet m names value ∧
          ⟨String.join names ++ "Collection", value⟩ ∈ p.parameters ∧
          (collection.declared = .collection ∨ ∃ items, value = .array items) ∧
          (method = .containsOrNull → value ≠ .array []) := by
  obtain ⟨n, c, hn, hc, rfl⟩ := result_compile_eq_ok_iff.1 h
  refine ⟨n, c, hn, Clause.result_ofNode_eq_ok_iff.2 hc, rfl, fun k hk htoken =>
    ⟨Clause.text_infix_of_mem_groups hk, ?_⟩⟩
  have writes := (Expr.canonical_of_toPredicate hn).writes hc
  obtain ⟨path, set, hset, hkind, compares⟩ := writes.comparesSet hk htoken
  obtain ⟨hnode, -⟩ := Expr.result_toPredicate_eq_ok_iff.1 hn
  obtain ⟨method, collection, tests, declared, inhabited⟩ :=
    Expr.exists_testsMembership hnode hset
  have bound : ⟨String.join path.segments ++ "Collection", set.value⟩ ∈ c.parameters := by
    obtain ⟨identifier, -, rfl⟩ := compares.column
    exact Clause.mem_parameters_of_mem_groups hk (List.mem_singleton_self _)
  refine ⟨method, collection, path.segments, set.value, tests, compares, bound,
    Kind.orOf_eq_collection (declared.symm.trans hkind), fun hmethod => ?_⟩
  exact Expansion.ne_empty_of_inhabited (inhabited hmethod)

/-- Whether a key is in one set, if that set is given, and in another that is a captured field. -/
def idInBoth : Expr :=
  .and (.containsOrNull (.ofValue (.array [.int 1])) (.field "Id"))
    (.contains (.get (.ofValue (.object [("ids", .array [.int 2])])) "ids") (.field "Id"))

/-- What `idInBoth` compiles to. -/
def idInBothPredicate : Predicate where
  text := "(((m.id IN @IdCollection) OR (@IdCollection IS NULL)) AND (m.id IN @IdCollection))"
  parameters := [⟨"IdCollection", .array [.int 1]⟩, ⟨"IdCollection", .array [.int 2]⟩]

theorem idInBoth_sets :
    (compile (.ofModel "m" ["Id"]) idInBoth).result = .ok idInBothPredicate ∧
    ∃ c : Clause, c.predicate = idInBothPredicate ∧
      (c.groups.filter (·.token? == some "IN")).length = 2 ∧
      ∀ k ∈ c.groups, k.token? = some "IN" → k.text.toList <:+: idInBothPredicate.text.toList ∧
        ∃ method collection names value, idInBoth.TestsMembership method collection names value ∧
          k.ComparesSet (.ofModel "m" ["Id"]) names value ∧
          (collection.declared = .collection ∨ ∃ items, value = .array items) ∧
          (method = .containsOrNull → value ≠ .array []) := by
  have compiled : (compile (.ofModel "m" ["Id"]) idInBoth).result = .ok idInBothPredicate := rfl
  obtain ⟨n, c, hn, hc, hp, groups⟩ := compile_sets compiled
  have two : (c.groups.filter (·.token? == some "IN")).length = 2 := by
    cases hn
    cases hc
    rfl
  refine ⟨compiled, c, hp, two, fun k hk htoken => ?_⟩
  obtain ⟨within, method, collection, names, value, tests, compares, -, usable⟩ :=
    groups k hk htoken
  exact ⟨within, method, collection, names, value, tests, compares, usable⟩

/-- A key in a number that is declared to be a collection. -/
def idInFive : Expr :=
  .contains (.typed (.ofValue (.int 5)) .collection) (.field "Id")

/-- The declaration is believed, and the number is bound for the set. -/
theorem idInFive_not_array :
    (compile (.ofModel "m" ["Id"]) idInFive).result
      = .ok ⟨"(m.id IN @IdCollection)", [⟨"IdCollection", .int 5⟩]⟩ ∧
    ∀ items, Json.int 5 ≠ .array items := by
  refine ⟨rfl, fun items h => ?_⟩
  cases h

end WhereClause
