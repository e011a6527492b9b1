import WhereClause.Predicate.OfExpr
import WhereClause.Proofs.Outcome

/-!
# The clauses of trees

Which clause a tree has under a mapping, said once as a relation: `Renders`, with one case
for each form of clause. `Clause.ofNode` yields exactly the related clause
(`Clause.result_ofNode_eq_ok_iff`), so what all texts have in common is proved by
induction over the relation.
-/
namespace WhereClause

open Outcome

/-- The identifier that the policy of a mapping allows for a path. -/
def Mapping.identifier? (m : Mapping) (path : String) : Option String :=
  match m.lookup? path with
  | some identifier => some identifier
  | none =>
    match m.policy with
    | .fallback => some path
    | .reject => none

theorem Mapping.result_resolve_eq_ok_iff {m : Mapping} {path identifier : String} :
    (m.resolve path).result = .ok identifier ↔ m.identifier? path = some identifier := by
  unfold resolve identifier?
  cases m.lookup? path with
  | some registered => simp
  | none =>
    cases m.policy with
    | fallback =>
      show (Except.ok path : Except Error String) = .ok identifier ↔ some path = some identifier
      simp
    | reject => simp

/-- An identifier is registered for its path, or is the path itself. -/
theorem Mapping.mem_entries_or_eq_of_identifier? {m : Mapping} {path identifier : String}
    (h : m.identifier? path = some identifier) :
    (path, identifier) ∈ m.entries ∨ identifier = path := by
  unfold identifier? at h
  split at h
  · next registered hlookup =>
    cases h
    exact .inl (Keyed.mem_of_find? hlookup)
  · split at h
    · cases h
      exact .inr rfl
    · cases h

/-- The literal is compared by a test for null and not bound. -/
def Literal.isTested (l : Literal) : Bool := l.isNull && !l.forced

/-- What a member path stands for on the left of a clause. -/
inductive MemberPath.StandsFor (m : Mapping) (path : MemberPath) (name : String) : Operand → Prop
  | reference (hpath : path.nullRef = true) : StandsFor m path name (.parameter name)
  | column {identifier : String} (hpath : path.nullRef = false)
      (hidentifier : m.identifier? path.dotted = some identifier) :
      StandsFor m path name (.column identifier)

/-- The clause of a tree under a mapping. -/
inductive Node.Renders (m : Mapping) : Node → Clause → Prop
  | join (form : Form) {op : Operation} {left right : Node} {a b : Clause} {token : String}
      (htoken : op.token = .ok token) (hleft : left.Renders m a) (hright : right.Renders m b) :
      Renders m (.composite form op left right) (.join a token b)
  | constants (form : Form) {op : Operation} (a b : Literal) {token : String}
      (htoken : op.token = .ok token) :
      Renders m (.composite form op (.literal a) (.literal b)) (.constants a.value token b.value)
  | nullTest (form : Form) {op : Operation} {path : MemberPath} {value : Literal}
      {left : Operand} {negated : Bool} (htested : value.isTested = true)
      (hleft : path.StandsFor m (parameterName path.segments value.kind) left)
      (hop : Clause.nullSense op = .ok negated) :
      Renders m (.composite form op (.member path) (.literal value)) (.nullTest left negated)
  | bound (form : Form) {op : Operation} {path : MemberPath} {value : Literal} {left : Operand}
      {token : String} (hbound : value.isTested = false) (htoken : op.token = .ok token)
      (hleft : path.StandsFor m (parameterName path.segments value.kind) left) :
      Renders m (.composite form op (.member path) (.literal value))
        (.bound left token path.formatter (parameterName path.segments value.kind) value.value)

namespace Clause

theorem result_operand_eq_ok_iff {m : Mapping} {path : MemberPath} {name : String}
    {left : Operand} : (operand m path name).result = .ok left ↔ path.StandsFor m name left := by
  unfold operand
  cases hpath : path.nullRef with
  | true =>
    constructor
    · intro h
      cases h
      exact .reference hpath
    · intro h
      cases h with
      | reference => rfl
      | column hcolumn => simp [hpath] at hcolumn
  | false =>
    simp only [Bool.false_eq_true, if_false, Traced.result_bind, bind_eq_ok_iff,
      Mapping.result_resolve_eq_ok_iff]
    constructor
    · rintro ⟨identifier, hidentifier, h⟩
      cases h
      exact .column hpath hidentifier
    · intro h
      cases h with
      | reference hreference => simp [hpath] at hreference
      | column _ hidentifier => exact ⟨_, hidentifier, rfl⟩

/-- An operation that can be asked of null has a token. -/
theorem token_of_nullSense {op : Operation} {negated : Bool} (h : nullSense op = .ok negated) :
    ∃ token, op.token = .ok token := by
  cases op <;> first | exact ⟨_, rfl⟩ | cases h

theorem result_ofComparison_eq_ok_iff {m : Mapping} {form : Form} {op : Operation}
    {path : MemberPath} {value : Literal} {c : Clause} :
    (ofComparison m op path value).result = .ok c
      ↔ Node.Renders m (.composite form op (.member path) (.literal value)) c := by
  simp only [ofComparison, Traced.result_bind, Traced.result_ofResult, bind_eq_ok_iff,
    result_operand_eq_ok_iff]
  constructor
  · rintro ⟨token, htoken, left, hleft, h⟩
    split at h
    · next htested =>
      simp only [Traced.result_bind, Traced.result_ofResult, bind_eq_ok_iff] at h
      obtain ⟨negated, hop, h⟩ := h
      cases h
      exact .nullTest form htested hleft hop
    · next hbound =>
      cases h
      exact .bound form (Bool.not_eq_true _ ▸ hbound) htoken hleft
  · intro h
    cases h with
    | join _ _ hleft _ => cases hleft
    | nullTest _ htested hleft hop =>
      obtain ⟨token, htoken⟩ := token_of_nullSense hop
      refine ⟨token, htoken, _, hleft, ?_⟩
      rw [Literal.isTested] at htested
      rw [if_pos htested]
      simp only [Traced.result_bind, Traced.result_ofResult, bind_eq_ok_iff]
      exact ⟨_, hop, rfl⟩
    | bound _ hbound htoken hleft =>
      refine ⟨_, htoken, _, hleft, ?_⟩
      rw [Literal.isTested] at hbound
      rw [hbound]
      rfl

/-- Two composites are written one after the other around the token. -/
theorem ofNode_join {m : Mapping} {form : Form} {op : Operation} {left right : Node}
    (hleft : left.isComposite = true) (hright : right.isComposite = true) :
    ofNode m (.composite form op left right) = do
      let token ← Traced.ofResult op.token
      let leftClause ← ofNode m left
      let rightClause ← ofNode m right
      return .join leftClause token rightClause := by
  cases left with
  | composite form' op' l r =>
    cases right with
    | composite form'' op'' l' r' => rw [ofNode]
    | _ => cases hright
  | _ => cases hleft

theorem result_ofNode_join {m : Mapping} {form : Form} {op : Operation} {left right : Node}
    (hleft : left.isComposite = true) (hright : right.isComposite = true) :
    (ofNode m (.composite form op left right)).result
      = op.token >>= fun token => (ofNode m left).result >>= fun a =>
          (ofNode m right).result >>= fun b => .ok (.join a token b) := by
  rw [ofNode_join hleft hright]
  simp only [Traced.result_bind, Traced.result_ofResult]
  rfl

theorem result_ofNode_constants {m : Mapping} {form : Form} {op : Operation} {a b : Literal} :
    (ofNode m (.composite form op (.literal a) (.literal b))).result
      = op.token >>= fun token => .ok (.constants a.value token b.value) := by
  simp only [ofNode, Traced.result_bind, Traced.result_ofResult]
  rfl

theorem token_of_renders {m : Mapping} {form : Form} {op : Operation} {left right : Node}
    {c : Clause} (h : Node.Renders m (.composite form op left right) c) :
    ∃ token, op.token = .ok token := by
  cases h with
  | join _ htoken _ _ => exact ⟨_, htoken⟩
  | constants _ _ _ htoken => exact ⟨_, htoken⟩
  | nullTest _ _ _ hop => exact token_of_nullSense hop
  | bound _ _ htoken _ => exact ⟨_, htoken⟩

theorem isComposite_of_renders {m : Mapping} {n : Node} {c : Clause} (h : n.Renders m c) :
    n.isComposite = true := by
  cases h <;> rfl

theorem renders_of_result_ofNode {m : Mapping} {n : Node} {c : Clause}
    (h : (ofNode m n).result = .ok c) : n.Renders m c := by
  induction n using ofNode.induct generalizing c with
  | case1 form op form' op' l r form'' op'' l' r' ihleft ihright =>
    rw [result_ofNode_join rfl rfl] at h
    simp only [bind_eq_ok_iff] at h
    obtain ⟨token, htoken, a, ha, b, hb, h⟩ := h
    cases h
    exact .join form htoken (ihleft ha) (ihright hb)
  | case2 form op path value => exact result_ofComparison_eq_ok_iff.1 h
  | case3 form op a b =>
    rw [result_ofNode_constants, bind_eq_ok_iff] at h
    obtain ⟨token, htoken, h⟩ := h
    cases h
    exact .constants form a b htoken
  | case4 form op left right notJoin notComparison notConstants =>
    rw [ofNode] at h
    · cases h
    · exact notJoin
    · exact notComparison
    · exact notConstants
  | case5 leaf notComposite =>
    rw [ofNode] at h
    · cases h
    · exact notComposite

theorem result_ofNode_eq_ok_iff {m : Mapping} {n : Node} {c : Clause} :
    (ofNode m n).result = .ok c ↔ n.Renders m c := by
  refine ⟨renders_of_result_ofNode, fun h => ?_⟩
  induction h with
  | join form htoken hleft hright ihleft ihright =>
    rw [result_ofNode_join (isComposite_of_renders hleft) (isComposite_of_renders hright), htoken,
      ihleft, ihright]
    rfl
  | constants form a b htoken =>
    rw [result_ofNode_constants, htoken]
    rfl
  | nullTest form htested hleft hop =>
    exact result_ofComparison_eq_ok_iff.2 (.nullTest form htested hleft hop)
  | bound form hbound htoken hleft =>
    exact result_ofComparison_eq_ok_iff.2 (.bound form hbound htoken hleft)

end Clause

/-! The identifiers play no part in the structure of a clause: under every mapping it is
the clause over the paths themselves, with an identifier in place of each path. -/

/-- The mapping without entries, whose identifiers are the paths. -/
def Mapping.byPath : Mapping := .empty ""

/-- The identifier of a path, the path itself where the policy allows none. -/
def Mapping.identifier (m : Mapping) (path : String) : String := (m.identifier? path).getD path

def Operand.rename (f : String → String) : Operand → Operand
  | column identifier => column (f identifier)
  | parameter name => parameter name

def Clause.rename (f : String → String) : Clause → Clause
  | join left token right => join (left.rename f) token (right.rename f)
  | constants a token b => constants a token b
  | nullTest operand negated => nullTest (operand.rename f) negated
  | bound operand token formatter name value => bound (operand.rename f) token formatter name value

theorem Clause.parameters_rename (f : String → String) (c : Clause) :
    (c.rename f).parameters = c.parameters := by
  induction c with
  | join left token right ihleft ihright => simp only [rename, parameters, ihleft, ihright]
  | _ => rfl

theorem MemberPath.StandsFor.rename {m : Mapping} {path : MemberPath} {name : String}
    {left : Operand} (h : path.StandsFor m name left) :
    ∃ left₀, path.StandsFor .byPath name left₀ ∧ left = left₀.rename m.identifier := by
  cases h with
  | reference hpath => exact ⟨_, .reference hpath, rfl⟩
  | column hpath hidentifier =>
    refine ⟨_, .column hpath rfl, ?_⟩
    simp [Operand.rename, Mapping.identifier, hidentifier]

theorem Node.Renders.rename {m : Mapping} {n : Node} {c : Clause} (h : n.Renders m c) :
    ∃ c₀, n.Renders .byPath c₀ ∧ c = c₀.rename m.identifier := by
  induction h with
  | join form htoken _ _ ihleft ihright =>
    obtain ⟨a, hleft, rfl⟩ := ihleft
    obtain ⟨b, hright, rfl⟩ := ihright
    exact ⟨_, .join form htoken hleft hright, rfl⟩
  | constants form a b htoken => exact ⟨_, .constants form a b htoken, rfl⟩
  | nullTest form htested hleft hop =>
    obtain ⟨left₀, hleft₀, rfl⟩ := hleft.rename
    exact ⟨_, .nullTest form htested hleft₀ hop, rfl⟩
  | bound form hbound htoken hleft =>
    obtain ⟨left₀, hleft₀, rfl⟩ := hleft.rename
    exact ⟨_, .bound form hbound htoken hleft₀, rfl⟩

/-- The outcome is that of the clause, once the expression is a predicate. -/
theorem result_compile_eq_bind (m : Mapping) (e : Expr) :
    (compile m e).result = e.toPredicate.result >>= fun n =>
      (Clause.ofNode m n).result >>= fun c => .ok c.predicate := by
  simp only [compile, Predicate.ofExpr, Predicate.ofNode, Traced.result_bind]
  rfl

/-- An expression compiles to what the clause of its tree says. -/
theorem result_compile_eq_ok_iff {m : Mapping} {e : Expr} {p : Predicate} :
    (compile m e).result = .ok p
      ↔ ∃ n c, e.toPredicate.result = .ok n ∧ n.Renders m c ∧ c.predicate = p := by
  simp only [result_compile_eq_bind, bind_eq_ok_iff, Clause.result_ofNode_eq_ok_iff,
    Except.ok.injEq]
  constructor
  · rintro ⟨n, hn, c, hc, hp⟩
    exact ⟨n, c, hn, hc, hp⟩
  · rintro ⟨n, c, hn, hc, hp⟩
    exact ⟨n, hn, c, hc, hp⟩

end WhereClause
