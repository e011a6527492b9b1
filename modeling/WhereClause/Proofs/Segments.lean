import WhereClause.Proofs.Resolution
import WhereClause.Proofs.Strictness

/-!
# How a path falls into members

The same dotted path can be one member with a point in its name, or a member of a member. The
column is looked up by the dotted path, so it is the same for both; a parameter is named by the
members put together, so its name has the points that stand in their names. Two such paths have
one clause but for the name of the parameter (`Clause.result_ofComparison_under`).
-/
namespace WhereClause

open Outcome

/-- Paths of one dotted form, which are compared in the same way. -/
structure MemberPath.SameForm (p q : MemberPath) : Prop where
  dotted : q.dotted = p.dotted
  nullRef : q.nullRef = p.nullRef
  formatter : q.formatter = p.formatter

/-- The points of the dotted path stand between its members only. -/
def MemberPath.Unpointed (p : MemberPath) : Prop := ∀ s ∈ p.segments, '.' ∉ s.toList

section Naming

variable {p q : MemberPath} {kind : Kind}

theorem parameterName_inj {segments segments' : List String} :
    parameterName segments kind = parameterName segments' kind
      ↔ String.join segments = String.join segments' := by
  rw [parameterName, parameterName, String.append_left_inj]

/-- Without points the dotted path is what the members are together, without points. -/
theorem MemberPath.without_dotted (p : MemberPath) :
    Text.without '.' p.dotted = Text.without '.' (String.join p.segments) := by
  have point : (".").toList = ['.'] := rfl
  rw [Text.without, Text.without, dotted, String.toList_intercalate, String.toList_join, point,
    Text.filter_intercalate, List.flatMap_def]

theorem MemberPath.unpointed_iff : p.Unpointed ↔ '.' ∉ (String.join p.segments).toList := by
  rw [String.toList_join, List.mem_flatMap, Unpointed]
  simp

/-- The members together are the dotted path without its points exactly if no member has one
in its name. -/
theorem MemberPath.join_eq_without_iff :
    String.join p.segments = Text.without '.' p.dotted ↔ p.Unpointed := by
  rw [without_dotted, unpointed_iff, eq_comm, Text.without_eq_iff]

theorem MemberPath.SameForm.join_eq (h : p.SameForm q) (hp : p.Unpointed) (hq : q.Unpointed) :
    String.join p.segments = String.join q.segments := by
  rw [join_eq_without_iff.2 hp, join_eq_without_iff.2 hq, h.dotted]

end Naming

/-- The operand, with this name for the parameter that it may be. -/
def Operand.under (name : String) : Operand → Operand
  | column identifier => column identifier
  | parameter _ => parameter name

namespace Clause

/-- The clause, with this name for all parameters that it names. -/
def under (name : String) : Clause → Clause
  | join left token right => join (left.under name) token (right.under name)
  | constants a token b => constants a token b
  | nullTest operand negated => nullTest (operand.under name) negated
  | bound operand token formatter _ value => bound (operand.under name) token formatter name value

/-- The parameters that a clause binds or refers back to. -/
def mentioned (c : Clause) : List String := c.parameters.map (·.name) ++ c.references

variable {m : Mapping} {op : Operation} {p q : MemberPath} {value : Literal} {c : Clause}

theorem result_operand_under (h : p.SameForm q) (name name' : String) :
    (operand m q name').result
      = (operand m p name).result >>= fun left => .ok (left.under name') := by
  unfold operand
  rw [h.nullRef, h.dotted]
  cases p.nullRef with
  | true => rfl
  | false =>
    simp only [Bool.false_eq_true, if_false, Traced.result_bind]
    cases (m.resolve p.dotted).result <;> rfl

/-- Paths of one form have the same clause but for the name of the parameter, or are refused
for the same reason. -/
theorem result_ofComparison_under (h : p.SameForm q) :
    (ofComparison m op q value).result
      = (ofComparison m op p value).result >>= fun c =>
          .ok (c.under (parameterName q.segments value.kind)) := by
  simp only [ofComparison, Traced.result_bind, Traced.result_ofResult]
  cases op.token with
  | error e => rfl
  | ok token =>
    rw [result_operand_under h (parameterName p.segments value.kind)]
    cases (operand m p (parameterName p.segments value.kind)).result with
    | error e => rfl
    | ok left =>
      rw [h.formatter]
      by_cases htested : (value.isNull && !value.forced) = true
      · simp only [htested, if_true]
        cases nullSense op <;> rfl
      · simp only [htested]
        rfl

theorem predicate_under_nullTest_iff {name other : String} {negated : Bool} :
    ((nullTest (.parameter name) negated).under other).predicate
        = (nullTest (.parameter name) negated).predicate ↔ other = name := by
  simp [under, Operand.under, predicate, parameters, text, Operand.text,
    String.append_left_inj, String.append_right_inj]

/-- A bound value shows its name among the parameters. -/
theorem eq_of_predicate_under_bound {left : Operand} {token name other : String}
    {formatter : Option Pattern} {given : Json}
    (h : ((bound left token formatter name given).under other).predicate
      = (bound left token formatter name given).predicate) : other = name := by
  have parameters := congrArg Predicate.parameters h
  simpa [under, predicate, Clause.parameters] using parameters

/-- The clause of a comparison names no parameter but the one for its path, and with another
name for it the clause says something else. -/
theorem mentioned_ofComparison (h : (ofComparison m op p value).result = .ok c) :
    (∀ name ∈ c.mentioned, name = parameterName p.segments value.kind) ∧
    ∀ name, (c.under name).predicate = c.predicate
      ↔ c.mentioned = [] ∨ name = parameterName p.segments value.kind := by
  have renders : Node.Renders m (.composite .comparison op (.member p) (.literal value)) c :=
    result_ofComparison_eq_ok_iff.1 h
  cases renders with
  | join _ _ hleft _ => cases hleft
  | nullTest _ _ hleft _ =>
    cases hleft with
    | reference _ =>
      refine ⟨fun name hname => List.mem_singleton.1 hname, fun name => ?_⟩
      rw [predicate_under_nullTest_iff]
      exact ⟨.inr, fun h => h.resolve_left (List.cons_ne_nil _ _)⟩
    | column _ _ =>
      refine ⟨fun name hname => ?_, fun name => iff_of_true rfl (.inl rfl)⟩
      cases hname
  | bound _ _ _ hleft =>
    cases hleft with
    | reference _ =>
      refine ⟨by simp [mentioned, parameters, references, Operand.references], fun name => ?_⟩
      refine ⟨fun h => .inr (eq_of_predicate_under_bound h), fun h => ?_⟩
      rw [h.resolve_left (List.cons_ne_nil _ _)]
      rfl
    | column _ _ =>
      refine ⟨by simp [mentioned, parameters, references, Operand.references], fun name => ?_⟩
      refine ⟨fun h => .inr (eq_of_predicate_under_bound h), fun h => ?_⟩
      rw [h.resolve_left (List.cons_ne_nil _ _)]
      rfl

end Clause

section Comparisons

variable {m : Mapping} {op : Operation} {p q : MemberPath} {value : Literal}

theorem Predicate.result_ofNode_comparison :
    (Predicate.ofNode m (.binary op (.member p) (.literal value))).result
      = (Clause.ofComparison m op p value).result >>= fun c => .ok c.predicate := by
  rw [ofNode, Node.binary, Clause.ofNode, Traced.result_bind]
  rfl

/-- Paths of one form have the same predicate exactly if no parameter is named, or the members
of both are the same together. -/
theorem Predicate.ofNode_eq_iff (m : Mapping) (op : Operation) (value : Literal)
    (h : p.SameForm q) :
    (Predicate.ofNode m (.binary op (.member q) (.literal value))).result
        = (Predicate.ofNode m (.binary op (.member p) (.literal value))).result
      ↔ (∀ c, (Clause.ofComparison m op p value).result = .ok c → c.mentioned = []) ∨
        String.join q.segments = String.join p.segments := by
  rw [result_ofNode_comparison, result_ofNode_comparison, Clause.result_ofComparison_under h]
  cases hc : (Clause.ofComparison m op p value).result with
  | error e =>
    refine iff_of_true rfl (.inl fun c hc => ?_)
    cases hc
  | ok c =>
    have renamed := (Clause.mentioned_ofComparison hc).2 (parameterName q.segments value.kind)
    rw [parameterName_inj] at renamed
    show Except.ok (c.under _).predicate = Except.ok c.predicate ↔ _
    simp only [Except.ok.injEq, renamed, forall_eq']

/-- Two paths of one form have one clause under every mapping, but for the name of the parameter,
or they are refused for the same reason. That name is the members put together, with the ending
of a set or without, so the predicates are the same exactly if no parameter is named or the
members of both are the same together. The members together are the dotted path without its
points exactly if none of them has a point in its name, and then there is nothing left to tell
the paths apart. -/
theorem comparison_by_dotted_form (m : Mapping) (op : Operation) (value : Literal)
    (h : p.SameForm q) :
    (Clause.ofComparison m op q value).result
        = ((Clause.ofComparison m op p value).result >>= fun c =>
          .ok (c.under (parameterName q.segments value.kind))) ∧
      (∀ c, (Clause.ofComparison m op p value).result = .ok c → ∀ name ∈ c.mentioned,
        name = String.join p.segments ++ if value.kind.isCollection then "Collection" else "") ∧
      ((Predicate.ofNode m (.binary op (.member q) (.literal value))).result
          = (Predicate.ofNode m (.binary op (.member p) (.literal value))).result
        ↔ (∀ c, (Clause.ofComparison m op p value).result = .ok c → c.mentioned = []) ∨
          String.join q.segments = String.join p.segments) ∧
      (String.join p.segments = Text.without '.' p.dotted ↔ p.Unpointed) ∧
      (p.Unpointed → q.Unpointed →
        (Predicate.ofNode m (.binary op (.member q) (.literal value))).result
          = (Predicate.ofNode m (.binary op (.member p) (.literal value))).result) := by
  have same := Predicate.ofNode_eq_iff m op value h
  refine ⟨Clause.result_ofComparison_under h, fun c hc => ?_, same, p.join_eq_without_iff, ?_⟩
  · exact (Clause.mentioned_ofComparison hc).1
  · intro hp hq
    exact same.2 (.inr (h.join_eq hp hq).symm)

end Comparisons

/-- A member of a member. -/
def subName : MemberPath := .ofSegments .any ["Sub", "Name"]

/-- One member, with the point in its own name. -/
def pointedName : MemberPath := .ofSegments .any ["Sub.Name"]

/-- The mapping of their dotted path. -/
def subNameMapped : Mapping := (Mapping.empty "m").map "Sub.Name" "name" none

/-- The one column of both, and a name of its own for the parameter of each. -/
theorem pointedName_by_dotted_form :
    subName.SameForm pointedName ∧ subName.Unpointed ∧ ¬ pointedName.Unpointed ∧
    (Clause.ofComparison subNameMapped .eq subName (.inferred (.int 1))).result
      = .ok (.bound (.column "m.name") "=" none "SubName" (.int 1)) ∧
    (Clause.ofComparison subNameMapped .eq pointedName (.inferred (.int 1))).result
      = .ok (.bound (.column "m.name") "=" none "Sub.Name" (.int 1)) := by
  have form : subName.SameForm pointedName := ⟨rfl, rfl, rfl⟩
  have clause : (Clause.ofComparison subNameMapped .eq subName (.inferred (.int 1))).result
      = .ok (.bound (.column "m.name") "=" none "SubName" (.int 1)) := rfl
  obtain ⟨clauses, -, -, unpointed, -⟩ :=
    comparison_by_dotted_form subNameMapped .eq (.inferred (.int 1)) form
  have pointed : ¬ pointedName.Unpointed := fun h =>
    absurd (h "Sub.Name" (List.mem_singleton_self _)) (by decide)
  rw [clause] at clauses
  exact ⟨form, unpointed.1 (by decide), pointed, clause, clauses⟩

/-- The two are paths of expressions, and of one form. Their predicates differ in the name of the
parameter, which keeps the point of the dotted path. -/
theorem pointedName_not_by_dotted_form :
    (Expr.get (.get .subject "Sub") "Name").toNode.result = .ok (.member subName) ∧
    (Expr.get .subject "Sub.Name").toNode.result = .ok (.member pointedName) ∧
    subName.SameForm pointedName ∧
    (Predicate.ofNode subNameMapped (.binary .eq (.member pointedName)
        (.literal (.inferred (.int 1))))).result
      ≠ (Predicate.ofNode subNameMapped (.binary .eq (.member subName)
        (.literal (.inferred (.int 1))))).result ∧
    parameterName pointedName.segments .integer ≠ Text.without '.' pointedName.dotted := by
  refine ⟨rfl, rfl, ⟨rfl, rfl, rfl⟩, fun same => ?_, by decide⟩
  have texts := congrArg Predicate.text (Except.ok.inj same)
  revert texts
  decide

end WhereClause
