import WhereClause.Proofs.Canonical
import WhereClause.Proofs.Spelling

/-!
# Nothing but registered names

What a text can name under a mapping that refuses all members without an entry: columns by
the identifiers of entries, and parameters by the paths of entries, put together without
points. The names in an expression may be anything; one that is not registered has no
clause, and the check of a parameter stands only beside the comparison that binds it
(`Node.Writes.registered`).
-/
namespace WhereClause

open Outcome

/-- What is left of a text when some of its points are taken out, or all, or none. -/
inductive Text.DropsPoints : List Char → List Char → Prop
  | nil : DropsPoints [] []
  | keep (c : Char) {cs ds : List Char} (h : DropsPoints cs ds) : DropsPoints (c :: cs) (c :: ds)
  | drop {cs ds : List Char} (h : DropsPoints cs ds) : DropsPoints ('.' :: cs) ds

namespace Text.DropsPoints

theorem refl (cs : List Char) : DropsPoints cs cs := by
  induction cs with
  | nil => exact .nil
  | cons c cs ih => exact .keep c ih

theorem append {cs ds cs' ds' : List Char} (h : DropsPoints cs ds) (h' : DropsPoints cs' ds') :
    DropsPoints (cs ++ cs') (ds ++ ds') := by
  induction h with
  | nil => exact h'
  | keep c h ih => exact .keep c ih
  | drop h ih => exact .drop ih

/-- The members of a path without the points between them. -/
theorem intercalate (parts : List (List Char)) :
    DropsPoints (['.'].intercalate parts) parts.flatten := by
  induction parts with
  | nil => exact .nil
  | cons part parts ih =>
    cases parts with
    | nil =>
      simp only [List.intercalate_singleton, List.flatten_cons, List.flatten_nil, List.append_nil]
      exact refl part
    | cons next parts =>
      rw [List.intercalate_cons_cons, List.flatten_cons, List.append_assoc]
      exact (refl part).append (.drop ih)

end Text.DropsPoints

namespace Mapping

/-- The name is a registered path but for some of its points, as it is or with the ending
of a set. -/
def Names (m : Mapping) (name : String) : Prop :=
  ∃ path, m.contains path = true ∧ ∃ base, Text.DropsPoints path.toList base ∧
    (name.toList = base ∨ name.toList = base ++ "Collection".toList)

variable {m : Mapping}

theorem names_parameterName {path : MemberPath} {identifier : String}
    (h : m.lookup? path.dotted = some identifier) (kind : Kind) :
    m.Names (parameterName path.segments kind) := by
  have registered : m.contains path.dotted = true := by
    rw [contains, h]
    rfl
  have joined : Text.DropsPoints path.dotted.toList (path.segments.flatMap String.toList) := by
    rw [MemberPath.dotted, String.toList_intercalate, List.flatMap_def]
    exact .intercalate _
  refine ⟨path.dotted, registered, _, joined, ?_⟩
  rw [parameterName_toList]
  by_cases hset : kind.isCollection = true
  · exact .inr (by rw [if_pos hset])
  · exact .inl (by rw [if_neg hset, List.append_nil])

/-- A mapping that refuses has no identifiers but those of its entries. -/
theorem lookup?_of_identifier? {path identifier : String} (strict : m.policy = .reject)
    (h : m.identifier? path = some identifier) : m.lookup? path = some identifier := by
  unfold identifier? at h
  split at h
  · next registered hlookup =>
    rw [hlookup]
    exact h
  · rw [strict] at h
    cases h

end Mapping

/-- The parameters that an operand refers back to. -/
def Operand.references : Operand → List String
  | column _ => []
  | parameter name => [name]

namespace Clause

/-- The parameters that a clause refers back to, from left to right. -/
def references : Clause → List String
  | join left _ right => left.references ++ right.references
  | constants _ _ _ => []
  | nullTest operand _ | bound operand _ _ _ _ => operand.references

/-- The clauses of members and values that a clause is made of, from left to right. -/
def comparisons : Clause → List Clause
  | join left _ right => left.comparisons ++ right.comparisons
  | constants _ _ _ => []
  | nullTest operand negated => [nullTest operand negated]
  | bound operand token formatter name value => [bound operand token formatter name value]

/-- The clause begins with a registered identifier, or checks a parameter for null. -/
inductive Sanctioned (m : Mapping) (k : Clause) : Prop
  | column {path identifier : String} (registered : m.lookup? path = some identifier)
      (noReference : k.references = []) (rest : String)
      (htext : k.text = "(" ++ identifier ++ " " ++ rest)
  | reference (name : String) (refersBack : k.references = [name])
      (htext : k.text = "(@" ++ name ++ " IS NULL)")

variable {m : Mapping}

theorem sanctioned_nullTest {path identifier : String}
    (registered : m.lookup? path = some identifier) (negated : Bool) :
    (nullTest (.column identifier) negated).Sanctioned m := by
  refine .column registered rfl (if negated then "IS NOT NULL)" else "IS NULL)") ?_
  cases negated <;> simp [text, Operand.text, ← String.toList_inj]

theorem sanctioned_bound {path identifier : String} (registered : m.lookup? path = some identifier)
    (token : String) (formatter : Option Pattern) (name : String) (value : Json) :
    (bound (.column identifier) token formatter name value).Sanctioned m := by
  refine .column registered rfl (token ++ " " ++ placeholder formatter name ++ ")") ?_
  simp [text, group, Operand.text, String.append_assoc]

theorem sanctioned_reference (name : String) :
    (nullTest (.parameter name) false).Sanctioned m := by
  refine .reference name rfl ?_
  simp [text, Operand.text, ← String.toList_inj]

theorem mem_groups_of_mem_comparisons {k c : Clause} (h : k ∈ c.comparisons) : k ∈ c.groups := by
  induction c with
  | join left token right ihleft ihright =>
    have below := (List.mem_append.1 h).imp ihleft ihright
    exact List.mem_cons_of_mem _ (List.mem_append.2 below)
  | constants a token b => cases h
  | nullTest operand negated => exact h
  | bound operand token formatter name value => exact h

/-- All that a clause names is registered. -/
structure Registered (m : Mapping) (c : Clause) : Prop where
  sanctioned : ∀ k ∈ c.comparisons, k.Sanctioned m
  parameters : ∀ q ∈ c.parameters, m.Names q.name
  references : ∀ name ∈ c.references, m.Names name

theorem Registered.join {left right : Clause} (hleft : left.Registered m)
    (hright : right.Registered m) (token : String) : (join left token right).Registered m where
  sanctioned k hk := (List.mem_append.1 hk).elim (hleft.sanctioned k) (hright.sanctioned k)
  parameters q hq := (List.mem_append.1 hq).elim (hleft.parameters q) (hright.parameters q)
  references name hname :=
    (List.mem_append.1 hname).elim (hleft.references name) (hright.references name)

theorem registered_nullTest {path identifier : String}
    (registered : m.lookup? path = some identifier) (negated : Bool) :
    (nullTest (.column identifier) negated).Registered m where
  sanctioned k hk := by
    obtain rfl := List.mem_singleton.1 hk
    exact sanctioned_nullTest registered negated
  parameters q hq := by cases hq
  references name hname := by cases hname

theorem registered_bound {path identifier name : String}
    (registered : m.lookup? path = some identifier) (hname : m.Names name) (token : String)
    (formatter : Option Pattern) (value : Json) :
    (bound (.column identifier) token formatter name value).Registered m where
  sanctioned k hk := by
    obtain rfl := List.mem_singleton.1 hk
    exact sanctioned_bound registered token formatter name value
  parameters q hq := by
    obtain rfl := List.mem_singleton.1 hq
    exact hname
  references name hname := by cases hname

theorem registered_reference {name : String} (hname : m.Names name) :
    (nullTest (.parameter name) false).Registered m where
  sanctioned k hk := by
    obtain rfl := List.mem_singleton.1 hk
    exact sanctioned_reference name
  parameters q hq := by cases hq
  references other hother := by
    obtain rfl := List.mem_singleton.1 hother
    exact hname

theorem registered_constants (a : Json) (token : String) (b : Json) :
    (constants a token b).Registered m where
  sanctioned k hk := by cases hk
  parameters q hq := by cases hq
  references name hname := by cases hname

end Clause

/-- A reference back has no entry of its own, but it stands only beside a comparison of the
same path, and that one was resolved. -/
theorem Node.Writes.registered {m : Mapping} {n : Node} {c : Clause} (h : n.Writes m c)
    (strict : m.policy = .reject) : c.Registered m := by
  induction h with
  | tested h hvalue hidentifier hsense =>
    exact Clause.registered_nullTest (Mapping.lookup?_of_identifier? strict hidentifier) _
  | @bound op path value identifier token h hvalue hidentifier htoken =>
    have registered := Mapping.lookup?_of_identifier? strict hidentifier
    exact Clause.registered_bound registered (Mapping.names_parameterName registered _) _ _ _
  | @orUnbound op path value identifier token h inhabited hidentifier htoken =>
    have registered := Mapping.lookup?_of_identifier? strict hidentifier
    have name := Mapping.names_parameterName registered value.kind
    have comparison := Clause.registered_bound registered name token path.formatter value.value
    exact comparison.join (Clause.registered_reference name) _
  | constants hop htoken => exact Clause.registered_constants _ _ _
  | join hop htoken hleft hright ihleft ihright => exact ihleft.join ihright _

/-- Under a mapping that refuses unregistered members, every clause of a member and a value
in the text begins with the identifier of an entry, or checks a parameter for null; and
every name of a parameter, bound or referred back to, is a registered path but for points,
with the ending of a set or without. -/
theorem compile_names_registered {m : Mapping} {e : Expr} {p : Predicate}
    (strict : m.policy = .reject) (h : (compile m e).result = .ok p) :
    ∃ n c, e.toPredicate.result = .ok n ∧ (Clause.ofNode m n).result = .ok c ∧ c.predicate = p ∧
      (∀ k ∈ c.comparisons, k.text.toList <:+: p.text.toList ∧
        ((∃ path identifier rest, m.lookup? path = some identifier ∧ k.references = [] ∧
            k.text = "(" ++ identifier ++ " " ++ rest) ∨
          ∃ name, k.references = [name] ∧ k.text = "(@" ++ name ++ " IS NULL)")) ∧
      (∀ name ∈ p.parameterNames, m.Names name) ∧ ∀ name ∈ c.references, m.Names name := by
  obtain ⟨n, c, hn, hc, rfl⟩ := result_compile_eq_ok_iff.1 h
  have registered := ((Expr.canonical_of_toPredicate hn).writes hc).registered strict
  refine ⟨n, c, hn, Clause.result_ofNode_eq_ok_iff.2 hc, rfl, fun k hk => ⟨?_, ?_⟩, ?_,
    registered.references⟩
  · exact Clause.text_infix_of_mem_groups (Clause.mem_groups_of_mem_comparisons hk)
  · cases registered.sanctioned k hk with
    | column hlookup noReference rest htext => exact .inl ⟨_, _, rest, hlookup, noReference, htext⟩
    | reference name refersBack htext => exact .inr ⟨name, refersBack, htext⟩
  · intro name hname
    obtain ⟨q, hq, rfl⟩ := List.mem_map.1 hname
    exact registered.parameters q hq

/-- A mapping of one member of a member, which refuses all others. -/
def subNameOnly : Mapping := ((Mapping.empty "m").map "SubModel.Name" "name" (some "s")).register
  (.unmapped .reject)

/-- The registered path once as a member of a member, compared with a set, and once as a
single member that has the point in its own name. -/
def subNameTwice : Expr :=
  .and (.containsOrNull (.ofValue (.array [.text "x"])) (.get (.get .subject "SubModel") "Name"))
    (.notEquals (.get .subject "SubModel.Name") (.ofValue (.text "y")))

/-- What `subNameTwice` compiles to. -/
def subNameTwicePredicate : Predicate where
  text := "(((s.name IN @SubModelNameCollection) OR (@SubModelNameCollection IS NULL)) AND "
    ++ "(s.name != @SubModel.Name))"
  parameters := [⟨"SubModelNameCollection", .array [.text "x"]⟩, ⟨"SubModel.Name", .text "y"⟩]

theorem subNameTwice_names_registered :
    subNameOnly.policy = .reject ∧
    (compile subNameOnly subNameTwice).result = .ok subNameTwicePredicate ∧
    subNameOnly.Names "SubModelNameCollection" ∧ subNameOnly.Names "SubModel.Name" ∧
    ∃ c : Clause, c.predicate = subNameTwicePredicate ∧
      (∀ k ∈ c.comparisons, k.text.toList <:+: subNameTwicePredicate.text.toList) ∧
      c.references = ["SubModelNameCollection"] := by
  have compiled : (compile subNameOnly subNameTwice).result = .ok subNameTwicePredicate := rfl
  obtain ⟨n, c, hn, hc, hp, clauses, names, -⟩ := compile_names_registered rfl compiled
  have references : c.references = ["SubModelNameCollection"] := by
    cases hn
    cases hc
    rfl
  exact ⟨rfl, compiled, names _ (.head _), names _ (.tail _ (.head _)), c, hp,
    fun k hk => (clauses k hk).1, references⟩

end WhereClause
