import WhereClause.Proofs.Meaning
import WhereClause.Proofs.Rendering

/-!
# The reading of clauses

What a clause says about a row once its parameters are bound. There are two ways to bind
them: in order, each placeholder taking the next parameter, or by name. In both a value
comes from the binding alone, never from the clause, and a reference back to a parameter
asks whether what was bound under its name is null.
-/
namespace WhereClause

/-- The operation that a token stands for between two parts of a clause. -/
def Operation.ofToken? : String → Option Operation
  | "=" => some .eq
  | "!=" => some .ne
  | ">" => some .gt
  | ">=" => some .ge
  | "<" => some .lt
  | "<=" => some .le
  | "AND" => some .and
  | "OR" => some .or
  | "LIKE" => some .like
  | "IN" => some .within
  | _ => none

namespace Truth

/-- A token between two values, the second of which may be wrapped in a pattern. -/
def test? (T : Truth) (token : String) (formatter : Option Pattern) (a b : Json) : Option Bool :=
  match Operation.ofToken? token, formatter with
  | some .like, some pattern => some (T.like pattern a b)
  | some op, none => if op.hasConverse || op == .within then some (T.compare op a b) else none
  | _, _ => none

/-- A token between two truths. -/
def join? (T : Truth) (token : String) (a b : Bool) : Option Bool :=
  match Operation.ofToken? token with
  | some .and => some (a && b)
  | some .or => some (a || b)
  | some op => if op.hasConverse then some (T.compare op (.bool a) (.bool b)) else none
  | none => none

/-- A test for null compares with null. -/
def isNull (T : Truth) (negated : Bool) (a : Json) : Bool :=
  T.compare (if negated then .ne else .eq) a .null

variable {T : Truth} {op : Operation} {token : String}

end Truth

/-- The parameters of a text on the way through it. -/
structure Progress where
  /-- The parameters whose placeholders have been met, the latest first. -/
  met : List Parameter
  ahead : List Parameter

namespace Progress

/-- The value that was bound last under a name. -/
def last? (s : Progress) (name : String) : Option Json :=
  (s.met.find? (·.name == name)).map (·.value)

/-- The next parameter, which has to have the name of the placeholder. -/
def next? (s : Progress) (name : String) : Option (Json × Progress) :=
  match s.ahead with
  | q :: ahead => if q.name == name then some (q.value, ⟨q :: s.met, ahead⟩) else none
  | [] => none

end Progress

/-- The value of what stands on the left. -/
def Operand.value? (columns : String → Json) (bound : String → Option Json) : Operand → Option Json
  | column identifier => some (columns identifier)
  | parameter name => bound name

/-- A test for null: of the row by comparison, of a parameter by what was bound. -/
def Operand.isNull? (T : Truth) (columns : String → Json) (bound : String → Option Json)
    (negated : Bool) : Operand → Option Bool
  | column identifier => some (T.isNull negated (columns identifier))
  | parameter name => (bound name).map fun value => value.isNull != negated

/-- The columns that are read. -/
def Operand.columns : Operand → List String
  | column identifier => [identifier]
  | parameter _ => []

section Renaming

variable {T : Truth} {columns : String → Json} {row : Row} {f : String → String}
  {bound : String → Option Json} {operand : Operand}

theorem Operand.value?_rename (hcolumns : ∀ path ∈ operand.columns, columns (f path) = row path) :
    (operand.rename f).value? columns bound = operand.value? row bound := by
  cases operand with
  | column identifier => exact congrArg some (hcolumns identifier (List.mem_singleton_self _))
  | parameter name => rfl

theorem Operand.isNull?_rename {negated : Bool}
    (hcolumns : ∀ path ∈ operand.columns, columns (f path) = row path) :
    (operand.rename f).isNull? T columns bound negated = operand.isNull? T row bound negated := by
  cases operand with
  | column identifier =>
    exact congrArg (fun value => some (T.isNull negated value))
      (hcolumns identifier (List.mem_singleton_self _))
  | parameter name => rfl

end Renaming

namespace Predicate

/-- No name stands for two values. -/
def Unambiguous (p : Predicate) : Prop :=
  ∀ q ∈ p.parameters, ∀ q' ∈ p.parameters, q.name = q'.name → q.value = q'.value

/-- A predicate is unambiguous exactly if every parameter is found under its name. -/
theorem unambiguous_iff (p : Predicate) :
    p.Unambiguous ↔ ∀ q ∈ p.parameters, p.parameter? q.name = some q.value := by
  have hfind (q : Parameter) (hq : q ∈ p.parameters) :
      ∃ first ∈ p.parameters, p.parameters.find? (·.name == q.name) = some first ∧
        first.name = q.name := by
    cases hfirst : p.parameters.find? (·.name == q.name) with
    | none => simpa using List.find?_eq_none.1 hfirst q hq
    | some first =>
      exact ⟨first, List.mem_of_find?_eq_some hfirst, rfl, by simpa using List.find?_some hfirst⟩
  constructor
  · intro h q hq
    obtain ⟨first, hfirst, hfound, hname⟩ := hfind q hq
    rw [parameter?, hfound, Option.map_some, h first hfirst q hq hname]
  · intro h q hq q' hq' hname
    have hsame := h q hq
    rw [hname, h q' hq'] at hsame
    exact (Option.some.inj hsame).symm

end Predicate

namespace Clause

/-- The columns that are read. -/
def columns : Clause → List String
  | join left _ right => left.columns ++ right.columns
  | constants _ _ _ => []
  | nullTest operand _ | bound operand _ _ _ _ => operand.columns

/-- The clause with its parameters bound in order. -/
def inOrder? (T : Truth) (columns : String → Json) : Clause → Progress → Option (Bool × Progress)
  | join left token right, s => do
    let (a, s) ← left.inOrder? T columns s
    let (b, s) ← right.inOrder? T columns s
    return (← T.join? token a b, s)
  | constants a token b, s => do
    return (← T.test? token none a b, s)
  | nullTest operand negated, s => do
    return (← operand.isNull? T columns s.last? negated, s)
  | bound operand token formatter name _, s => do
    let left ← operand.value? columns s.last?
    let (right, s) ← s.next? name
    return (← T.test? token formatter left right, s)

/-- The clause with its parameters bound by name. -/
def byName? (T : Truth) (columns : String → Json) (values : String → Option Json) :
    Clause → Option Bool
  | join left token right => do
    T.join? token (← left.byName? T columns values) (← right.byName? T columns values)
  | constants a token b => T.test? token none a b
  | nullTest operand negated => operand.isNull? T columns values negated
  | bound operand token formatter name _ => do
    T.test? token formatter (← operand.value? columns values) (← values name)

/-- Bound in either way the clause says `holds`, and it takes exactly its own parameters. -/
structure Says (T : Truth) (columns : String → Json) (c : Clause) (holds : Bool) : Prop where
  inOrder : ∀ met ahead, c.inOrder? T columns ⟨met, c.parameters ++ ahead⟩
    = some (holds, ⟨c.parameters.reverse ++ met, ahead⟩)
  byName : ∀ values : String → Option Json, (∀ q ∈ c.parameters, values q.name = some q.value) →
    c.byName? T columns values = some holds

variable {T : Truth} {columns : String → Json}

theorem inOrder?_join {left right : Clause} {token : String} {s s' s'' : Progress}
    {a b holds : Bool} (hleft : left.inOrder? T columns s = some (a, s'))
    (hright : right.inOrder? T columns s' = some (b, s''))
    (hjoin : T.join? token a b = some holds) :
    (join left token right).inOrder? T columns s = some (holds, s'') := by
  simp only [inOrder?, hleft, hright, hjoin, Option.bind_eq_bind, Option.bind_some]
  rfl

theorem byName?_join {left right : Clause} {token : String} {values : String → Option Json}
    {a b holds : Bool} (hleft : left.byName? T columns values = some a)
    (hright : right.byName? T columns values = some b)
    (hjoin : T.join? token a b = some holds) :
    (join left token right).byName? T columns values = some holds := by
  simp only [byName?, hleft, hright, hjoin, Option.bind_eq_bind, Option.bind_some]

theorem Says.join {left right : Clause} {token : String} {a b holds : Bool}
    (hleft : left.Says T columns a) (hright : right.Says T columns b)
    (hjoin : T.join? token a b = some holds) : (join left token right).Says T columns holds where
  inOrder met ahead := by
    rw [parameters, List.append_assoc, List.reverse_append, List.append_assoc]
    exact inOrder?_join (hleft.inOrder _ _) (hright.inOrder _ _) hjoin
  byName values hvalues :=
    byName?_join (hleft.byName values fun q hq => hvalues q (List.mem_append_left _ hq))
      (hright.byName values fun q hq => hvalues q (List.mem_append_right _ hq)) hjoin

/-- With the parameters of a predicate bound in order, each placeholder takes its own one
and none is left over; bound by name the answer is the same, as long as no name stands for
two values. -/
structure Answers (T : Truth) (columns : String → Json) (c : Clause) (p : Predicate)
    (holds : Bool) : Prop where
  inOrder : c.inOrder? T columns ⟨[], p.parameters⟩ = some (holds, ⟨p.parameters.reverse, []⟩)
  byName : p.Unambiguous → c.byName? T columns p.parameter? = some holds

section Renaming

variable {row : Row} {f : String → String}

theorem inOrder?_rename {c : Clause} (hcolumns : ∀ path ∈ c.columns, columns (f path) = row path)
    (s : Progress) : (c.rename f).inOrder? T columns s = c.inOrder? T row s := by
  induction c generalizing s with
  | join left token right ihleft ihright =>
    have hleft := ihleft fun path hpath => hcolumns path (List.mem_append_left _ hpath)
    have hright := ihright fun path hpath => hcolumns path (List.mem_append_right _ hpath)
    simp only [rename, inOrder?, hleft, hright]
  | constants a token b => rfl
  | nullTest operand negated => simp only [rename, inOrder?, Operand.isNull?_rename hcolumns]
  | bound operand token formatter name value =>
    simp only [rename, inOrder?, Operand.value?_rename hcolumns]

theorem byName?_rename {c : Clause} (hcolumns : ∀ path ∈ c.columns, columns (f path) = row path)
    (values : String → Option Json) :
    (c.rename f).byName? T columns values = c.byName? T row values := by
  induction c with
  | join left token right ihleft ihright =>
    have hleft := ihleft fun path hpath => hcolumns path (List.mem_append_left _ hpath)
    have hright := ihright fun path hpath => hcolumns path (List.mem_append_right _ hpath)
    simp only [rename, byName?, hleft, hright]
  | constants a token b => rfl
  | nullTest operand negated => exact Operand.isNull?_rename hcolumns
  | bound operand token formatter name value =>
    simp only [rename, byName?, Operand.value?_rename hcolumns]

theorem Says.rename {c : Clause} {holds : Bool} (h : c.Says T row holds)
    (hcolumns : ∀ path ∈ c.columns, columns (f path) = row path) :
    (c.rename f).Says T columns holds where
  inOrder met ahead := by
    rw [parameters_rename, inOrder?_rename hcolumns]
    exact h.inOrder met ahead
  byName values hvalues := by
    rw [byName?_rename hcolumns]
    exact h.byName values (parameters_rename f c ▸ hvalues)

end Renaming

end Clause
end WhereClause
