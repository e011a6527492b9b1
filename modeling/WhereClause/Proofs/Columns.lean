import WhereClause.Proofs.Binding
import WhereClause.Proofs.Chains
import WhereClause.Proofs.Composition
import WhereClause.Proofs.Pairing

/-!
# What a mapping is asked for

All that a predicate takes from its mapping is the identifiers of its columns, by their whole
paths and from left to right. So two mappings under which the columns resolve alike give the
same outcome, and where one mapping refuses a column that the other one resolves, the first
such column is where the outcomes part (`Clause.stoppedBy_ofNode`).
-/
namespace WhereClause

open Outcome

namespace Node

/-- The dotted paths of the columns in a tree, from left to right: of all its paths but those
that refer back to a parameter. In the tree of an expression each is compared with a literal. -/
def columns (n : Node) : List String := (n.paths.filter (!·.nullRef)).map MemberPath.dotted

variable {form : Form} {op : Operation}

theorem columns_composite (left right : Node) :
    (composite form op left right).columns = left.columns ++ right.columns := by
  simp [columns, paths]

theorem columns_comparison (path : MemberPath) (value : Literal) :
    (composite form op (.member path) (.literal value)).columns
      = if path.nullRef then [] else [path.dotted] := by
  by_cases reference : path.nullRef = true <;> simp [columns, paths, reference]

theorem mem_columns_iff {n : Node} {column : String} :
    column ∈ n.columns ↔ ∃ path ∈ n.paths, path.nullRef = false ∧ path.dotted = column := by
  simp [columns, and_assoc]

end Node

namespace Clause

/-- The error at the first of some columns that is refused. -/
def refusal? (refused : String → Bool) (columns : List String) : Option Error :=
  (columns.find? refused).map .unmappedMember

theorem refusal?_append (refused : String → Bool) (front back : List String) :
    refusal? refused (front ++ back) = (refusal? refused front).or (refusal? refused back) := by
  simp [refusal?, List.find?_append, Option.map_or]

/-- Either no column is refused, or there is a first one that is, and then it is the reason. -/
theorem refusal?_cases (refused : String → Bool) (columns : List String) :
    (refusal? refused columns = none ∧ ∀ column ∈ columns, refused column = false) ∨
      ∃ before column after, refusal? refused columns = some (.unmappedMember column) ∧
        columns = before ++ column :: after ∧ (∀ earlier ∈ before, refused earlier = false) ∧
        refused column = true := by
  unfold refusal?
  cases first : columns.find? refused with
  | none => exact .inl ⟨rfl, by simpa using first⟩
  | some column =>
    obtain ⟨hcolumn, before, after, split, hbefore⟩ := List.find?_eq_some_iff_append.1 first
    exact .inr ⟨before, column, after, rfl, split, by simpa using hbefore, hcolumn⟩

/-- Two mappings that resolve columns alike, except for those that the second one refuses. -/
def ResolveAlike (m m' : Mapping) (refused : String → Bool) (columns : List String) : Prop :=
  ∀ column ∈ columns,
    StoppedBy (refusal? refused [column]) (m.resolve column).result (m'.resolve column).result

variable {m m' : Mapping} {refused : String → Bool}

theorem ResolveAlike.of_append {front back : List String}
    (h : ResolveAlike m m' refused (front ++ back)) :
    ResolveAlike m m' refused front ∧ ResolveAlike m m' refused back :=
  ⟨fun column hcolumn => h column (List.mem_append_left _ hcolumn),
    fun column hcolumn => h column (List.mem_append_right _ hcolumn)⟩

/-- The operand of a path asks for one column, or for none if it refers back. -/
theorem stoppedBy_operand {path : MemberPath} (name : String)
    (h : ResolveAlike m m' refused (if path.nullRef then [] else [path.dotted])) :
    StoppedBy (refusal? refused (if path.nullRef then [] else [path.dotted]))
      (operand m path name).result (operand m' path name).result := by
  unfold operand
  by_cases reference : path.nullRef = true
  · simp only [if_pos reference]
    exact .never _
  · simp only [if_neg reference, Traced.result_bind] at h ⊢
    exact (h path.dotted (List.mem_singleton_self _)).andThen _

theorem stoppedBy_ofComparison (op : Operation) {path : MemberPath} (value : Literal)
    (h : ResolveAlike m m' refused (if path.nullRef then [] else [path.dotted])) :
    StoppedBy (refusal? refused (if path.nullRef then [] else [path.dotted]))
      (ofComparison m op path value).result (ofComparison m' op path value).result := by
  simp only [ofComparison, Traced.result_bind, Traced.result_ofResult]
  exact StoppedBy.after _ fun token => (stoppedBy_operand _ h).andThen _

/-- Under two mappings that resolve its columns alike a tree has the same outcome, up to the
first of its columns that the second mapping refuses. -/
theorem stoppedBy_ofNode {n : Node} (paired : n.WellPaired)
    (h : ResolveAlike m m' refused n.columns) :
    StoppedBy (refusal? refused n.columns) (ofNode m n).result (ofNode m' n).result := by
  induction paired with
  | join form op hleft hright ihleft ihright =>
    rw [Node.columns_composite] at h ⊢
    obtain ⟨alikeLeft, alikeRight⟩ := h.of_append
    rw [refusal?_append, result_ofNode_join hleft.isComposite hright.isComposite,
      result_ofNode_join hleft.isComposite hright.isComposite]
    exact StoppedBy.after _ fun token => (ihleft alikeLeft).bind fun a _ =>
      (ihright alikeRight).andThen _
  | comparison form path value hop =>
    rw [Node.columns_comparison] at h ⊢
    exact stoppedBy_ofComparison _ value h
  | constants form a b hop =>
    rw [result_ofNode_constants, result_ofNode_constants]
    exact .never _

end Clause

/-- What holds of the clause of a tree holds of the outcome of an expression with that tree. -/
theorem stoppedBy_compile {m m' : Mapping} {refused : String → Bool} {e : Expr} {n : Node}
    (hn : e.toPredicate.result = .ok n) (h : Clause.ResolveAlike m m' refused n.columns) :
    StoppedBy (Clause.refusal? refused n.columns) (compile m e).result (compile m' e).result := by
  rw [result_compile_of_toPredicate hn, result_compile_of_toPredicate hn]
  exact (Clause.stoppedBy_ofNode (Expr.wellPaired_of_toPredicate hn) h).andThen _

namespace Mapping

variable {m m' : Mapping} {path : String}

theorem result_resolve_of_lookup? {identifier : String} (h : m.lookup? path = some identifier) :
    (m.resolve path).result = .ok identifier := by
  unfold resolve
  rw [h]
  rfl

theorem result_resolve_of_fallback (h : m.lookup? path = none) (hpolicy : m.policy = .fallback) :
    (m.resolve path).result = .ok path := by
  unfold resolve
  rw [h, hpolicy]
  rfl

theorem result_resolve_of_reject (h : m.lookup? path = none) (hpolicy : m.policy = .reject) :
    (m.resolve path).result = .error (.unmappedMember path) := by
  unfold resolve
  rw [h, hpolicy]
  rfl

/-- The alias of the table plays no part, nor does any other entry. -/
theorem result_resolve_congr (hpolicy : m.policy = m'.policy)
    (h : m.lookup? path = m'.lookup? path) : (m.resolve path).result = (m'.resolve path).result := by
  cases found : m'.lookup? path with
  | some identifier => rw [result_resolve_of_lookup? (h.trans found), result_resolve_of_lookup? found]
  | none =>
    rw [found] at h
    cases policy : m'.policy with
    | fallback =>
      rw [result_resolve_of_fallback h (hpolicy.trans policy), result_resolve_of_fallback found policy]
    | reject =>
      rw [result_resolve_of_reject h (hpolicy.trans policy), result_resolve_of_reject found policy]

end Mapping

/-- A mapping that refuses paths without an entry resolves as any other one with the same
entries does, but for those paths. -/
theorem Clause.resolveAlike_of_strict {m strict : Mapping} (hentries : m.entries = strict.entries)
    (hstrict : strict.policy = .reject) (columns : List String) :
    ResolveAlike m strict (fun column => !strict.contains column) columns := by
  intro column _
  have same : m.lookup? column = strict.lookup? column := by
    unfold Mapping.lookup?
    rw [hentries]
  cases found : strict.lookup? column with
  | some identifier =>
    have registered : strict.contains column = true := by simp [Mapping.contains, found]
    rw [Mapping.result_resolve_of_lookup? (same.trans found), Mapping.result_resolve_of_lookup? found]
    simp only [refusal?, List.find?, registered]
    exact .never _
  | none =>
    have unregistered : strict.contains column = false := by simp [Mapping.contains, found]
    rw [Mapping.result_resolve_of_reject found hstrict]
    simp only [refusal?, List.find?, unregistered]
    exact .stopped _ _

/-- The policy for paths without an entry decides nothing but between the path itself and an
error. Let one mapping refuse such paths and another one have the same entries. What the strict
mapping accepts, the other one compiles to the same predicate. What the other one accepts, the
strict one compiles to the same predicate if all columns are registered, and refuses else
because of the first column that is not. And where the other one fails, the strict one fails
with the same error, or because of an unregistered path of the expression. -/
theorem compile_under_policies {lenient strict : Mapping}
    (hentries : lenient.entries = strict.entries) (hstrict : strict.policy = .reject) (e : Expr) :
    (∀ p, (compile strict e).result = .ok p → (compile lenient e).result = .ok p) ∧
    (∀ p, (compile lenient e).result = .ok p → ∃ n, e.toPredicate.result = .ok n ∧
      ((∀ column ∈ n.columns, strict.contains column = true) →
        (compile strict e).result = .ok p) ∧
      (¬ (∀ column ∈ n.columns, strict.contains column = true) →
        ∃ before column after, n.columns = before ++ column :: after ∧
          (∀ earlier ∈ before, strict.contains earlier = true) ∧
          strict.contains column = false ∧
          (compile strict e).result = .error (.unmappedMember column))) ∧
    ∀ error, (compile lenient e).result = .error error →
      (compile strict e).result = .error error ∨
        ∃ n column, e.toPredicate.result = .ok n ∧ column ∈ n.columns ∧ e.HasPath column ∧
          strict.contains column = false ∧
          (compile strict e).result = .error (.unmappedMember column) := by
  cases hn : e.toPredicate.result with
  | error refused =>
    have outcome (m : Mapping) : (compile m e).result = .error refused := by
      rw [result_compile_eq_bind, hn]
      rfl
    rw [outcome strict, outcome lenient]
    refine ⟨fun p h => ?_, fun p h => ?_, fun error h => .inl h⟩ <;> cases h
  | ok n =>
    have stopped := stoppedBy_compile hn (Clause.resolveAlike_of_strict hentries hstrict n.columns)
    rcases Clause.refusal?_cases (fun column => !strict.contains column) n.columns with
      ⟨none, registered⟩ | ⟨before, column, after, first, split, registered, missing⟩
    · rw [none] at stopped
      simp only [Bool.not_eq_false'] at registered
      rw [stopped.eq]
      exact ⟨fun p h => h, fun p h => ⟨n, rfl, fun _ => h, fun missing => absurd registered missing⟩,
        fun error h => .inl h⟩
    · rw [first] at stopped
      simp only [Bool.not_eq_false', Bool.not_eq_true'] at registered missing
      have member : column ∈ n.columns := by simp [split]
      refine ⟨fun p h => stopped.eq_ok h, fun p h => ⟨n, rfl, fun all => ?_, fun _ => ?_⟩,
        fun error h => ?_⟩
      · rw [all column member] at missing
        cases missing
      · rcases stopped.eq_error with refused | ⟨earlier, failed, -⟩
        · exact ⟨before, column, after, split, registered, missing, refused⟩
        · rw [h] at failed
          cases failed
      · rcases stopped.eq_error with refused | ⟨earlier, failed, refused⟩
        · obtain ⟨path, hpath, -, rfl⟩ := Node.mem_columns_iff.1 member
          have node := (Expr.result_toPredicate_eq_ok_iff.1 hn).1
          exact .inr ⟨n, _, rfl, member, Expr.hasPath_of_mem_paths node hpath, missing, refused⟩
        · rw [h] at failed
          cases failed
          exact .inl refused

/-- Rows with a key that is not above three, and with a code or all of them. -/
def keyAndCode : Expr := .and (keyAtMost 3) codeOrAll

/-- The same beside a comparison that no mapping can help. -/
def codeAndNullBound : Expr := .and codeOrAll (.ge (.field "Id") (.ofValue .null))

theorem keyAndCode_under_policies :
    (Mapping.ofModel "m" ["Id"]).policy = .fallback ∧
    (Mapping.ofModel "m" ["Id"]).entries = keysOnly.entries ∧ keysOnly.policy = .reject ∧
    (compile (.ofModel "m" ["Id"]) (keyAtMost 3)).result
      = .ok ⟨"(m.id <= @Id)", [⟨"Id", .int 3⟩]⟩ ∧
    (compile (.ofModel "m" ["Id"]) keyAndCode).result
      = .ok ⟨"((m.id <= @Id) AND ((Code = @Code) OR (@Code IS NULL)))",
          [⟨"Id", .int 3⟩, ⟨"Code", .text "x"⟩]⟩ ∧
    (∃ before column after, ["Id", "Code"] = before ++ column :: after ∧
      (∀ earlier ∈ before, keysOnly.contains earlier = true) ∧ keysOnly.contains column = false ∧
      (compile keysOnly keyAndCode).result = .error (.unmappedMember column)) ∧
    (compile (.ofModel "m" ["Id"]) codeAndNullBound).result
      = .error (.unsupportedOperator "Ge against null") ∧
    ∃ column, codeAndNullBound.HasPath column ∧ keysOnly.contains column = false ∧
      (compile keysOnly codeAndNullBound).result = .error (.unmappedMember column) := by
  have entries : (Mapping.ofModel "m" ["Id"]).entries = keysOnly.entries := rfl
  obtain ⟨accepted, -, -⟩ := compile_under_policies entries rfl (keyAtMost 3)
  obtain ⟨-, compared, -⟩ := compile_under_policies entries rfl keyAndCode
  obtain ⟨-, -, failed⟩ := compile_under_policies entries rfl codeAndNullBound
  have strict : (compile keysOnly (keyAtMost 3)).result
      = .ok ⟨"(m.id <= @Id)", [⟨"Id", .int 3⟩]⟩ := rfl
  have lenient : (compile (.ofModel "m" ["Id"]) keyAndCode).result
      = .ok ⟨"((m.id <= @Id) AND ((Code = @Code) OR (@Code IS NULL)))",
          [⟨"Id", .int 3⟩, ⟨"Code", .text "x"⟩]⟩ := rfl
  have impossible : (compile (.ofModel "m" ["Id"]) codeAndNullBound).result
      = .error (.unsupportedOperator "Ge against null") := rfl
  refine ⟨rfl, entries, rfl, accepted _ strict, lenient, ?_, impossible, ?_⟩
  · obtain ⟨n, hn, -, otherwise⟩ := compared _ lenient
    cases hn
    exact otherwise (by decide)
  · rcases failed _ impossible with same | ⟨n, column, -, -, named, missing, refused⟩
    · have refused : (compile keysOnly codeAndNullBound).result
          = .error (.unmappedMember "Code") := rfl
      rw [refused] at same
      cases same
    · exact ⟨column, named, missing, refused⟩

/-- An expression compiles to the same predicate, or fails with the same error, under any two
mappings of one policy that have the same identifiers for the whole paths of its columns. Their
other entries and the alias of the table do not matter, nor does an entry for a member that a
path only leads through. What is bound, and under which names, is the same under all mappings
whatever. -/
theorem compile_depends_on_columns (e : Expr) :
    (∀ m m' : Mapping, m.policy = m'.policy →
      (∀ n, e.toPredicate.result = .ok n → ∀ path ∈ n.paths, path.nullRef = false →
        m.lookup? path.dotted = m'.lookup? path.dotted) →
      (compile m e).result = (compile m' e).result) ∧
    ∀ (m m' : Mapping) (p p' : Predicate), (compile m e).result = .ok p →
      (compile m' e).result = .ok p' → p.parameters = p'.parameters := by
  constructor
  · intro m m' hpolicy hlookup
    cases hn : e.toPredicate.result with
    | error refused => rw [result_compile_eq_bind, result_compile_eq_bind, hn]; rfl
    | ok n =>
      have alike : Clause.ResolveAlike m m' (fun _ => false) n.columns := by
        intro column hcolumn
        obtain ⟨path, hpath, named, rfl⟩ := Node.mem_columns_iff.1 hcolumn
        rw [Mapping.result_resolve_congr hpolicy (hlookup n hn path hpath named)]
        exact .never _
      have stopped := stoppedBy_compile hn alike
      have never : Clause.refusal? (fun _ => false) n.columns = none := by simp [Clause.refusal?]
      rw [never] at stopped
      exact stopped.eq.symm
  · intro m m' p p' hp hp'
    obtain ⟨n, c, hn, hc, rfl⟩ := result_compile_eq_ok_iff.1 hp
    obtain ⟨n', c', hn', hc', rfl⟩ := result_compile_eq_ok_iff.1 hp'
    have same : n' = n := Except.ok.inj (hn'.symm.trans hn)
    subst same
    exact hc.parameters_eq.trans hc'.parameters_eq.symm

/-- Rows with a name, which is a member of a member, or all of them. -/
def nameOrAll : Expr := .equalsOrNull (.field "SubModel.Name") (.ofValue (.text "x"))

/-- A mapping with a column for the name alone. -/
def nameOnly : Mapping := (Mapping.empty "m").map "SubModel.Name" "name" (some "s")

/-- A mapping of another table that has the same column for the name. -/
def nameBesideParent : Mapping :=
  (Mapping.ofModel "t" ["Id", "SubModel"]).map "SubModel.Name" "name" (some "s")

theorem nameOrAll_depends_on_columns :
    nameOnly.policy = nameBesideParent.policy ∧ nameOnly.tableAlias ≠ nameBesideParent.tableAlias ∧
    nameOnly.lookup? "SubModel" ≠ nameBesideParent.lookup? "SubModel" ∧
    (∀ n, nameOrAll.toPredicate.result = .ok n → ∀ path ∈ n.paths, path.nullRef = false →
      nameOnly.lookup? path.dotted = nameBesideParent.lookup? path.dotted) ∧
    (compile nameOnly nameOrAll).result = (compile nameBesideParent nameOrAll).result ∧
    ∃ p p', (compile nameOnly nameOrAll).result = .ok p ∧
      (compile (.empty "m") nameOrAll).result = .ok p' ∧ p.text ≠ p'.text ∧
      p.parameters = p'.parameters := by
  have policies : nameOnly.policy = nameBesideParent.policy := rfl
  have lookups : ∀ n, nameOrAll.toPredicate.result = .ok n → ∀ path ∈ n.paths,
      path.nullRef = false → nameOnly.lookup? path.dotted = nameBesideParent.lookup? path.dotted := by
    intro n hn path hpath named
    cases hn
    rcases List.mem_cons.1 hpath with rfl | hpath
    · decide
    · obtain rfl := List.mem_singleton.1 hpath
      cases named
  obtain ⟨columns, parameters⟩ := compile_depends_on_columns nameOrAll
  have named : (compile nameOnly nameOrAll).result
      = .ok ⟨"((s.name = @SubModelName) OR (@SubModelName IS NULL))",
          [⟨"SubModelName", .text "x"⟩]⟩ := rfl
  have raw : (compile (.empty "m") nameOrAll).result
      = .ok ⟨"((SubModel.Name = @SubModelName) OR (@SubModelName IS NULL))",
          [⟨"SubModelName", .text "x"⟩]⟩ := rfl
  exact ⟨policies, by decide, by decide, lookups, columns _ _ policies lookups, _, _, named, raw,
    by decide, parameters _ _ _ _ named raw⟩

end WhereClause
