import WhereClause.Proofs.Chains
import WhereClause.Proofs.Places

/-!
# Comparisons with null

A column is never compared with null by a token: it is tested, and only equality and
inequality are tests (`Expr.Compares.result_compile`). Two constants are another matter: they
are written out as they are, null as `NULL`, and a captured member that is null is such a
constant.
-/
namespace WhereClause

open Outcome

section Comparing

variable {m : Mapping} {a b k : Expr} {op : Operation} {names : List String} {kind : Kind}

/-- The expression compares one operand with another by an operation: with an operator, from
either side, with a method that matches text, or with a look-up in a set. The methods that
hold when no value is bound are not among them. -/
inductive Expr.Compares (a b : Expr) : Operation → Expr → Prop
  | operator {operator : BinaryOperator} {op : Operation} (hop : operator.operation = .ok op)
      (compares : op.hasConverse = true) : Compares a b op (.binary operator a b)
  | turned {operator : BinaryOperator} {op : Operation} (hop : operator.operation = .ok op)
      (compares : op.hasConverse = true) : Compares a b op.converse (.binary operator b a)
  | matched {method : Method} {pattern : Pattern} (hmethod : method.pattern? = some pattern) :
      Compares a b .like (.call method (some a) [b])
  | found : Compares a b .within (.call .contains (some b) [a])
  | foundIn : Compares a b .within (.call .contains none [b, a])

/-- The tree of a comparison of a path with null: the path, which a match puts in a pattern, and
the null, which is not forced. -/
theorem Expr.Compares.exists_toNode (h : Compares a b op k) (ha : a.Chain names)
    (hb : b.HasSort (.literal .null kind)) :
    ∃ path, path.nullRef = false ∧ path.dotted = ".".intercalate names ∧
      k.toNode.result = .ok (.binary op (.member path) (.literal (.null kind))) := by
  obtain ⟨declared, hpath⟩ := ha.exists_toNode
  obtain ⟨n, hn, hsort⟩ := hb.exists_toNode
  obtain ⟨⟨kind, value, forced⟩, rfl, rfl, rfl⟩ := Node.sort_eq_literal_iff.1 hsort
  obtain rfl : forced = false := (toNode_expressible hn).forced_of_literal
  cases h with
  | operator hop compares =>
    have combined := Node.Combines.comparison (.ofSegments declared names) (.null kind)
      (Operation.isLogical_eq_false_of_hasConverse compares)
    exact ⟨_, rfl, rfl, result_toNode_binary_eq_ok_iff.2 ⟨_, _, _, hop, hpath, hn, combined⟩⟩
  | turned hop compares =>
    have combined := Node.Combines.converse (.null kind) (.ofSegments declared names) compares
    exact ⟨_, rfl, rfl, result_toNode_binary_eq_ok_iff.2 ⟨_, _, _, hop, hn, hpath, combined⟩⟩
  | matched hmethod =>
    have expanded := Node.Expands.matched _ (.ofSegments declared names) (.null kind) hmethod
    exact ⟨_, rfl, rfl, result_toNode_call_eq_ok_iff.2 ⟨_, _, hpath, hn, expanded⟩⟩
  | found =>
    have expanded := Node.Expands.membership (.null kind) (.ofSegments declared names) (.inl rfl)
    exact ⟨_, rfl, rfl, result_toNode_call_eq_ok_iff.2 ⟨_, _, hn, hpath, expanded⟩⟩
  | foundIn =>
    have expanded := Node.Expands.membership (.null kind) (.ofSegments declared names) (.inl rfl)
    exact ⟨_, rfl, rfl, result_toNode_pair_eq_ok_iff.2 ⟨_, _, hn, hpath, expanded, .inr ⟨_, rfl⟩⟩⟩

/-- The operations that a comparison has all have a token. -/
theorem Expr.Compares.exists_token (h : Compares a b op k) : ∃ token, op.token = .ok token := by
  cases h with
  | @operator _ op hop compares => cases op <;> first | exact ⟨_, rfl⟩ | cases compares
  | @turned _ op hop compares => cases op <;> first | exact ⟨_, rfl⟩ | cases compares
  | matched => exact ⟨_, rfl⟩
  | found => exact ⟨_, rfl⟩
  | foundIn => exact ⟨_, rfl⟩

theorem Expr.Compares.hasSort (h : Compares a b op k) (ha : a.Chain names)
    (hb : b.HasSort (.literal .null kind)) : k.HasSort .predicate := by
  obtain ⟨path, -, -, hk⟩ := h.exists_toNode ha hb
  exact hasSort_iff.2 ⟨_, hk, rfl⟩

/-- A column that is tested for null is resolved first, then the operation is asked for the
sense of the test. -/
theorem Clause.result_ofComparison_null {path : MemberPath} {token : String}
    (htoken : op.token = .ok token) (hcolumn : path.nullRef = false) :
    (Clause.ofComparison m op path (.null kind)).result
      = (m.resolve path.dotted).result >>= fun identifier =>
        nullSense op >>= fun negated => .ok (.nullTest (.column identifier) negated) := by
  have tested : ((Literal.null kind).isNull && !(Literal.null kind).forced) = true := rfl
  simp only [Clause.ofComparison, Clause.operand, Traced.result_bind, Traced.result_ofResult,
    htoken, hcolumn, tested, Bool.false_eq_true, if_false, if_true]
  cases (m.resolve path.dotted).result with
  | error refused => rfl
  | ok identifier => rfl

theorem Clause.predicate_nullTest (identifier : String) (negated : Bool) :
    (Clause.nullTest (.column identifier) negated).predicate
      = ⟨"(" ++ identifier ++ (if negated then " IS NOT NULL)" else " IS NULL)"), []⟩ := by
  cases negated <;> simp [predicate, text, parameters, Operand.text, String.append_assoc]

theorem Clause.predicate_null_left (word : String) (w : Json) :
    (Clause.constants .null word w).predicate
      = ⟨"(NULL " ++ word ++ " " ++ Constant.render w ++ ")", []⟩ := by
  simp [predicate, text, parameters, group, Constant.render, String.append_assoc]

theorem Clause.predicate_null_right (v : Json) (word : String) :
    (Clause.constants v word .null).predicate
      = ⟨"(" ++ Constant.render v ++ " " ++ word ++ " NULL)", []⟩ := by
  simp [predicate, text, parameters, group, Constant.render, String.append_assoc]

theorem Clause.nullSense_eq_ok_iff {negated : Bool} :
    nullSense op = .ok negated ↔ op = .eq ∧ negated = false ∨ op = .ne ∧ negated = true := by
  cases op <;> cases negated <;> simp [nullSense]

theorem Clause.nullSense_of_ne (notEq : op ≠ .eq) (notNe : op ≠ .ne) :
    nullSense op = .error (.unsupportedOperator (op.label ++ " against null")) := by
  cases op <;> first | rfl | contradiction

/-- A column is compared with null by a test. -/
theorem Expr.Compares.result_compile (h : Compares a b op k) (ha : a.Chain names)
    (hb : b.HasSort (.literal .null kind)) :
    (compile m k).result = (m.resolve (".".intercalate names)).result >>= fun identifier =>
      Clause.nullSense op >>= fun negated =>
        .ok (Clause.nullTest (.column identifier) negated).predicate := by
  obtain ⟨path, hcolumn, dotted, hk⟩ := h.exists_toNode ha hb
  obtain ⟨token, htoken⟩ := h.exists_token
  have tree := result_toPredicate_eq_ok_iff.2 ⟨hk, rfl⟩
  rw [result_compile_of_toPredicate tree, Node.binary, Clause.ofNode,
    Clause.result_ofComparison_null htoken hcolumn, dotted, bind_assoc]
  simp only [bind_assoc]
  rfl

/-- Two constants are compared where they stand, with null written out. -/
theorem result_compile_constants {operator : BinaryOperator} {word : String} {v w : Json}
    {kind' : Kind} (hword : operator.word? = some word) (compares : operator.isConnective = false)
    (ha : a.HasSort (.literal v kind)) (hb : b.HasSort (.literal w kind')) :
    (compile m (.binary operator a b)).result
      = .ok (Clause.constants v word w).predicate := by
  obtain ⟨op, hop, htoken⟩ := BinaryOperator.exists_operation_of_word? hword
  obtain ⟨n, hn, hsort⟩ := ha.exists_toNode
  obtain ⟨l, rfl, rfl, -⟩ := Node.sort_eq_literal_iff.1 hsort
  obtain ⟨n', hn', hsort'⟩ := hb.exists_toNode
  obtain ⟨l', rfl, rfl, -⟩ := Node.sort_eq_literal_iff.1 hsort'
  have combined := Node.Combines.constants l l'
    ((BinaryOperator.isConnective_of_operation hop).symm.trans compares)
  have node := Expr.result_toNode_binary_eq_ok_iff.2 ⟨op, _, _, hop, hn, hn', combined⟩
  have tree := Expr.result_toPredicate_eq_ok_iff.2 ⟨node, rfl⟩
  rw [result_compile_of_toPredicate tree, Node.binary, Clause.result_ofNode_constants, htoken]
  rfl

end Comparing

/-- The whole expression compiles, and at the place of the part it says this. -/
def Expr.WrittenAs (m : Mapping) (above : List Around) (part : Expr) (p : Predicate) : Prop :=
  ∃ place, IsPlace m above place ∧ (compile m (plug above part)).result = .ok (place.fill p)

/-- What a part of an expression that compiles says by itself it says at its place. -/
theorem Expr.writtenAs_of_compile {m : Mapping} {above : List Around} {part : Expr}
    {whole : Predicate} (h : (compile m (plug above part)).result = .ok whole)
    (hpart : part.HasSort .predicate) :
    ∃ p, (compile m part).result = .ok p ∧ WrittenAs m above part p := by
  obtain ⟨place, hplace⟩ := exists_place_of_compile h hpart
  obtain ⟨p, hp, rfl⟩ := hplace.exists_fill h hpart
  exact ⟨p, hp, place, hplace, h⟩

/-- Wherever in an expression a column is compared with null, it is tested for null by equality
or inequality, and every other operation is refused. Where two constants are compared by one of
these two, null is written `NULL`. -/
theorem compile_null_comparisons (m : Mapping) (above : List Expr.Around) :
    (∀ k a b op names kind whole, Expr.Compares a b op k → a.Chain names →
      b.HasSort (.literal .null kind) → (compile m (.plug above k)).result = .ok whole →
        ∃ identifier, m.identifier? (".".intercalate names) = some identifier ∧
          (op = .eq ∧ Expr.WrittenAs m above k ⟨"(" ++ identifier ++ " IS NULL)", []⟩ ∨
            op = .ne ∧ Expr.WrittenAs m above k ⟨"(" ++ identifier ++ " IS NOT NULL)", []⟩)) ∧
    (∀ k a b op names kind identifier, Expr.Compares a b op k → a.Chain names →
      b.HasSort (.literal .null kind) → op ≠ .eq → op ≠ .ne →
      m.identifier? (".".intercalate names) = some identifier →
      (∃ other whole, other.HasSort .predicate ∧
        (compile m (.plug above other)).result = .ok whole) →
        (compile m (.plug above k)).result
          = .error (.unsupportedOperator (op.label ++ " against null"))) ∧
    ∀ operator word a b v w kind kind' whole,
      (operator = .equal ∧ word = "=" ∨ operator = .notEqual ∧ word = "!=") →
      a.HasSort (.literal v kind) → b.HasSort (.literal w kind') →
      (compile m (.plug above (.binary operator a b))).result = .ok whole →
        (v = .null → Expr.WrittenAs m above (.binary operator a b)
          ⟨"(NULL " ++ word ++ " " ++ Constant.render w ++ ")", []⟩) ∧
        (w = .null → Expr.WrittenAs m above (.binary operator a b)
          ⟨"(" ++ Constant.render v ++ " " ++ word ++ " NULL)", []⟩) := by
  refine ⟨fun k a b op names kind whole hk ha hb h => ?_,
    fun k a b op names kind identifier hk ha hb notEq notNe hidentifier hother => ?_,
    fun operator word a b v w kind kind' whole hword ha hb h => ?_⟩
  · obtain ⟨p, hp, written⟩ := Expr.writtenAs_of_compile h (hk.hasSort ha hb)
    rw [hk.result_compile ha hb, bind_eq_ok_iff] at hp
    obtain ⟨identifier, hidentifier, hp⟩ := hp
    obtain ⟨negated, sense, hp⟩ := bind_eq_ok_iff.1 hp
    cases hp
    refine ⟨identifier, Mapping.result_resolve_eq_ok_iff.1 hidentifier, ?_⟩
    rcases Clause.nullSense_eq_ok_iff.1 sense with ⟨rfl, rfl⟩ | ⟨rfl, rfl⟩
    · rw [Clause.predicate_nullTest] at written
      exact .inl ⟨rfl, written⟩
    · rw [Clause.predicate_nullTest] at written
      exact .inr ⟨rfl, written⟩
  · obtain ⟨other, whole, hother, h⟩ := hother
    obtain ⟨place, hplace⟩ := Expr.exists_place_of_compile h hother
    refine hplace.result_eq_error (hk.hasSort ha hb) ?_
    rw [hk.result_compile ha hb, Mapping.result_resolve_eq_ok_iff.2 hidentifier]
    show Clause.nullSense op >>= _ = _
    rw [Clause.nullSense_of_ne notEq notNe]
    rfl
  · have worded : operator.word? = some word ∧ operator.isConnective = false := by
      rcases hword with ⟨rfl, rfl⟩ | ⟨rfl, rfl⟩ <;> exact ⟨rfl, rfl⟩
    have compiled := result_compile_constants (m := m) worded.1 worded.2 ha hb
    have hpart : (Expr.binary operator a b).HasSort .predicate :=
      Expr.hasSort_predicate_iff.2 (exists_toPredicate_of_compile compiled)
    obtain ⟨p, hp, written⟩ := Expr.writtenAs_of_compile h hpart
    obtain rfl : (Clause.constants v word w).predicate = p := by
      rw [compiled] at hp
      exact Except.ok.inj hp
    constructor
    · rintro rfl
      rwa [Clause.predicate_null_left] at written
    · rintro rfl
      rwa [Clause.predicate_null_right] at written

/-- A captured object has no key, and its key is compared with one. -/
def missingKey : Expr := .equals (.get (.ofValue (.object [])) "Id") (.ofValue (.int 1))

/-- A captured null that is compared with a constant is not tested for null. -/
theorem missingKey_not_tested :
    (Expr.get (.ofValue (.object [])) "Id").HasSort (.literal .null .any) ∧
    (compile (.empty "m") missingKey).result = .ok ⟨"(NULL = 1)", []⟩ ∧
    ¬ " IS NULL".toList <:+: "(NULL = 1)".toList :=
  ⟨.ofObject "Id" .any (.constant _ _), rfl, by decide +kernel⟩

/-- Rows of adults. -/
def adult : Expr := .ge (.field "Age") (.ofValue (.int 18))

/-- Null in front of the name of another table. -/
def unnamed : Expr := .equals (.convert (.ofValue .null)) (.field "Sub.Name")

/-- A name that begins with a captured text that is missing. -/
def nameBeginsMissing : Expr :=
  .startsWith (.field "Name") (.get (.ofValue (.object [])) "text")

/-- Beside another comparison a column is tested, a match with null is refused, and null
stands next to a constant. -/
theorem adult_null_comparisons :
    (compile (.empty "m") (.and adult unnamed)).result
      = .ok ⟨"((Age >= @Age) AND (Sub.Name IS NULL))", [⟨"Age", .int 18⟩]⟩ ∧
    Expr.WrittenAs (.empty "m") [.rightOf .andAlso adult] unnamed ⟨"(Sub.Name IS NULL)", []⟩ ∧
    (compile (.empty "m") (.and adult nameBeginsMissing)).result
      = .error (.unsupportedOperator "Like against null") ∧
    Expr.WrittenAs (.empty "m") [.rightOf .andAlso adult] missingKey ⟨"(NULL = 1)", []⟩ := by
  obtain ⟨tests, refuses, writesOut⟩ :=
    compile_null_comparisons (.empty "m") [.rightOf .andAlso adult]
  have whole : (compile (.empty "m") (.and adult unnamed)).result
      = .ok ⟨"((Age >= @Age) AND (Sub.Name IS NULL))", [⟨"Age", .int 18⟩]⟩ := rfl
  have turned : Expr.Compares (.field "Sub.Name") (.convert (.ofValue .null)) .eq unnamed :=
    @Expr.Compares.turned _ _ .equal .eq rfl rfl
  have column : (Expr.field "Sub.Name").Chain ["Sub", "Name"] :=
    .next "Name" .any (.first "Sub" .any .subject)
  have null : (Expr.convert (.ofValue .null)).HasSort (.literal .null .any) :=
    .convert (.constant .null .any)
  have matched : Expr.Compares (.field "Name") (.get (.ofValue (.object [])) "text") .like
      nameBeginsMissing := .matched rfl
  have missing (name : String) :
      (Expr.get (.ofValue (.object [])) name).HasSort (.literal .null .any) :=
    .ofObject name .any (.constant _ _)
  have named : unnamed.HasSort .predicate :=
    .binary null (.ofPath "Name" .any (.ofSubject "Sub" .any .subject))
      (.converse _ _ rfl rfl nofun)
  have constants : (compile (.empty "m") (.and adult missingKey)).result
      = .ok ⟨"((Age >= @Age) AND (NULL = 1))", [⟨"Age", .int 18⟩]⟩ := rfl
  refine ⟨whole, ?_, ?_, ?_⟩
  · obtain ⟨identifier, hidentifier, ⟨-, written⟩ | ⟨unequal, -⟩⟩ :=
      tests _ _ _ _ _ _ _ turned column null whole
    · cases hidentifier
      exact written
    · cases unequal
  · exact refuses _ _ _ _ _ _ "Name" matched (.first "Name" .any .subject) (missing "text") nofun
      nofun rfl ⟨unnamed, _, named, whole⟩
  · exact (writesOut .equal "=" _ _ .null (.int 1) _ _ _ (.inl ⟨rfl, rfl⟩) (missing "Id")
      (.constant _ _) constants).1 rfl

end WhereClause
