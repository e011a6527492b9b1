import WhereClause.Command.Run
import WhereClause.Proofs.Columns

/-!
# Resolving a path

A path can be resolved by itself, or as the field of an expression. The first looks up the path
as it is; the second takes it apart at its points, puts the parts together with points for the
column, and without them for the parameter. Both agree for every text that a path can be.
-/
namespace WhereClause

open Outcome

namespace Text

/-- A text without its marks. -/
def without (mark : Char) (s : String) : String := String.ofList (s.toList.filter (· != mark))

theorem flatten_partsFrom (mark : Char) (cs begun : List Char) :
    (partsFrom mark cs begun).flatten = begun.reverse ++ cs.filter (· != mark) := by
  induction cs generalizing begun with
  | nil => simp [partsFrom]
  | cons c cs ih =>
    unfold partsFrom
    by_cases h : c = mark
    · rw [if_pos h, List.flatten_cons, ih]
      simp [h]
    · rw [if_neg h, ih]
      simp [h]

/-- The parts of a text, empty ones among them, are all of it but its marks. -/
theorem join_parts (mark : Char) (s : String) : String.join (parts mark s) = without mark s := by
  apply String.toList_injective
  rw [String.toList_join, parts, List.flatMap_map, without, String.toList_ofList]
  have flat := flatten_partsFrom mark s.toList []
  simpa [List.flatMap_def] using flat

/-- A text is left as it is if it has no marks, and only then. -/
theorem without_eq_iff {mark : Char} {s : String} :
    without mark s = s ↔ mark ∉ s.toList := by
  rw [without, ← String.toList_inj, String.toList_ofList, List.filter_eq_self]
  constructor
  · intro h mem
    simpa using h mark mem
  · intro h c hc
    have other : c ≠ mark := by
      rintro rfl
      exact h hc
    simpa using other

/-- The marks between the parts are lost with those in them. -/
theorem filter_intercalate (mark : Char) (parts : List (List Char)) :
    ([mark].intercalate parts).filter (· != mark) = parts.flatten.filter (· != mark) := by
  induction parts with
  | nil => rfl
  | cons part parts ih =>
    cases parts with
    | nil => simp
    | cons next parts =>
      rw [List.intercalate_cons_cons, List.filter_append, List.filter_append, ih,
        List.flatten_cons, List.filter_append]
      simp

end Text

section Comparing

variable {m : Mapping} {e : Expr} {names : List String} {value : Json}

/-- All that can go wrong with a column and a value that is bound is that the path of the
column does not resolve. -/
theorem Clause.result_ofComparison {op : Operation} {path : MemberPath} {literal : Literal}
    {token : String} (htoken : op.token = .ok token) (hcolumn : path.nullRef = false)
    (hbound : literal.isTested = false) :
    (Clause.ofComparison m op path literal).result
      = (m.resolve path.dotted).result >>= fun identifier =>
        .ok (.bound (.column identifier) token path.formatter
          (parameterName path.segments literal.kind) literal.value) := by
  unfold Literal.isTested at hbound
  simp only [Clause.ofComparison, Clause.operand, Traced.result_bind, Traced.result_ofResult,
    htoken, hcolumn, hbound, Bool.false_eq_true, if_false]
  cases (m.resolve path.dotted).result with
  | error refused => rfl
  | ok identifier => rfl

/-- A chain compared with a value is a comparison of its path. -/
theorem Expr.Chain.exists_toPredicate (h : e.Chain names) (value : Json) :
    ∃ kind, (e.equals (.ofValue value)).toPredicate.result
      = .ok (.binary .eq (.member (.ofSegments kind names)) (.literal (.inferred value))) := by
  obtain ⟨kind, hnode⟩ := h.exists_toNode
  have given : (Expr.ofValue value).toNode.result = .ok (.literal (.inferred value)) := rfl
  have combined : Node.Combines .eq (.member (.ofSegments kind names)) (.literal (.inferred value))
      (.binary .eq (.member (.ofSegments kind names)) (.literal (.inferred value))) :=
    .comparison _ _ rfl
  have operation : BinaryOperator.operation .equal = .ok .eq := rfl
  have tree := Expr.result_toNode_binary_eq_ok_iff.2 ⟨.eq, _, _, operation, hnode, given, combined⟩
  exact ⟨kind, Expr.result_toPredicate_eq_ok_iff.2 ⟨tree, rfl⟩⟩

/-- A chain that equals a value compiles exactly if the path it leads along resolves. -/
theorem result_compile_equals (h : e.Chain names) (hvalue : value.isNull = false) :
    (compile m (e.equals (.ofValue value))).result
      = (m.resolve (".".intercalate names)).result >>= fun identifier =>
        .ok (Clause.bound (.column identifier) "=" none (parameterName names (Kind.of value))
          value).predicate := by
  obtain ⟨kind, tree⟩ := h.exists_toPredicate value
  have token : Operation.eq.token = .ok "=" := rfl
  have column : (MemberPath.ofSegments kind names).nullRef = false := rfl
  have bound : (Literal.inferred value).isTested = false := by
    simp [Literal.isTested, Literal.isNull, Literal.inferred, Literal.plain, hvalue]
  rw [result_compile_of_toPredicate tree, Node.binary, Clause.ofNode,
    Clause.result_ofComparison token column bound, bind_assoc]
  rfl

end Comparing

/-- The rows whose field at a path equals one. -/
def Expr.equalsOne (path : String) : Expr := .equals (.field path) (.ofValue (.int 1))

/-- The predicate for the field at a path that has an identifier. -/
def Predicate.equalsOne (path identifier : String) : Predicate :=
  ⟨"(" ++ identifier ++ " = @" ++ Text.without '.' path ++ ")", [⟨Text.without '.' path, .int 1⟩]⟩

section Agreement

variable {m : Mapping} {path : String}

/-- The field compiles to what its path resolves to: the parts of the path with points between
them are looked up, and without the points they are the name of the parameter. -/
theorem result_compile_equalsOne (m : Mapping) (path : String) :
    (compile m (.equalsOne path)).result
      = (m.resolve path).result >>= fun identifier => .ok (.equalsOne path identifier) := by
  have chain := Expr.chain_field path
  have dotted : ".".intercalate (Text.parts '.' path) = path := Text.intercalate_parts '.' path
  have name : parameterName (Text.parts '.' path) (Kind.of (.int 1)) = Text.without '.' path := by
    have scalar : (Kind.of (.int 1)).isCollection = false := rfl
    rw [parameterName, Text.join_parts, scalar]
    simp
  rw [Expr.equalsOne, result_compile_equals chain rfl, dotted, name]
  have predicate : ∀ identifier, (Clause.bound (.column identifier) "=" none
      (Text.without '.' path) (.int 1)).predicate = .equalsOne path identifier := by
    intro identifier
    have infixed : " = @" = " " ++ "=" ++ " " ++ "@" := rfl
    simp only [Clause.predicate, Clause.text, Clause.group, Clause.placeholder, Operand.text,
      Clause.parameters, Predicate.equalsOne, infixed, String.append_assoc]
  simp only [predicate]

theorem Mapping.result_resolve_eq_error_iff {error : Error} :
    (m.resolve path).result = .error error
      ↔ error = .unmappedMember path ∧ m.policy = .reject ∧ m.lookup? path = none := by
  cases found : m.lookup? path with
  | some identifier => simp [result_resolve_of_lookup? found]
  | none =>
    cases policy : m.policy with
    | fallback => simp [result_resolve_of_fallback found policy]
    | reject => simp [result_resolve_of_reject found policy, eq_comm]

/-- What a path resolves to is registered for it, or else the path itself. -/
theorem Mapping.lookup?_of_resolve {identifier : String}
    (h : (m.resolve path).result = .ok identifier) :
    m.lookup? path = (if m.contains path then some identifier else none) ∧
      (m.contains path = false → identifier = path) := by
  cases found : m.lookup? path with
  | some registered =>
    have registers : m.contains path = true := by simp [contains, found]
    rw [result_resolve_of_lookup? found] at h
    cases h
    simp [registers]
  | none =>
    have unregistered : m.contains path = false := by simp [contains, found]
    cases policy : m.policy with
    | fallback =>
      rw [result_resolve_of_fallback found policy] at h
      cases h
      simp [unregistered]
    | reject =>
      rw [result_resolve_of_reject found policy] at h
      cases h

theorem Run.resolvePath_of_ok {identifier : String} (h : (m.resolve path).result = .ok identifier) :
    (resolvePath m path).2 = .ok (.object [("identifier", .text identifier),
      ("mapped", .bool (m.contains path)), ("path", .text path)]) := by
  show (liftError (m.resolve path).result).map _ = _
  rw [h]
  rfl

theorem Run.resolvePath_of_error {error : Error} (h : (m.resolve path).result = .error error) :
    (resolvePath m path).2 = .error (.expression error) := by
  show (liftError (m.resolve path).result).map _ = _
  rw [h]
  rfl

theorem Run.resolvePath_eq_ok_iff {answer : Json} :
    (resolvePath m path).2 = .ok answer ↔ ∃ identifier, (m.resolve path).result = .ok identifier ∧
      answer = .object [("identifier", .text identifier), ("mapped", .bool (m.contains path)),
        ("path", .text path)] := by
  cases resolved : (m.resolve path).result with
  | error refused => simp [resolvePath_of_error resolved]
  | ok identifier => simp [resolvePath_of_ok resolved, eq_comm]

theorem Run.resolvePath_eq_error_iff {error : CommandError} :
    (resolvePath m path).2 = .error error
      ↔ ∃ refused, (m.resolve path).result = .error refused ∧ error = .expression refused := by
  cases resolved : (m.resolve path).result with
  | error refused => simp [resolvePath_of_error resolved, eq_comm]
  | ok identifier => simp [resolvePath_of_ok resolved]

theorem compile_equalsOne_eq_ok_iff {p : Predicate} :
    (compile m (.equalsOne path)).result = .ok p ↔ ∃ identifier,
      (m.resolve path).result = .ok identifier ∧ .equalsOne path identifier = p := by
  simp only [result_compile_equalsOne, bind_eq_ok_iff, Except.ok.injEq]

theorem compile_equalsOne_eq_error_iff {error : Error} :
    (compile m (.equalsOne path)).result = .error error
      ↔ (m.resolve path).result = .error error := by
  simp [result_compile_equalsOne, bind_eq_error_iff]

end Agreement

/-- Resolving a path and compiling the field at it agree, for every mapping and every text. The
path resolves to an identifier exactly if the field compiles, and then to a comparison of that
identifier with one parameter, named by the path without its points. The answer says whether
the path is registered; if it is not, the identifier is the path. Both fail, and because of
the path, exactly if it is not registered and the policy is to refuse it. -/
theorem resolvePath_agrees_compile (m : Mapping) (path : String) :
    (∀ answer, (Run.resolvePath m path).2 = .ok answer → ∃ identifier mapped,
      answer = .object [("identifier", .text identifier), ("mapped", .bool mapped),
        ("path", .text path)] ∧
      (compile m (.equalsOne path)).result = .ok (.equalsOne path identifier) ∧
      m.lookup? path = (if mapped then some identifier else none) ∧
      (mapped = false → identifier = path)) ∧
    (∀ p, (compile m (.equalsOne path)).result = .ok p → ∃ identifier mapped,
      (Run.resolvePath m path).2 = .ok (.object [("identifier", .text identifier),
        ("mapped", .bool mapped), ("path", .text path)]) ∧
      p = .equalsOne path identifier) ∧
    (∀ error, (Run.resolvePath m path).2 = .error error ↔
      error = .expression (.unmappedMember path) ∧ m.policy = .reject ∧ m.lookup? path = none) ∧
    ∀ error, (compile m (.equalsOne path)).result = .error error ↔
      error = .unmappedMember path ∧ m.policy = .reject ∧ m.lookup? path = none := by
  -- Both sides are read off one resolution of the path, that of the path as it was given.
  refine ⟨fun answer h => ?_, fun p h => ?_, fun error => ?_, fun error => ?_⟩
  · obtain ⟨identifier, resolved, rfl⟩ := Run.resolvePath_eq_ok_iff.1 h
    have compiled := compile_equalsOne_eq_ok_iff.2 ⟨identifier, resolved, rfl⟩
    obtain ⟨registered, raw⟩ := Mapping.lookup?_of_resolve resolved
    exact ⟨identifier, m.contains path, rfl, compiled, registered, raw⟩
  · obtain ⟨identifier, resolved, rfl⟩ := compile_equalsOne_eq_ok_iff.1 h
    have answered := Run.resolvePath_eq_ok_iff.2 ⟨identifier, resolved, rfl⟩
    exact ⟨identifier, m.contains path, answered, rfl⟩
  · rw [Run.resolvePath_eq_error_iff]
    constructor
    · rintro ⟨refused, h, rfl⟩
      obtain ⟨rfl, refuses⟩ := Mapping.result_resolve_eq_error_iff.1 h
      exact ⟨rfl, refuses⟩
    · rintro ⟨rfl, refuses⟩
      exact ⟨_, Mapping.result_resolve_eq_error_iff.2 ⟨rfl, refuses⟩, rfl⟩
  · rw [compile_equalsOne_eq_error_iff]
    exact Mapping.result_resolve_eq_error_iff

/-- A mapping that knows one path, with an empty part, and refuses all other ones. -/
def gapOnly : Mapping := { (Mapping.empty "m").map "Sub..Name" "name" none with policy := .reject }

theorem gapOnly_agrees :
    (Run.resolvePath gapOnly "Sub..Name").2 = .ok (.object [("identifier", .text "m.name"),
      ("mapped", .bool true), ("path", .text "Sub..Name")]) ∧
    (compile gapOnly (.equalsOne "Sub..Name")).result
      = .ok ⟨"(m.name = @SubName)", [⟨"SubName", .int 1⟩]⟩ ∧
    (Run.resolvePath gapOnly "").2 = .error (.expression (.unmappedMember "")) ∧
    (compile gapOnly (.equalsOne "")).result = .error (.unmappedMember "") := by
  have resolved : (Run.resolvePath gapOnly "Sub..Name").2
      = .ok (.object [("identifier", .text "m.name"), ("mapped", .bool true),
        ("path", .text "Sub..Name")]) := rfl
  obtain ⟨agrees, -⟩ := resolvePath_agrees_compile gapOnly "Sub..Name"
  obtain ⟨-, -, refused, refusedField⟩ := resolvePath_agrees_compile gapOnly ""
  obtain ⟨identifier, mapped, answer, compiled, -⟩ := agrees _ resolved
  have same : identifier = "m.name" := by
    simp only [Json.object.injEq, List.cons.injEq, Prod.mk.injEq, Json.text.injEq] at answer
    exact answer.1.2.symm
  rw [same] at compiled
  exact ⟨resolved, compiled, (refused _).2 ⟨rfl, rfl, rfl⟩, (refusedField _).2 ⟨rfl, rfl, rfl⟩⟩

end WhereClause
