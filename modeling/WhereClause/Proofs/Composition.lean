import WhereClause.Proofs.Acceptance
import WhereClause.Proofs.Rendering

/-!
# Predicates are compiled part by part

What an operator makes of two predicates is put together from what each of them compiles
to alone: the texts around a word, in parentheses, and the parameters one after the other
(`result_compile_binary`). So nothing in one part can change the text or the order of the
parameters of the other, and of two errors the first one is reported.
-/
namespace WhereClause

open Outcome

/-- The word between two predicates that an operator joins; coalescing has none, and
arithmetic joins no predicates. -/
def BinaryOperator.word? : BinaryOperator → Option String
  | equal => some "="
  | notEqual => some "!="
  | greaterThan => some ">"
  | greaterThanOrEqual => some ">="
  | lessThan => some "<"
  | lessThanOrEqual => some "<="
  | andAlso => some "AND"
  | orElse => some "OR"
  | coalesce | add | subtract | multiply | divide => none

theorem BinaryOperator.exists_operation_of_word? {operator : BinaryOperator} {word : String}
    (h : operator.word? = some word) :
    ∃ op, operator.operation = .ok op ∧ op.token = .ok word := by
  cases operator <;> cases h <;> exact ⟨_, rfl, rfl⟩

theorem BinaryOperator.exists_word?_of_isConnective {operator : BinaryOperator}
    (h : operator.isConnective = true) : ∃ word, operator.word? = some word := by
  cases operator <;> first | exact ⟨_, rfl⟩ | cases h

/-- Two predicates around a word. -/
def Predicate.join (p : Predicate) (word : String) (q : Predicate) : Predicate :=
  ⟨Clause.group p.text word q.text, p.parameters ++ q.parameters⟩

namespace Expr

variable {operator : BinaryOperator} {op : Operation} {a b : Expr} {l r : Node}

theorem result_toPredicate_binary (hop : operator.operation = .ok op)
    (ha : a.toPredicate.result = .ok l) (hb : b.toPredicate.result = .ok r) :
    (Expr.binary operator a b).toPredicate.result = .ok (.binary op l r) := by
  obtain ⟨hl, compositeLeft⟩ := result_toPredicate_eq_ok_iff.1 ha
  obtain ⟨hr, compositeRight⟩ := result_toPredicate_eq_ok_iff.1 hb
  have joined : Node.Combines op l r (.binary op l r) := .join compositeLeft compositeRight
  rw [result_toPredicate_eq_ok_iff, result_toNode_binary_eq_ok_iff]
  exact ⟨⟨op, l, r, hop, hl, hr, joined⟩, rfl⟩

/-- The operands of a connective are predicates themselves. -/
theorem exists_toPredicate_of_connective {n : Node} (connective : operator.isConnective = true)
    (h : (Expr.binary operator a b).toPredicate.result = .ok n) :
    (∃ l, a.toPredicate.result = .ok l) ∧ ∃ r, b.toPredicate.result = .ok r := by
  rw [result_toPredicate_eq_ok_iff, result_toNode_binary_eq_ok_iff] at h
  obtain ⟨⟨op, l, r, hop, hl, hr, h⟩, -⟩ := h
  have logical : op.isLogical = true := by
    rw [← BinaryOperator.isConnective_of_operation hop]
    exact connective
  cases h with
  | join compositeLeft compositeRight =>
    exact ⟨⟨l, result_toPredicate_eq_ok_iff.2 ⟨hl, compositeLeft⟩⟩,
      r, result_toPredicate_eq_ok_iff.2 ⟨hr, compositeRight⟩⟩
  | comparison path value hop => simp [hop] at logical
  | constants a b hop => simp [hop] at logical
  | converse value path hop =>
    rw [Operation.isLogical_eq_false_of_hasConverse hop] at logical
    cases logical

end Expr

variable {m : Mapping} {a b : Expr}

theorem exists_toPredicate_of_compile {e : Expr} {p : Predicate}
    (h : (compile m e).result = .ok p) : ∃ n, e.toPredicate.result = .ok n := by
  obtain ⟨n, c, hn, hc, hp⟩ := result_compile_eq_ok_iff.1 h
  exact ⟨n, hn⟩

/-- A predicate compiles to the clause of its tree. -/
theorem result_compile_of_toPredicate {e : Expr} {n : Node} (hn : e.toPredicate.result = .ok n) :
    (compile m e).result = (Clause.ofNode m n).result >>= fun c => .ok c.predicate := by
  rw [result_compile_eq_bind, hn]
  rfl

/-- First the left predicate is compiled, then the right one, and the two are joined. -/
theorem result_compile_binary {operator : BinaryOperator} {word : String}
    (hword : operator.word? = some word) (ha : ∃ n, a.toPredicate.result = .ok n)
    (hb : ∃ n, b.toPredicate.result = .ok n) :
    (compile m (.binary operator a b)).result = (compile m a).result >>= fun p =>
      (compile m b).result >>= fun q => .ok (p.join word q) := by
  obtain ⟨l, hl⟩ := ha
  obtain ⟨r, hr⟩ := hb
  obtain ⟨op, hop, htoken⟩ := BinaryOperator.exists_operation_of_word? hword
  have compositeLeft := (Expr.result_toPredicate_eq_ok_iff.1 hl).2
  have compositeRight := (Expr.result_toPredicate_eq_ok_iff.1 hr).2
  rw [result_compile_of_toPredicate (Expr.result_toPredicate_binary hop hl hr),
    result_compile_of_toPredicate hl, result_compile_of_toPredicate hr, Node.binary,
    Clause.result_ofNode_join compositeLeft compositeRight, htoken]
  cases (Clause.ofNode m l).result with
  | error e => rfl
  | ok c =>
    cases (Clause.ofNode m r).result with
    | error e => rfl
    | ok c' => rfl

/-- A connective of two expressions compiles exactly if both of them do. Joined by a
connective or a comparison, two expressions that compile give their texts around the word,
in parentheses, and the parameters of the first in front of those of the second. Where two
predicates cannot be joined, it is because of the first, or because of the second alone. -/
theorem compile_binary_compositional (m : Mapping) (a b : Expr) :
    (∀ operator : BinaryOperator, operator.isConnective = true →
      ((∃ r, (compile m (.binary operator a b)).result = .ok r) ↔
        (∃ p, (compile m a).result = .ok p) ∧ ∃ q, (compile m b).result = .ok q)) ∧
    (∀ (operator : BinaryOperator) (word : String), operator.word? = some word →
      ∀ p q, (compile m a).result = .ok p → (compile m b).result = .ok q →
        (compile m (.binary operator a b)).result
          = .ok ⟨"(" ++ p.text ++ " " ++ word ++ " " ++ q.text ++ ")",
              p.parameters ++ q.parameters⟩) ∧
    ∀ (operator : BinaryOperator) (word : String), operator.word? = some word →
      (∃ n, a.toPredicate.result = .ok n) → (∃ n, b.toPredicate.result = .ok n) →
      ∀ error, (compile m (.binary operator a b)).result = .error error →
        (compile m a).result = .error error ∨
          (∃ p, (compile m a).result = .ok p) ∧ (compile m b).result = .error error := by
  refine ⟨fun operator connective => ⟨?_, ?_⟩, fun operator word hword p q hp hq => ?_,
    fun operator word hword ha hb error h => ?_⟩
  · rintro ⟨r, hr⟩
    obtain ⟨n, hn⟩ := exists_toPredicate_of_compile hr
    obtain ⟨word, hword⟩ := BinaryOperator.exists_word?_of_isConnective connective
    obtain ⟨ha, hb⟩ := Expr.exists_toPredicate_of_connective connective hn
    rw [result_compile_binary hword ha hb, bind_eq_ok_iff] at hr
    obtain ⟨p, hp, hr⟩ := hr
    obtain ⟨q, hq, -⟩ := bind_eq_ok_iff.1 hr
    exact ⟨⟨p, hp⟩, q, hq⟩
  · rintro ⟨⟨p, hp⟩, q, hq⟩
    obtain ⟨word, hword⟩ := BinaryOperator.exists_word?_of_isConnective connective
    have joined := result_compile_binary (m := m) hword (exists_toPredicate_of_compile hp)
      (exists_toPredicate_of_compile hq)
    rw [hp, hq] at joined
    exact ⟨_, joined⟩
  · rw [result_compile_binary hword (exists_toPredicate_of_compile hp)
      (exists_toPredicate_of_compile hq), hp, hq]
    rfl
  · rw [result_compile_binary hword ha hb, bind_eq_error_iff] at h
    rcases h with first | ⟨p, hp, h⟩
    · exact .inl first
    · rcases bind_eq_error_iff.1 h with second | ⟨q, -, h⟩
      · exact .inr ⟨⟨p, hp⟩, second⟩
      · cases h

/-- A mapping of keys that refuses all other members. -/
def keysOnly : Mapping := (Mapping.ofModel "m" ["Id"]).register (.unmapped .reject)

/-- Rows with a key that is not above a bound. -/
def keyAtMost (n : Int) : Expr := .ge (.ofValue (.int n)) (.field "Id")

/-- Rows with a code, or all of them. -/
def codeOrAll : Expr := .equalsOrNull (.field "Code") (.ofValue (.text "x"))

theorem keyAtMost_compositional :
    (compile keysOnly (keyAtMost 3)).result = .ok ⟨"(m.id <= @Id)", [⟨"Id", .int 3⟩]⟩ ∧
    (compile keysOnly (keyAtMost 9)).result = .ok ⟨"(m.id <= @Id)", [⟨"Id", .int 9⟩]⟩ ∧
    (compile keysOnly (.notEquals (keyAtMost 3) (keyAtMost 9))).result
      = .ok ⟨"((m.id <= @Id) != (m.id <= @Id))", [⟨"Id", .int 3⟩, ⟨"Id", .int 9⟩]⟩ ∧
    (∃ r, (compile keysOnly (.and (keyAtMost 3) (keyAtMost 9))).result = .ok r) ∧
    (compile keysOnly (.or (keyAtMost 3) codeOrAll)).result = .error (.unmappedMember "Code") ∧
    (compile keysOnly codeOrAll).result = .error (.unmappedMember "Code") := by
  have low : (compile keysOnly (keyAtMost 3)).result
      = .ok ⟨"(m.id <= @Id)", [⟨"Id", .int 3⟩]⟩ := rfl
  have high : (compile keysOnly (keyAtMost 9)).result
      = .ok ⟨"(m.id <= @Id)", [⟨"Id", .int 9⟩]⟩ := rfl
  obtain ⟨connects, joins, -⟩ := compile_binary_compositional keysOnly (keyAtMost 3) (keyAtMost 9)
  obtain ⟨-, -, fails⟩ := compile_binary_compositional keysOnly (keyAtMost 3) codeOrAll
  have refused : (compile keysOnly (.binary .orElse (keyAtMost 3) codeOrAll)).result
      = .error (.unmappedMember "Code") := rfl
  refine ⟨low, high, joins .notEqual "!=" rfl _ _ low high,
    (connects .andAlso rfl).2 ⟨⟨_, low⟩, _, high⟩, refused, ?_⟩
  rcases fails .orElse "OR" rfl ⟨_, rfl⟩ ⟨_, rfl⟩ _ refused with first | ⟨-, second⟩
  · rw [low] at first
    cases first
  · exact second

end WhereClause
