import WhereClause.Proofs.Combination

/-!
# The meaning of expressions

What an expression says about a row, read off the expression alone: operators and methods
are explained by the truth of comparisons and of matches, and nothing here knows of trees,
clauses or parameters. The truths themselves are left open.
-/
namespace WhereClause

/-- When values compare and match. All that is asked of it is that comparisons can be
turned around and that one equals one. -/
structure Truth where
  compare : Operation → Json → Json → Bool
  like : Pattern → Json → Json → Bool
  compare_eq : ∀ a b, compare .eq a b = compare .eq b a
  compare_ne : ∀ a b, compare .ne a b = compare .ne b a
  compare_gt : ∀ a b, compare .gt a b = compare .lt b a
  compare_ge : ∀ a b, compare .ge a b = compare .le b a
  compare_one : compare .eq (.int 1) (.int 1) = true

/-- The values of a row at its dotted member paths. -/
abbrev Row := String → Json

/-- What an expression can mean: a value known beforehand, a member of the row, or
whether something holds of the row. -/
inductive Meaning where
  | value (v : Json)
  | path (segments : List String)
  | truth (holds : Bool)

variable {T : Truth} {row : Row}

end WhereClause
