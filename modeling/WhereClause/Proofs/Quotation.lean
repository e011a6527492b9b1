import WhereClause.Proofs.Characters
import WhereClause.Proofs.Spelling

/-!
# Literals in a text

How single quotes are read in SQL: a quote opens a literal, two quotes in it are one
character of it, and any other quote ends it. A reader's place after part of a text is a
`Quoting`; `Text.visible` is what stands outside all literals. Beside them are the parts of
a clause that end outside a literal whenever they begin outside one.
-/
namespace WhereClause

/-- Where a reader of literals in single quotes stands. -/
inductive Quoting where
  | outside
  | inside
  /-- Behind a quote in a literal, which has ended unless another quote follows. -/
  | closing
  deriving DecidableEq, Repr

namespace Quoting

def step (q : Quoting) (c : Char) : Quoting :=
  match q with
  | inside => if c = '\x27' then closing else inside
  | outside | closing => if c = '\x27' then inside else outside

/-- The place behind some characters. -/
def run (q : Quoting) (cs : List Char) : Quoting := cs.foldl step q

@[simp] theorem run_nil (q : Quoting) : q.run [] = q := rfl

@[simp] theorem run_cons (q : Quoting) (c : Char) (cs : List Char) :
    q.run (c :: cs) = (q.step c).run cs := rfl

@[simp] theorem run_append (q : Quoting) (cs ds : List Char) :
    q.run (cs ++ ds) = (q.run cs).run ds := List.foldl_append

theorem step_of_ne {q : Quoting} {c : Char} (hq : q ≠ inside) (hc : c ≠ '\x27') :
    q.step c = outside := by
  cases q with
  | inside => exact (hq rfl).elim
  | _ => exact if_neg hc

theorem run_of_not_mem {cs : List Char} (h : '\x27' ∉ cs) : outside.run cs = outside := by
  induction cs with
  | nil => rfl
  | cons c cs ih =>
    have hc : c ≠ '\x27' := fun same => h (same ▸ List.mem_cons_self)
    rw [run_cons, step_of_ne (by decide) hc]
    exact ih fun hmem => h (List.mem_cons_of_mem c hmem)

/-- No character of a text in quotes ends the literal. -/
theorem run_escaped (s : List Char) : inside.run (s.flatMap Constant.escapeQuote) = inside := by
  induction s with
  | nil => rfl
  | cons c s ih =>
    have stays : inside.run (Constant.escapeQuote c) = inside := by
      unfold Constant.escapeQuote
      by_cases hc : c = '\x27'
      · rw [if_pos hc]
        rfl
      · simp [hc, step]
    rw [List.flatMap_cons, run_append, stays, ih]

end Quoting

namespace Text

open Quoting

/-- The characters outside literals, the quotes around literals left out. -/
def visible : Quoting → List Char → List Char
  | _, [] => []
  | q, c :: cs =>
    if q = inside ∨ c = '\x27' then visible (q.step c) cs else c :: visible (q.step c) cs

theorem visible_append (q : Quoting) (cs ds : List Char) :
    visible q (cs ++ ds) = visible q cs ++ visible (q.run cs) ds := by
  induction cs generalizing q with
  | nil => rfl
  | cons c cs ih =>
    rw [List.cons_append, visible, visible, run_cons, ih]
    split <;> rfl

/-- Outside, a character other than a quote is seen, and the reader stays outside. -/
theorem visible_cons {q : Quoting} {c : Char} (hq : q ≠ inside) (hc : c ≠ '\x27')
    (cs : List Char) : visible q (c :: cs) = c :: visible outside cs := by
  rw [visible, step_of_ne hq hc]
  simp [hq, hc]

theorem visible_of_not_mem {cs : List Char} (h : '\x27' ∉ cs) : visible outside cs = cs := by
  induction cs with
  | nil => rfl
  | cons c cs ih =>
    have hc : c ≠ '\x27' := fun same => h (same ▸ List.mem_cons_self)
    rw [visible_cons (by decide) hc, ih fun hmem => h (List.mem_cons_of_mem c hmem)]

/-- Nothing is seen of a text in quotes. -/
theorem visible_escaped (s : List Char) :
    visible inside (s.flatMap Constant.escapeQuote) = [] := by
  induction s with
  | nil => rfl
  | cons c s ih =>
    have hidden : visible inside (Constant.escapeQuote c) = [] := by
      unfold Constant.escapeQuote
      by_cases hc : c = '\x27'
      · rw [if_pos hc]
        rfl
      · simp [hc, visible]
    have stays : inside.run (Constant.escapeQuote c) = inside := by
      simpa using run_escaped [c]
    rw [List.flatMap_cons, visible_append, hidden, stays, ih, List.append_nil]

/-- A part of a text that ends outside literals where it begins outside. -/
def EndsOutside (cs : List Char) : Prop := outside.run cs ≠ inside

instance (cs : List Char) : Decidable (EndsOutside cs) := inferInstanceAs (Decidable (_ ≠ _))

theorem endsOutside_of_not_mem {cs : List Char} (h : '\x27' ∉ cs) : EndsOutside cs := by
  rw [EndsOutside, run_of_not_mem h]
  decide

theorem EndsOutside.append {cs ds : List Char} (hcs : outside.run cs = outside)
    (hds : EndsOutside ds) : EndsOutside (cs ++ ds) := by
  rw [EndsOutside, run_append, hcs]
  exact hds

/-- Behind such a part, any character but a quote is outside. -/
theorem EndsOutside.run_append_cons {cs : List Char} (h : EndsOutside cs) {c : Char}
    (hc : c ≠ '\x27') (ds : List Char) : outside.run (cs ++ c :: ds) = outside.run ds := by
  rw [run_append, run_cons, step_of_ne h hc]

/-- A group is outside at its end, if its parts are. -/
theorem run_group {left token right : String} (hleft : EndsOutside left.toList)
    (htoken : EndsOutside token.toList) (hright : EndsOutside right.toList) :
    outside.run (Clause.group left token right).toList = outside := by
  have opening : outside.step '(' = outside := rfl
  rw [Clause.toList_group, run_cons, opening, hleft.run_append_cons (by decide),
    htoken.run_append_cons (by decide), hright.run_append_cons (by decide), run_nil]

end Text

/-! A test for null is a group as every other clause is one. -/

theorem Clause.text_nullTest (operand : Operand) (negated : Bool) :
    (nullTest operand negated).text
      = group operand.text "IS" (if negated then "NOT NULL" else "NULL") := by
  cases negated <;> simp [text, group, ← String.toList_inj]

namespace Json

/-- An array or an object. -/
def isStructured : Json → Bool
  | .array _ | .object _ => true
  | .null | .bool _ | .int _ | .float _ | .text _ => false

end Json

namespace Constant

open Text Quoting

/-- A constant without parts that is no text has no character of its own. -/
theorem not_mentions {v : Json} (notStructured : v.isStructured = false)
    (notText : ∀ s, v ≠ .text s) (c : Char) : ¬ v.Mentions c := by
  intro h
  cases h with
  | text => exact notText _ rfl
  | _ => cases notStructured

theorem run_quote (s : String) : outside.run (quote s).toList = closing := by
  have opening : outside.step '\x27' = inside := rfl
  rw [toList_quote, run_cons, opening, run_append, run_escaped]
  rfl

theorem visible_quote (s : String) : visible outside (quote s).toList = [] := by
  have opening : outside.step '\x27' = inside := rfl
  rw [toList_quote, visible, if_pos (.inr rfl), opening, visible_append, visible_escaped,
    run_escaped]
  rfl

end Constant

namespace Clause

open Text Quoting

theorem run_wrapBefore (formatter : Option Pattern) :
    outside.run (wrapBefore formatter) = outside := by
  rcases formatter with _ | _ | _ | _ <;> rfl

theorem endsOutside_wrapAfter (formatter : Option Pattern) : EndsOutside (wrapAfter formatter) := by
  rcases formatter with _ | _ | _ | _ <;> decide

/-- A pattern closes its literals in front of the placeholder and behind it. -/
theorem endsOutside_placeholder {name : String} (hname : '\x27' ∉ name.toList)
    (formatter : Option Pattern) : EndsOutside (placeholder formatter name).toList := by
  have between : outside.run ('@' :: name.toList) = outside := by
    apply run_of_not_mem
    simp [hname]
  rw [toList_placeholder, ← List.cons_append]
  exact (EndsOutside.append between (endsOutside_wrapAfter formatter)).append
    (run_wrapBefore formatter)

end Clause
end WhereClause
