import WhereClause.Json.Printer

/-!
# Constants in a clause

How a constant stands in the text itself, where two constants are compared. Text is
put in single quotes and a quote inside it is doubled; every other value but null
is written as JSON.
-/
namespace WhereClause.Constant

/-- A character inside single quotes. -/
def escapeQuote (c : Char) : List Char :=
  if c = '\x27' then ['\x27', '\x27'] else [c]

/-- A text in single quotes. -/
def quote (s : String) : String :=
  String.ofList ('\x27' :: (s.toList.flatMap escapeQuote ++ ['\x27']))

/-- A constant as it stands in a clause. -/
def render : Json → String
  | .null => "NULL"
  | .text s => quote s
  | other => other.render

end WhereClause.Constant
