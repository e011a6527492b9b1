import WhereClause.Text.LetterCase

/-!
# Column names

The column that a property is stored in unless something else is registered: the
name in small letters, with an underscore before every capital but the first
character.
-/
namespace WhereClause

/-- A character that is not the first of a property name. -/
def innerColumnChars (c : Char) : List Char :=
  if Text.isUppercase c then '_' :: Text.lowercase c else Text.lowercase c

/-- The characters of the column for a property name. -/
def columnChars : List Char → List Char
  | [] => []
  | c :: cs => Text.lowercase c ++ cs.flatMap innerColumnChars

/-- The column for a property name. -/
def snakeColumn (property : String) : String := String.ofList (columnChars property.toList)

end WhereClause
