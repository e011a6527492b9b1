import WhereClause.Json.Number
import WhereClause.Json.Quoted

/-!
# Writing JSON

The compact form: no white space, fields in the order in which they stand. Each
function writes a value in front of the text that is to follow, so that nothing
is ever appended and a reader can be run on what was written and on the rest.
-/
namespace WhereClause.Json

mutual

/-- A value in front of what follows it. -/
def write : Json → List Char → List Char
  | .null, rest => 'n' :: 'u' :: 'l' :: 'l' :: rest
  | .bool true, rest => 't' :: 'r' :: 'u' :: 'e' :: rest
  | .bool false, rest => 'f' :: 'a' :: 'l' :: 's' :: 'e' :: rest
  | .int n, rest => intChars n ++ rest
  | .float x, rest => floatChars x ++ rest
  | .text s, rest => Quoted.write s rest
  | .array [], rest => '[' :: ']' :: rest
  | .array (item :: items), rest => '[' :: item.write (writeItems items (']' :: rest))
  | .object [], rest => '\x7b' :: '\x7d' :: rest
  | .object ((name, value) :: fields), rest =>
    '\x7b' :: Quoted.write name (':' :: value.write (writeFields fields ('\x7d' :: rest)))

/-- The further items of an array, a comma before each. -/
def writeItems : List Json → List Char → List Char
  | [], rest => rest
  | item :: items, rest => ',' :: item.write (writeItems items rest)

/-- The further fields of an object, a comma before each. -/
def writeFields : List (String × Json) → List Char → List Char
  | [], rest => rest
  | (name, value) :: fields, rest =>
    ',' :: Quoted.write name (':' :: value.write (writeFields fields rest))

end

/-- The compact text of a value. -/
def render (j : Json) : String := String.ofList (j.write [])

end WhereClause.Json
