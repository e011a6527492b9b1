import WhereClause.Json.Printer
import WhereClause.Json.Reader
import WhereClause.Json.Record

/-!
# Predicates

What an expression compiles to: a parenthesised text with placeholders `@name`, and
the values to bind to them in the order in which they are met in the text.
-/
namespace WhereClause

/-- A value bound under a name. -/
structure Parameter where
  name : String
  value : Json
  deriving Repr, BEq

structure Predicate where
  text : String
  parameters : List Parameter
  deriving Repr, BEq

namespace Predicate

/-- The value bound under a name, the first if there are several. -/
def parameter? (p : Predicate) (name : String) : Option Json :=
  (p.parameters.find? (·.name == name)).map (·.value)

/-- The names in the order of binding. -/
def parameterNames (p : Predicate) : List String := p.parameters.map (·.name)

/-- Binds one more parameter, behind the others. -/
def bind (p : Predicate) (name : String) (value : Json) : Predicate :=
  { p with parameters := p.parameters ++ [⟨name, value⟩] }

open Json (Written)

/-- The greatest nesting of a value that stands in a parameter of a predicate. -/
def valueNesting : Nat := Json.greatestNesting - 3

def parameterOfWritten? (w : Written) : Option Parameter := do
  match ← Written.record? ["name", "value"] w with
  | [some name, some value] => some ⟨← name.text?, ← value.value? valueNesting⟩
  | _ => none

/-- The predicate that a tree says. -/
def ofWritten? (w : Written) : Option Predicate := do
  match ← Written.record? ["text", "parameters"] w with
  | [some text, some parameters] =>
    some ⟨← text.text?, ← parameters.list? parameterOfWritten?⟩
  | _ => none

/-- The predicate of a document. -/
def ofDocument? (document : String) : Option Predicate := (Json.read? document).bind ofWritten?

/-- The parameters as an array, each an object of name and value. -/
def parametersJson (p : Predicate) : Json :=
  .array (p.parameters.map fun q => .object [("name", .text q.name), ("value", q.value)])

/-- The document of a predicate, the text first. -/
def toJson (p : Predicate) : Json :=
  .object [("text", .text p.text), ("parameters", p.parametersJson)]

def document (p : Predicate) : String := p.toJson.render

end Predicate
end WhereClause
