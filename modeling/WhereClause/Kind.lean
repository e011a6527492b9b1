import WhereClause.Json.Basic

/-!
# Kinds of values

The declared kind of a constant or a member. It can differ from the kind of the
value itself: a null given for a set of keys is still a collection.
-/
namespace WhereClause

inductive Kind where
  /-- Nothing is declared. -/
  | any
  | boolean
  | integer
  | float
  | text
  /-- An array or another set of values; never a text. -/
  | collection
  /-- A value with named members. -/
  | record
  deriving DecidableEq, Repr, Inhabited

namespace Kind

def all : List Kind := [any, boolean, integer, float, text, collection, record]

/-- The name in documents. -/
def name : Kind → String
  | any => "any"
  | boolean => "boolean"
  | integer => "integer"
  | float => "float"
  | text => "text"
  | collection => "collection"
  | record => "record"

/-- The name in messages. -/
def label : Kind → String
  | any => "Any"
  | boolean => "Boolean"
  | integer => "Integer"
  | float => "Float"
  | text => "Text"
  | collection => "Collection"
  | record => "Record"

def ofName? (s : String) : Option Kind := all.find? (·.name == s)

/-- The kind that a value has by itself; null has none. -/
def of : Json → Kind
  | .null => any
  | .bool _ => boolean
  | .int _ => integer
  | .float _ => float
  | .text _ => text
  | .array _ => collection
  | .object _ => record

/-- The declared kind, or the value's own if nothing is declared. -/
def orOf (declared : Kind) (value : Json) : Kind :=
  match declared with
  | any => of value
  | declared => declared

def isCollection (k : Kind) : Bool := k == collection

theorem ofName?_name (k : Kind) : ofName? k.name = some k := by
  cases k <;> decide

end Kind
end WhereClause
