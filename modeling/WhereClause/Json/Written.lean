import WhereClause.Json.Number

/-!
# JSON as written

What a JSON text says before it is asked for values: fields in their order with
their repetitions, numbers out of range, and texts whose escapes make no text.
Such a tree has a value only if every part of it has one and if it nests no deeper
than allowed; a part that nobody asks for need not have one.
-/
namespace WhereClause.Json

inductive Written where
  | null
  | bool (value : Bool)
  | number (value : Number)
  /-- A text; `none` if a surrogate stands without its partner. -/
  | text (value : Option String)
  | array (items : List Written)
  | object (members : List (Option String × Written))
  deriving Repr, Inhabited

/-- The arrays and objects that may stand inside one another. -/
def greatestNesting : Nat := 127

namespace Written

mutual

/-- The value, if every part has one and at most `nesting` arrays and objects
stand inside one another. A repeated field keeps its last value. -/
def value? (nesting : Nat) : Written → Option Json
  | .null => some .null
  | .bool b => some (.bool b)
  | .number (.int n) => some (.int n)
  | .number (.float x) => some (.float x)
  | .number .tooLarge => none
  | .text s => s.map .text
  | .array items =>
    match nesting with
    | 0 => none
    | nesting + 1 => (values? nesting items).map .array
  | .object members =>
    match nesting with
    | 0 => none
    | nesting + 1 => (fields? nesting members).map .ofPairs

def values? (nesting : Nat) : List Written → Option (List Json)
  | [] => some []
  | item :: items => do
    let value ← item.value? nesting
    let values ← values? nesting items
    some (value :: values)

def fields? (nesting : Nat) : List (Option String × Written) → Option (List (String × Json))
  | [] => some []
  | (name, item) :: members => do
    let name ← name
    let value ← item.value? nesting
    let fields ← fields? nesting members
    some ((name, value) :: fields)

end

/-- Every part has a value, at any nesting up to the greatest. -/
def hasValue (w : Written) : Bool := (w.value? greatestNesting).isSome

end Written

mutual

/-- A value as it is written. -/
def toWritten : Json → Written
  | .null => .null
  | .bool b => .bool b
  | .int n => .number (.int n)
  | .float x => .number (.float x)
  | .text s => .text (some s)
  | .array items => .array (toWrittenItems items)
  | .object fields => .object (toWrittenFields fields)

def toWrittenItems : List Json → List Written
  | [] => []
  | item :: items => item.toWritten :: toWrittenItems items

def toWrittenFields : List (String × Json) → List (Option String × Written)
  | [] => []
  | (name, value) :: fields => (some name, value.toWritten) :: toWrittenFields fields

end

end WhereClause.Json
