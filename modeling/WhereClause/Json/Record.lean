import WhereClause.Json.Written

/-!
# Records in a JSON text

A record with named entries can be written as an object, its entries in any order
and among others that nobody knows, or as an array of its entries in their order,
the last of which may be left out. A known entry is written once. The reader
yields one optional part for each entry and leaves it to the caller which of them
are required.
-/
namespace WhereClause.Json.Written

/-- The text, if it is one. -/
def text? : Written → Option String
  | .text s => s
  | _ => none

/-- The members with their names, if every name is a text. -/
def named? : List (Option String × Written) → Option (List (String × Written))
  | [] => some []
  | (name, item) :: members => do
    let name ← name
    let members ← named? members
    some ((name, item) :: members)

/-- The items under a name. -/
def under (name : String) (members : List (String × Written)) : List Written :=
  (members.filter (·.1 == name)).map (·.2)

/-- The entry of a name that is written at most once. -/
def entry? (members : List (String × Written)) (name : String) : Option (Option Written) :=
  match under name members with
  | [] => some none
  | [item] => some (some item)
  | _ => none

/-- The entries of an object, in the order of `names`. -/
def objectEntries? (names : List String) (members : List (String × Written)) :
    Option (List (Option Written)) :=
  match names with
  | [] => some []
  | name :: names => do
    let entry ← entry? members name
    let entries ← objectEntries? names members
    some (entry :: entries)

/-- The entries of an array that is not longer than `names`. -/
def arrayEntries? : List String → List Written → Option (List (Option Written))
  | [], [] => some []
  | [], _ :: _ => none
  | _ :: names, [] => (arrayEntries? names []).map (none :: ·)
  | _ :: names, item :: items => (arrayEntries? names items).map (some item :: ·)

/-- The entries of a record, in the order of `names`. -/
def record? (names : List String) : Written → Option (List (Option Written))
  | .object members => (named? members).bind (objectEntries? names)
  | .array items => arrayEntries? names items
  | _ => none

/-- The items of an array, each read by `read?`. -/
def list? {α : Type} (read? : Written → Option α) : Written → Option (List α)
  | .array items => items.mapM read?
  | _ => none

/-- A choice among names: the name as a text, or as the only member of an object
that says nothing further, which `isNothing` decides. -/
def choice? (isNothing : Written → Bool) : Written → Option String
  | .text s => s
  | .object [(name, item)] => if isNothing item then name else none
  | _ => none

/-- The part is null. -/
def isNull : Written → Bool
  | .null => true
  | _ => false

end WhereClause.Json.Written
