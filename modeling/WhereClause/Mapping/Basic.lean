import WhereClause.Keyed
import WhereClause.Log.Traced
import WhereClause.Mapping.Column

/-!
# Mappings

The identifiers of member paths for one table. Paths are dotted and always whole:
`SubModel.Name` has an entry of its own and does not depend on the one of
`SubModel`. A mapping is the outcome of registration steps, of which the last one
for a path counts.
-/
namespace WhereClause

/-- What becomes of a path that is not registered. -/
inductive Policy where
  /-- The path itself is the identifier. -/
  | fallback
  /-- The expression is refused. -/
  | reject
  deriving DecidableEq, Repr, Inhabited

namespace Policy

def all : List Policy := [fallback, reject]

/-- The name in documents. -/
def name : Policy → String
  | fallback => "fallback"
  | reject => "reject"

def ofName? (s : String) : Option Policy := all.find? (·.name == s)

end Policy

structure Mapping where
  tableAlias : String
  policy : Policy
  /-- The identifiers in ascending order of path. -/
  entries : List (String × String)
  deriving DecidableEq, Repr

/-- A step in setting up a mapping. -/
inductive Registration where
  /-- Registers properties under their column names. -/
  | autoMap (properties : List String)
  /-- Registers a column for a path, of the table or of another alias. -/
  | map (path column : String) (otherAlias : Option String)
  | unmapped (policy : Policy)
  deriving DecidableEq, Repr

namespace Mapping

/-- The mapping without entries. -/
def empty (tableAlias : String) : Mapping := ⟨tableAlias, .fallback, []⟩

/-- Registers a column for a path, in place of an earlier registration. -/
def map (m : Mapping) (path column : String) (otherAlias : Option String) : Mapping :=
  { m with
    entries := Keyed.insert path (otherAlias.getD m.tableAlias ++ "." ++ column) m.entries }

/-- Registers each property under its column name. -/
def autoMap (m : Mapping) (properties : List String) : Mapping :=
  properties.foldl (fun m property => m.map property (snakeColumn property) none) m

def register (m : Mapping) : Registration → Mapping
  | .autoMap properties => m.autoMap properties
  | .map path column otherAlias => m.map path column otherAlias
  | .unmapped policy => { m with policy := policy }

/-- The mapping that some steps set up. -/
def build (tableAlias : String) (steps : List Registration) : Mapping :=
  steps.foldl register (empty tableAlias)

/-- The mapping of a model that names its properties. -/
def ofModel (tableAlias : String) (properties : List String) : Mapping :=
  build tableAlias [.autoMap properties]

/-- The identifier registered for a path. -/
def lookup? (m : Mapping) (path : String) : Option String := Keyed.find? m.entries path

def contains (m : Mapping) (path : String) : Bool := (m.lookup? path).isSome

def size (m : Mapping) : Nat := m.entries.length

/-- The identifier for a path, by the policy if it is not registered. -/
def resolve (m : Mapping) (path : String) : Traced String :=
  match m.lookup? path with
  | some identifier => pure identifier
  | none =>
    match m.policy with
    | .fallback => do
      Traced.report (.memberUnmapped path m.tableAlias)
      return path
    | .reject => Traced.fail (.unmappedMember path)

theorem lookup?_map (m : Mapping) (path column : String) (otherAlias : Option String)
    (other : String) :
    (m.map path column otherAlias).lookup? other
      = if path = other then some (otherAlias.getD m.tableAlias ++ "." ++ column)
        else m.lookup? other :=
  Keyed.find?_insert _ _ _ _

end Mapping
end WhereClause
