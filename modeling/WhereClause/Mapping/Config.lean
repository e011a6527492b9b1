import WhereClause.Json.Printer
import WhereClause.Json.Reader
import WhereClause.Json.Record
import WhereClause.Mapping.Basic
import WhereClause.Mapping.Error
import WhereClause.Text.Blank

/-!
# Mapping configurations

The JSON form of a mapping: a table alias, properties to be registered under their
column names, columns for single paths, and the policy for all other paths. The
columns come after the properties and so win over them. A configuration is taken
only if none of its names is blank; the names themselves are left as they are.
-/
namespace WhereClause

/-- A column registered for a path. -/
structure Column where
  path : String
  column : String
  /-- The alias of another table. -/
  otherAlias : Option String
  deriving DecidableEq, Repr

structure Config where
  tableAlias : String
  properties : List String
  columns : List Column
  unmapped : Policy
  deriving DecidableEq, Repr

/-- A place in a configuration where a blank name is refused. -/
inductive BlankName where
  | tableAlias
  | property (index : Nat)
  | columnPath (index : Nat)
  | columnName (index : Nat)
  | columnAlias (index : Nat)
  deriving DecidableEq, Repr

namespace BlankName

def message : BlankName → String
  | tableAlias => "table_alias must not be empty"
  | property i => "properties[" ++ toString i ++ "] must not be empty"
  | columnPath i => "columns[" ++ toString i ++ "].path must not be empty"
  | columnName i => "columns[" ++ toString i ++ "].column must not be empty"
  | columnAlias i => "columns[" ++ toString i ++ "].alias must not be empty when present"

end BlankName

namespace Config

open Json (Written)

/-- The first blank name of a column. -/
def blankInColumn? (index : Nat) (c : Column) : Option BlankName :=
  if Text.isBlank c.path then some (.columnPath index)
  else if Text.isBlank c.column then some (.columnName index)
  else if c.otherAlias.any Text.isBlank then some (.columnAlias index)
  else none

/-- The first blank property, counted from `index`. -/
def blankProperty? : Nat → List String → Option BlankName
  | _, [] => none
  | index, p :: ps => if Text.isBlank p then some (.property index) else blankProperty? (index + 1) ps

/-- The first blank name in the columns, counted from `index`. -/
def blankColumn? : Nat → List Column → Option BlankName
  | _, [] => none
  | index, c :: cs => (blankInColumn? index c).or (blankColumn? (index + 1) cs)

/-- The first blank name: the table alias, then the properties, then column by
column the path, the column and the alias. -/
def blankName? (c : Config) : Option BlankName :=
  if Text.isBlank c.tableAlias then some .tableAlias
  else (blankProperty? 0 c.properties).or (blankColumn? 0 c.columns)

/-- An entry that may be absent. -/
def optional? {α : Type} (absent : α) (read? : Written → Option α) : Option Written → Option α
  | none => some absent
  | some w => read? w

def policy? (w : Written) : Option Policy :=
  (Written.choice? Written.isNull w).bind Policy.ofName?

/-- An alias, which null leaves out. -/
def alias? : Written → Option (Option String)
  | .null => some none
  | w => w.text?.map some

def column? (w : Written) : Option Column := do
  match ← Written.record? ["path", "column", "alias"] w with
  | [some path, some column, otherAlias] =>
    some ⟨← path.text?, ← column.text?, ← optional? none alias? otherAlias⟩
  | _ => none

/-- The configuration that a tree says, with blank names or without. -/
def ofWritten? (w : Written) : Option Config := do
  match ← Written.record? ["table_alias", "properties", "columns", "unmapped"] w with
  | [some tableAlias, properties, columns, unmapped] =>
    some ⟨← tableAlias.text?, ← optional? [] (Written.list? Written.text?) properties,
      ← optional? [] (Written.list? column?) columns, ← optional? .fallback policy? unmapped⟩
  | _ => none

/-- The configuration that a text says. -/
def parse (text : String) : Except MappingError Config :=
  match (Json.read? text).bind ofWritten? with
  | none => .error .malformed
  | some config =>
    match config.blankName? with
    | some blank => .error (.invalid blank.message)
    | none => .ok config

def columnJson (c : Column) : Json :=
  .object (("path", .text c.path) :: ("column", .text c.column) ::
    match c.otherAlias with
    | none => []
    | some otherAlias => [("alias", .text otherAlias)])

/-- The document of a configuration, all of its entries in their order. -/
def toJson (c : Config) : Json :=
  .object [("table_alias", .text c.tableAlias), ("properties", .array (c.properties.map .text)),
    ("columns", .array (c.columns.map columnJson)), ("unmapped", .text c.unmapped.name)]

/-- The text of a configuration. -/
def document (c : Config) : String := c.toJson.render

/-- The registrations of a configuration: first the properties, then the columns. -/
def registrations (c : Config) : List Registration :=
  .autoMap c.properties :: .unmapped c.unmapped ::
    c.columns.map fun column => .map column.path column.column column.otherAlias

/-- The mapping of a configuration. -/
def mapping (c : Config) : Mapping := Mapping.build c.tableAlias c.registrations

end Config
end WhereClause
