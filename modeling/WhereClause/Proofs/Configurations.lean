import Mathlib.Data.List.DropRight
import WhereClause.Mapping.Config
import WhereClause.Proofs.Endings
import WhereClause.Proofs.ReadBack

/-!
# Documents of configurations

A configuration is read back from its document if none of its names is blank, and is refused at
the first blank one otherwise (`Config.parse_document`). The reading alone always succeeds
(`Config.ofWritten?_toWritten`); the checks are one search through the names in the order in
which they are looked at (`Config.blankName?_eq_firstBlank?`).
-/
namespace WhereClause

namespace Text

/-- The text without the white space at its ends. -/
def trim (s : String) : String :=
  String.ofList ((s.toList.dropWhile isWhiteSpace).rdropWhile isWhiteSpace)

/-- Nothing is left of a blank text, and of no other. -/
theorem trim_eq_empty_iff (s : String) : trim s = "" ↔ isBlank s = true := by
  have fromStart (cs : List Char) : (∀ c ∈ cs.dropWhile isWhiteSpace, isWhiteSpace c = true)
      ↔ ∀ c ∈ cs, isWhiteSpace c = true := by
    induction cs with
    | nil => simp
    | cons c cs ih =>
      cases hc : isWhiteSpace c with
      | true => simpa [hc] using ih
      | false => simp [hc]
  rw [trim, ← String.toList_inj, String.toList_ofList, String.toList_empty,
    List.rdropWhile_eq_nil_iff, fromStart, isBlank, List.all_eq_true]

end Text

namespace BlankName

/-- An index can be told from the bracket that closes behind it and from what follows. -/
theorem indexed_inj {before after after' : String} {i j : Nat}
    (closes : after.toList.head? = some ']') (closes' : after'.toList.head? = some ']')
    (h : before ++ toString i ++ after = before ++ toString j ++ after') :
    i = j ∧ after = after' := by
  have digits (n : Nat) : (toString n).toList = Json.digitsOf n := by
    simp [toString, Nat.repr, Json.digitsOf]
  have notDigit (n : Nat) : ']' ∉ Json.digitsOf n := by
    intro bracket
    have digit := Json.isDigit_of_mem_digitsOf bracket
    revert digit
    decide
  obtain ⟨rest, hrest⟩ := List.head?_eq_some_iff.1 closes
  obtain ⟨rest', hrest'⟩ := List.head?_eq_some_iff.1 closes'
  have same := congrArg String.toList h
  simp only [String.toList_append, digits, hrest, hrest', List.append_assoc,
    List.append_cancel_left_eq] at same
  obtain ⟨index, follows⟩ := word_append_inj (notDigit i) (notDigit j) same
  have texts : after.toList = after'.toList := by rw [hrest, hrest', follows]
  exact ⟨Json.digitsOf_injective index, String.toList_inj.1 texts⟩

/-- A message names one place only. -/
theorem message_injective : Function.Injective message := by
  intro p q h
  have initial := congrArg (·.toList.head?) h
  cases p <;> cases q <;> simp only [message] at h
  case tableAlias.tableAlias => rfl
  case property.property i j => rw [(indexed_inj (by decide) (by decide) h).1]
  case columnPath.columnPath i j => rw [(indexed_inj (by decide) (by decide) h).1]
  case columnName.columnName i j => rw [(indexed_inj (by decide) (by decide) h).1]
  case columnAlias.columnAlias i j => rw [(indexed_inj (by decide) (by decide) h).1]
  -- Any other two messages differ in their first letter, or else behind the index.
  all_goals
    first
    | simp [message] at initial; done
    | exact absurd (indexed_inj (by decide) (by decide) h).2 (by decide)

end BlankName

namespace Config

open Json (Written)

/-- The texts of a column that must not be blank, with their places. -/
def columnItems (index : Nat) (c : Column) : List (BlankName × String) :=
  (.columnPath index, c.path) :: (.columnName index, c.column) ::
    c.otherAlias.toList.map fun otherAlias => (.columnAlias index, otherAlias)

/-- The texts of a configuration that must not be blank, with their places and in the order in
which they are looked at. -/
def items (c : Config) : List (BlankName × String) :=
  (.tableAlias, c.tableAlias) :: (c.properties.zipIdx.map fun (p, index) => (.property index, p))
    ++ c.columns.zipIdx.flatMap fun (column, index) => columnItems index column

/-- The place of the first blank text. -/
def firstBlank? (items : List (BlankName × String)) : Option BlankName :=
  (items.find? fun item => Text.isBlank item.2).map Prod.fst

theorem firstBlank?_cons (place : BlankName) (text : String)
    (items : List (BlankName × String)) : firstBlank? ((place, text) :: items)
      = if Text.isBlank text then some place else firstBlank? items := by
  cases hblank : Text.isBlank text <;> simp [firstBlank?, hblank]

theorem firstBlank?_append (items others : List (BlankName × String)) :
    firstBlank? (items ++ others) = (firstBlank? items).or (firstBlank? others) := by
  rw [firstBlank?, List.find?_append, Option.map_or]
  rfl

theorem blankInColumn?_eq_firstBlank? (index : Nat) (c : Column) :
    blankInColumn? index c = firstBlank? (columnItems index c) := by
  cases hother : c.otherAlias <;>
    simp [blankInColumn?, columnItems, firstBlank?_cons, hother] <;> rfl

theorem blankProperty?_eq_firstBlank? (index : Nat) (properties : List String) :
    blankProperty? index properties
      = firstBlank? ((properties.zipIdx index).map fun (p, i) => (.property i, p)) := by
  induction properties generalizing index with
  | nil => rfl
  | cons p properties ih =>
    rw [blankProperty?, ih, List.zipIdx_cons, List.map_cons, firstBlank?_cons]

theorem blankColumn?_eq_firstBlank? (index : Nat) (columns : List Column) :
    blankColumn? index columns
      = firstBlank? ((columns.zipIdx index).flatMap fun (c, i) => columnItems i c) := by
  induction columns generalizing index with
  | nil => rfl
  | cons c columns ih =>
    rw [blankColumn?, ih, List.zipIdx_cons, List.flatMap_cons, firstBlank?_append,
      blankInColumn?_eq_firstBlank?]

/-- The checks are one search through all of the texts. -/
theorem blankName?_eq_firstBlank? (c : Config) : c.blankName? = firstBlank? c.items := by
  rw [blankName?, blankProperty?_eq_firstBlank?, blankColumn?_eq_firstBlank?,
    ← firstBlank?_append, items, List.cons_append, firstBlank?_cons]

/-- The texts that are not blank come before the first that is. -/
theorem firstBlank?_eq_some_iff {items : List (BlankName × String)} {place : BlankName} :
    firstBlank? items = some place ↔ ∃ before text after,
      items = before ++ (place, text) :: after ∧ (∀ item ∈ before, Text.trim item.2 ≠ "") ∧
      Text.trim text = "" := by
  simp only [firstBlank?, Option.map_eq_some_iff, List.find?_eq_some_iff_append, ne_eq,
    Text.trim_eq_empty_iff]
  constructor
  · rintro ⟨⟨_, text⟩, ⟨blank, before, after, hitems, notBlank⟩, rfl⟩
    exact ⟨before, text, after, hitems, fun item hitem => by simpa using notBlank item hitem, blank⟩
  · rintro ⟨before, text, after, hitems, notBlank, blank⟩
    exact ⟨(place, text), ⟨blank, before, after, hitems,
      fun item hitem => by simpa using notBlank item hitem⟩, rfl⟩

theorem firstBlank?_eq_none_iff {items : List (BlankName × String)} :
    firstBlank? items = none ↔ ∀ item ∈ items, Text.trim item.2 ≠ "" := by
  simp [firstBlank?, Text.trim_eq_empty_iff]

/-- There are texts in a document, and no numbers. -/
theorem integral_toJson (c : Config) : c.toJson.Integral := by
  have texts : ∀ item ∈ c.properties.map Json.text, item.Integral := by
    rintro _ hitem
    obtain ⟨s, -, rfl⟩ := List.mem_map.1 hitem
    exact .text s
  have columns : ∀ item ∈ c.columns.map columnJson, item.Integral := by
    rintro _ hitem
    obtain ⟨column, -, rfl⟩ := List.mem_map.1 hitem
    unfold columnJson
    cases column.otherAlias with
    | none => exact .cons (.text _) (.cons (.text _) .empty)
    | some otherAlias => exact .cons (.text _) (.cons (.text _) (.cons (.text _) .empty))
  exact .cons (.text _) (.cons (.array texts) (.cons (.array columns) (.cons (.text _) .empty)))

/-- An array is read back item by item. -/
theorem mapM_toWrittenItems {α : Type} {read? : Written → Option α} {json : α → Json}
    (back : ∀ a, read? (json a).toWritten = some a) (as : List α) :
    (Json.toWrittenItems (as.map json)).mapM read? = some as := by
  induction as with
  | nil => rfl
  | cons a as ih =>
    rw [List.map_cons, Json.toWrittenItems, List.mapM_cons, back, ih]
    rfl

theorem column?_columnJson (column : Column) :
    column? (columnJson column).toWritten = some column := by
  obtain ⟨path, name, _ | otherAlias⟩ := column <;> rfl

/-- A configuration is read back, with its blank names. -/
theorem ofWritten?_toWritten (c : Config) : ofWritten? c.toJson.toWritten = some c := by
  have entries : Written.record? ["table_alias", "properties", "columns", "unmapped"]
      c.toJson.toWritten = some [some (.text (some c.tableAlias)),
        some (.array (Json.toWrittenItems (c.properties.map .text))),
        some (.array (Json.toWrittenItems (c.columns.map columnJson))),
        some (.text (some c.unmapped.name))] := rfl
  have policy : policy? (.text (some c.unmapped.name)) = some c.unmapped := by
    cases c.unmapped <;> rfl
  have text (s : String) : Written.text? (Json.text s).toWritten = some s := rfl
  have properties := mapM_toWrittenItems text c.properties
  have columns := mapM_toWrittenItems column?_columnJson c.columns
  rw [ofWritten?, entries]
  simp [optional?, Written.list?, Written.text?, properties, columns, policy]

/-- Of a document, only the checks can fail. -/
theorem parse_document_eq (c : Config) : parse c.document
    = match firstBlank? c.items with
      | none => .ok c
      | some place => .error (.invalid place.message) := by
  rw [parse, document, Json.read?_render (integral_toJson c), Option.bind_some,
    ofWritten?_toWritten]
  simp only [blankName?_eq_firstBlank?]
  cases firstBlank? c.items <;> rfl

/-- A configuration is read back from its document exactly if none of its texts is blank. If one
is, the message names a place, which is that of the first blank text. -/
theorem parse_document (c : Config) :
    (∀ result, parse c.document = .ok result ↔
      result = c ∧ ∀ item ∈ c.items, Text.trim item.2 ≠ "") ∧
    (∀ error, parse c.document = .error error → ∃ place : BlankName,
      error = .invalid place.message) ∧
    ∀ place : BlankName, parse c.document = .error (.invalid place.message) ↔
      ∃ before text after, c.items = before ++ (place, text) :: after ∧
        (∀ item ∈ before, Text.trim item.2 ≠ "") ∧ Text.trim text = "" := by
  rw [parse_document_eq]
  refine ⟨fun result => ?_, fun error h => ?_, fun place => ?_⟩
  · rw [← firstBlank?_eq_none_iff]
    cases firstBlank? c.items <;> simp [eq_comm]
  · cases hfirst : firstBlank? c.items with
    | none =>
      rw [hfirst] at h
      cases h
    | some first =>
      rw [hfirst] at h
      exact ⟨first, (Except.error.inj h).symm⟩
  · rw [← firstBlank?_eq_some_iff]
    cases firstBlank? c.items <;> simp [BlankName.message_injective.eq_iff]

/-- A configuration whose second column has a blank alias, and whose third has no name at all. -/
def blankAlias : Config :=
  ⟨"m", ["Code"],
    [⟨"Id", " id ", none⟩, ⟨"Name", "name", some "\u2003\n"⟩, ⟨"", "", none⟩], .reject⟩

theorem blankAlias_refused :
    (∀ item ∈ blankAlias.items.take 6, Text.trim item.2 ≠ "") ∧
    parse blankAlias.document
      = .error (.invalid "columns[1].alias must not be empty when present") := by
  have notBlank : ∀ item ∈ blankAlias.items.take 6, Text.trim item.2 ≠ "" := by decide +kernel
  have blank : Text.trim "\u2003\n" = "" := by decide +kernel
  exact ⟨notBlank, ((parse_document blankAlias).2.2 (.columnAlias 1)).2
    ⟨blankAlias.items.take 6, _, blankAlias.items.drop 7, rfl, notBlank, blank⟩⟩

end Config
end WhereClause
