import Mathlib
import WhereClause.Proofs.Configurations
import WhereClause.Proofs.Registrations

/-!
# Names that are not blank

A configuration that is taken registers no blank path, and no identifier with a blank alias or a
blank column (`Config.entries_not_blank`). For the columns that are named after properties this
rests on the letters: what has a small form other than itself has one that is no white space, over
all of Unicode (`Text.exists_mem_lowercase`).
-/
namespace WhereClause

namespace Text

/-- The null character is no white space. -/
theorem whiteSpaceRanges_pos : ∀ range ∈ whiteSpaceRanges, 0 < range.1 := by decide

/-- A code point of white space lies in one of the ranges. -/
theorem exists_range_of_isWhiteSpace {n : Nat} (h : isWhiteSpace (Char.ofNat n) = true) :
    ∃ range ∈ whiteSpaceRanges, range.1 ≤ n ∧ n ≤ range.2 := by
  obtain ⟨range, member, within⟩ := List.any_eq_true.1 h
  simp only [Bool.and_eq_true, decide_eq_true_eq, Char.toNat_ofNat] at within
  by_cases valid : n.isValidChar
  · rw [if_pos valid] at within
    exact ⟨range, member, within⟩
  · -- A number that is no code point stands for the null character.
    rw [if_neg valid] at within
    exact absurd within.1 (Nat.not_le.2 (whiteSpaceRanges_pos range member))

/-- No capital has a small form among the white space. -/
theorem lowercaseShifts_avoid : ∀ shift ∈ lowercaseShifts, ∀ range ∈ whiteSpaceRanges,
    (shift.run.last : Int) + shift.distance < range.1
      ∨ (range.2 : Int) < shift.run.first + shift.distance := by
  decide +kernel

theorem isWhiteSpace_toLower {c : Char} (ascii : c.toNat < 128) (h : isWhiteSpace c = false) :
    isWhiteSpace c.toLower = false := by
  have all : ∀ n < 128, isWhiteSpace (Char.ofNat n) = false →
      isWhiteSpace (Char.ofNat n).toLower = false := by decide +kernel
  have found := all c.toNat ascii
  rw [Char.ofNat_toNat] at found
  exact found h

/-- A character that is no white space has a character that is none in its small form. -/
theorem exists_mem_lowercase {c : Char} (h : isWhiteSpace c = false) :
    ∃ d ∈ lowercase c, isWhiteSpace d = false := by
  by_cases ascii : c.toNat < 128
  · rw [lowercase_of_ascii ascii]
    exact ⟨_, List.mem_singleton_self _, isWhiteSpace_toLower ascii h⟩
  · rw [lowercase, if_neg ascii, lowercaseBeyondAscii]
    split
    · exact ⟨'i', List.mem_cons_self, by decide⟩
    · split
      · next shift found =>
        refine ⟨_, List.mem_singleton_self _, Bool.eq_false_iff.2 fun white => ?_⟩
        obtain ⟨range, member, above, below⟩ := exists_range_of_isWhiteSpace white
        have avoids := lowercaseShifts_avoid shift (List.mem_of_find?_eq_some found) range member
        have positive := whiteSpaceRanges_pos range member
        have inRun := List.find?_some found
        simp only [Run.has, Bool.and_eq_true, decide_eq_true_eq] at inRun
        omega
      · exact ⟨c, List.mem_singleton_self c, h⟩

end Text

/-- All of a character's small form stands in the column. -/
theorem mem_columnChars_of_mem_lowercase {cs : List Char} {c d : Char} (hc : c ∈ cs)
    (hd : d ∈ Text.lowercase c) : d ∈ columnChars cs := by
  have inner (c : Char) (h : d ∈ Text.lowercase c) : d ∈ innerColumnChars c := by
    unfold innerColumnChars
    split
    · exact List.mem_cons_of_mem _ h
    · exact h
  cases cs with
  | nil => cases hc
  | cons first rest =>
    rw [columnChars, List.mem_append]
    rcases List.mem_cons.1 hc with rfl | hc
    · exact .inl hd
    · exact .inr (List.mem_flatMap.2 ⟨c, hc, inner c hd⟩)

/-- A property that is not blank has a column that is not. -/
theorem trim_snakeColumn_ne_empty {property : String} (h : Text.trim property ≠ "") :
    Text.trim (snakeColumn property) ≠ "" := by
  simp only [ne_eq, Text.trim_eq_empty_iff, Bool.not_eq_true, Text.isBlank_eq_false_iff] at h ⊢
  obtain ⟨c, hc, shown⟩ := h
  obtain ⟨d, hd, shown⟩ := Text.exists_mem_lowercase shown
  refine ⟨d, ?_, shown⟩
  rw [snakeColumn, String.toList_ofList]
  exact mem_columnChars_of_mem_lowercase hc hd

namespace Config

/-- The configuration registers the column, of the table with the alias, for the path. -/
inductive Registers (config : Config) : (path tableAlias column : String) → Prop
  | property {path : String} (h : path ∈ config.properties) :
      Registers config path config.tableAlias (snakeColumn path)
  | column {c : Column} (h : c ∈ config.columns) :
      Registers config c.path (c.otherAlias.getD config.tableAlias) c.column

/-- The texts that must not be blank, without their places. -/
theorem map_snd_items (c : Config) : c.items.map Prod.snd
    = c.tableAlias :: c.properties
      ++ c.columns.flatMap fun column =>
          column.path :: column.column :: column.otherAlias.toList := by
  have ofColumn (column : Column) (index : Nat) : (columnItems index column).map Prod.snd
      = column.path :: column.column :: column.otherAlias.toList := by
    simp [columnItems]
  have ofColumns (columns : List Column) (index : Nat) :
      ((columns.zipIdx index).flatMap fun placed => columnItems placed.2 placed.1).map Prod.snd
        = columns.flatMap fun column =>
            column.path :: column.column :: column.otherAlias.toList := by
    induction columns generalizing index with
    | nil => rfl
    | cons column columns ih =>
      rw [List.zipIdx_cons, List.flatMap_cons, List.map_append, ofColumn, ih, List.flatMap_cons]
  rw [items, List.cons_append, List.map_cons, List.map_append, List.map_map]
  have properties := List.zipIdx_map_fst 0 c.properties
  exact congrArg (c.tableAlias :: ·) (congrArg₂ (· ++ ·) properties (ofColumns c.columns 0))

/-- In a configuration that is taken no text is blank. -/
theorem forall_items_of_parse {text : String} {config : Config} (h : parse text = .ok config) :
    ∀ item ∈ config.items, Text.trim item.2 ≠ "" := by
  unfold parse at h
  split at h
  · cases h
  · split at h
    · cases h
    · next accepted =>
      cases h
      rw [blankName?_eq_firstBlank?] at accepted
      exact firstBlank?_eq_none_iff.1 accepted

/-- What an entry of the mapping says is registered by the configuration. -/
theorem registers_of_mem_entries {config : Config} {path identifier : String}
    (h : (path, identifier) ∈ config.mapping.entries) :
    ∃ tableAlias column, config.Registers path tableAlias column ∧
      identifier = tableAlias ++ "." ++ column := by
  have records := Mapping.records_build config.tableAlias config.registrations
  have found := records.mem_entries_iff.1 h
  rw [records.lookup?_eq, Registration.last?_eq_some_iff] at found
  obtain ⟨before, step, after, split, answered, -⟩ := found
  have member : step ∈ config.registrations := by simp [split]
  simp only [registrations, List.mem_cons, List.mem_map] at member
  rcases member with rfl | rfl | ⟨column, member, rfl⟩
  · simp only [Registration.identifier?, Option.ite_none_right_eq_some, Option.some.injEq]
      at answered
    exact ⟨_, _, .property answered.1, answered.2.symm⟩
  · cases answered
  · simp only [Registration.identifier?, Option.ite_none_right_eq_some, Option.some.injEq]
      at answered
    obtain ⟨rfl, same⟩ := answered
    exact ⟨_, _, .column member, same.symm⟩

/-- Of a configuration that is taken, every registered path is not blank, and neither are its alias
and its column. -/
theorem Registers.not_blank {text : String} {config : Config} (h : parse text = .ok config)
    {path tableAlias column : String} (registers : config.Registers path tableAlias column) :
    Text.trim path ≠ "" ∧ Text.trim tableAlias ≠ "" ∧ Text.trim column ≠ "" := by
  have shown : ∀ s ∈ config.items.map Prod.snd, Text.trim s ≠ "" :=
    List.forall_mem_map.2 (forall_items_of_parse h)
  rw [map_snd_items] at shown
  have ofTable : Text.trim config.tableAlias ≠ "" := shown _ (by simp)
  cases registers with
  | property member =>
    have named := shown path (by simp [member])
    exact ⟨named, ofTable, trim_snakeColumn_ne_empty named⟩
  | @column c member =>
    have inColumn (s : String) (hs : s ∈ c.path :: c.column :: c.otherAlias.toList) :
        Text.trim s ≠ "" :=
      shown s (List.mem_append_right _ (List.mem_flatMap.2 ⟨c, member, hs⟩))
    refine ⟨inColumn _ (by simp), ?_, inColumn _ (by simp)⟩
    cases other : c.otherAlias with
    | none => exact ofTable
    | some otherAlias => exact inColumn otherAlias (by simp [other])

/-- A configuration that is taken gives a mapping without blank names. Every entry has a path that
is not blank, and an identifier that is an alias and a column with a point between them, as the
configuration registers them for the path. Neither of the two is blank, also if the column is named
after a property. -/
theorem entries_not_blank {text : String} {config : Config} (h : parse text = .ok config) :
    ∀ path identifier, (path, identifier) ∈ config.mapping.entries → Text.trim path ≠ "" ∧
      ∃ tableAlias column, config.Registers path tableAlias column ∧
        identifier = tableAlias ++ "." ++ column ∧
        Text.trim tableAlias ≠ "" ∧ Text.trim column ≠ "" := by
  intro path identifier member
  obtain ⟨tableAlias, column, registers, same⟩ := registers_of_mem_entries member
  obtain ⟨ofPath, ofAlias, ofColumn⟩ := registers.not_blank h
  exact ⟨ofPath, tableAlias, column, registers, same, ofAlias, ofColumn⟩

/-- A configuration with white space at the ends of its names, and with a capital whose small form
has two characters. -/
def spaced : Config :=
  ⟨" m", ["\u2003Id", "\u0130X"], [⟨"Id", " id\n", some "s"⟩], .reject⟩

theorem spaced_entries_not_blank :
    parse spaced.document = .ok spaced ∧
    ("\u2003Id", " m.\u2003_id") ∈ spaced.mapping.entries ∧
    ("\u0130X", " m.i\u0307_x") ∈ spaced.mapping.entries ∧
    ∃ tableAlias column, spaced.Registers "\u2003Id" tableAlias column ∧
      " m.\u2003_id" = tableAlias ++ "." ++ column ∧
      Text.trim tableAlias ≠ "" ∧ Text.trim column ≠ "" := by
  have shown : firstBlank? spaced.items = none := by decide +kernel
  have accepted : parse spaced.document = .ok spaced := by rw [parse_document_eq, shown]
  have member : ("\u2003Id", " m.\u2003_id") ∈ spaced.mapping.entries := by decide +kernel
  exact ⟨accepted, member, by decide +kernel, (entries_not_blank accepted _ _ member).2⟩

end Config
end WhereClause
