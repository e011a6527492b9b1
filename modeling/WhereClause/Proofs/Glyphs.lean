import WhereClause.Proofs.Characters
import WhereClause.Proofs.Quotation

/-!
# The sources of a text

Constants that are compared stand in the text of a predicate themselves. Here that text is
written once more, and each character keeps its source: it was written around the constants,
or stands for what a text or a field name in one of them has in it. A constant is the source
of some character exactly if one of its texts and field names is not empty
(`Json.hasGiven_glyphs_iff`).
-/
namespace WhereClause

/-- A character of the text of a predicate. -/
structure Glyph where
  char : Char
  /-- It stands for a character of a text or a field name in a constant. -/
  isGiven : Bool
  deriving DecidableEq, Repr

namespace Glyph

/-- Characters that are written around what constants bring in. -/
def written (cs : List Char) : List Glyph := cs.map (Glyph.mk · false)

/-- Characters for those of a text in a constant. -/
def given (cs : List Char) : List Glyph := cs.map (Glyph.mk · true)

theorem given_append (cs ds : List Char) : given (cs ++ ds) = given cs ++ given ds :=
  List.map_append

/-- The text. -/
def chars (gs : List Glyph) : List Char := gs.map char

@[simp] theorem chars_append (gs hs : List Glyph) : chars (gs ++ hs) = chars gs ++ chars hs :=
  List.map_append

@[simp] theorem chars_written (cs : List Char) : chars (written cs) = cs := by
  rw [chars, written, List.map_map]
  exact List.map_id cs

@[simp] theorem chars_given (cs : List Char) : chars (given cs) = cs := by
  rw [chars, given, List.map_map]
  exact List.map_id cs

/-- Some character is given. -/
def hasGiven (gs : List Glyph) : Bool := gs.any isGiven

@[simp] theorem hasGiven_nil : hasGiven [] = false := rfl

@[simp] theorem hasGiven_cons (g : Glyph) (gs : List Glyph) :
    hasGiven (g :: gs) = (g.isGiven || hasGiven gs) := rfl

@[simp] theorem hasGiven_append (gs hs : List Glyph) :
    hasGiven (gs ++ hs) = (hasGiven gs || hasGiven hs) := List.any_append

@[simp] theorem hasGiven_written (cs : List Char) : hasGiven (written cs) = false := by
  simp [hasGiven, written]

@[simp] theorem hasGiven_given (cs : List Char) : hasGiven (given cs) = !cs.isEmpty := by
  cases cs <;> simp [hasGiven, given]

/-- A quote that is written around what constants bring in. -/
def writtenQuote : Glyph := ⟨'\x27', false⟩

@[simp] theorem writtenQuote_mem_written_iff {cs : List Char} :
    writtenQuote ∈ written cs ↔ '\x27' ∈ cs := by
  simp [writtenQuote, written]

@[simp] theorem writtenQuote_not_mem_given (cs : List Char) : writtenQuote ∉ given cs := by
  simp [writtenQuote, given]

/-- Two parts around a word, in parentheses. -/
def group (left : List Glyph) (token : String) (right : List Glyph) : List Glyph :=
  written ['('] ++ (left ++ written [' '] ++ (written token.toList ++ written [' ']
    ++ (right ++ written [')'])))

theorem chars_group (left : List Glyph) (token : String) (right : List Glyph) :
    chars (group left token right)
      = '(' :: (chars left ++ ' ' :: (token.toList ++ ' ' :: (chars right ++ [')']))) := by
  simp [group]

end Glyph

open Glyph

namespace Json

/-- A text or field name in quotes. -/
def quotedGlyphs (s : String) : List Glyph :=
  written ['"'] ++ given (s.toList.flatMap Quoted.escape) ++ written ['"']

mutual

/-- What is written of a value, with the sources. -/
def glyphs : Json → List Glyph
  | .text s => quotedGlyphs s
  | .array [] => written ['[', ']']
  | .array (item :: items) => written ['['] ++ item.glyphs ++ glyphsOfItems items ++ written [']']
  | .object [] => written ['\x7b', '\x7d']
  | .object ((name, value) :: fields) =>
    written ['\x7b'] ++ quotedGlyphs name ++ written [':'] ++ value.glyphs ++ glyphsOfFields fields
      ++ written ['\x7d']
  | .null => written (null.write [])
  | .bool b => written ((bool b).write [])
  | .int n => written ((int n).write [])
  | .float x => written ((float x).write [])

/-- The further items of an array. -/
def glyphsOfItems : List Json → List Glyph
  | [] => []
  | item :: items => written [','] ++ item.glyphs ++ glyphsOfItems items

/-- The further fields of an object. -/
def glyphsOfFields : List (String × Json) → List Glyph
  | [] => []
  | (name, value) :: fields =>
    written [','] ++ quotedGlyphs name ++ written [':'] ++ value.glyphs ++ glyphsOfFields fields

end

theorem write_quoted_eq (s : String) (rest : List Char) :
    Quoted.write s rest = chars (quotedGlyphs s) ++ rest := by
  simp [quotedGlyphs, Quoted.write]

mutual

/-- Without the sources, that is what is written. -/
theorem write_eq : ∀ (v : Json) (rest : List Char), v.write rest = chars v.glyphs ++ rest
  | .null, rest => by simp [glyphs, write]
  | .bool true, rest => by simp [glyphs, write]
  | .bool false, rest => by simp [glyphs, write]
  | .int n, rest => by simp [glyphs, write]
  | .float x, rest => by simp [glyphs, write]
  | .text s, rest => write_quoted_eq s rest
  | .array [], rest => by simp [glyphs, write]
  | .array (item :: items), rest => by simp [glyphs, write, write_eq item, writeItems_eq items]
  | .object [], rest => by simp [glyphs, write]
  | .object ((name, value) :: fields), rest => by
    simp [glyphs, write, write_quoted_eq, write_eq value, writeFields_eq fields]

theorem writeItems_eq : ∀ (items : List Json) (rest : List Char),
    writeItems items rest = chars (glyphsOfItems items) ++ rest
  | [], rest => rfl
  | item :: items, rest => by
    simp [glyphsOfItems, writeItems, write_eq item, writeItems_eq items]

theorem writeFields_eq : ∀ (fields : List (String × Json)) (rest : List Char),
    writeFields fields rest = chars (glyphsOfFields fields) ++ rest
  | [], rest => rfl
  | (name, value) :: fields, rest => by
    simp [glyphsOfFields, writeFields, write_quoted_eq, write_eq value, writeFields_eq fields]

end

variable {c : Char}

theorem mentions_text_iff {s : String} : (text s).Mentions c ↔ c ∈ s.toList := by
  constructor
  · rintro ⟨h⟩
    assumption
  · exact .text

theorem mentions_array_iff {items : List Json} :
    (array items).Mentions c ↔ ∃ item ∈ items, item.Mentions c := by
  constructor
  · intro h
    cases h with
    | item hitem h => exact ⟨_, hitem, h⟩
  · rintro ⟨item, hitem, h⟩
    exact .item hitem h

theorem mentions_object_iff {fields : List (String × Json)} :
    (object fields).Mentions c
      ↔ ∃ field ∈ fields, c ∈ field.1.toList ∨ field.2.Mentions c := by
  constructor
  · intro h
    cases h with
    | name hfield h => exact ⟨_, hfield, .inl h⟩
    | field hfield h => exact ⟨_, hfield, .inr h⟩
  · rintro ⟨⟨name, value⟩, hfield, h | h⟩
    · exact .name hfield h
    · exact .field hfield h

theorem hasGiven_quotedGlyphs_iff {s : String} :
    hasGiven (quotedGlyphs s) = true ↔ ∃ c, c ∈ s.toList := by
  have escaped (c : Char) : Quoted.escape c ≠ [] := by
    intro empty
    have form := Quoted.escaped_escape c
    rw [empty] at form
    cases form
  have characters : hasGiven (quotedGlyphs s) = true ↔ s.toList.flatMap Quoted.escape ≠ [] := by
    simp [quotedGlyphs]
  rw [characters, ne_eq, List.flatMap_eq_nil_iff]
  simp [escaped]

mutual

/-- Characters are given exactly by what has some in its texts and field names. -/
theorem hasGiven_glyphs_iff : ∀ (v : Json), hasGiven v.glyphs = true ↔ ∃ c, v.Mentions c
  | .null => by simp [glyphs, Constant.not_mentions (v := null) rfl (by simp)]
  | .bool b => by simp [glyphs, Constant.not_mentions (v := bool b) rfl (by simp)]
  | .int n => by simp [glyphs, Constant.not_mentions (v := int n) rfl (by simp)]
  | .float x => by simp [glyphs, Constant.not_mentions (v := float x) rfl (by simp)]
  | .text s => by
    simp only [mentions_text_iff]
    exact hasGiven_quotedGlyphs_iff
  | .array [] => by simp [glyphs, mentions_array_iff]
  | .array (item :: items) => by
    simp [glyphs, mentions_array_iff, hasGiven_glyphs_iff item, hasGiven_glyphsOfItems_iff items,
      exists_or]
  | .object [] => by simp [glyphs, mentions_object_iff]
  | .object ((name, value) :: fields) => by
    simp [glyphs, mentions_object_iff, hasGiven_quotedGlyphs_iff, hasGiven_glyphs_iff value,
      hasGiven_glyphsOfFields_iff fields, exists_or, or_assoc]

theorem hasGiven_glyphsOfItems_iff : ∀ (items : List Json),
    hasGiven (glyphsOfItems items) = true ↔ ∃ c, ∃ item ∈ items, item.Mentions c
  | [] => by simp [glyphsOfItems]
  | item :: items => by
    simp [glyphsOfItems, hasGiven_glyphs_iff item, hasGiven_glyphsOfItems_iff items, exists_or]

theorem hasGiven_glyphsOfFields_iff : ∀ (fields : List (String × Json)),
    hasGiven (glyphsOfFields fields) = true
      ↔ ∃ c, ∃ field ∈ fields, c ∈ field.1.toList ∨ field.2.Mentions c
  | [] => by simp [glyphsOfFields]
  | (name, value) :: fields => by
    simp [glyphsOfFields, hasGiven_quotedGlyphs_iff, hasGiven_glyphs_iff value,
      hasGiven_glyphsOfFields_iff fields, exists_or, or_assoc]

end

theorem writtenQuote_not_mem_quotedGlyphs (s : String) : writtenQuote ∉ quotedGlyphs s := by
  simp [quotedGlyphs]

mutual

/-- JSON writes no single quotes. -/
theorem writtenQuote_not_mem_glyphs : ∀ (v : Json), writtenQuote ∉ v.glyphs
  | .null => by simp [glyphs, write]
  | .bool true => by simp [glyphs, write]
  | .bool false => by simp [glyphs, write]
  | .int n => by
    have digits : '\x27' ∉ intChars n := not_mem_of_forall (fun _ => isSyntax_of_mem_intChars) rfl
    simp [glyphs, write, digits]
  | .float x => by
    have digits : '\x27' ∉ floatChars x :=
      not_mem_of_forall (fun _ => isSyntax_of_mem_floatChars) rfl
    simp [glyphs, write, digits]
  | .text s => writtenQuote_not_mem_quotedGlyphs s
  | .array [] => by simp [glyphs]
  | .array (item :: items) => by
    simp [glyphs, writtenQuote_not_mem_glyphs item, writtenQuote_not_mem_glyphsOfItems items]
  | .object [] => by simp [glyphs]
  | .object ((name, value) :: fields) => by
    simp [glyphs, writtenQuote_not_mem_quotedGlyphs, writtenQuote_not_mem_glyphs value,
      writtenQuote_not_mem_glyphsOfFields fields]

theorem writtenQuote_not_mem_glyphsOfItems : ∀ (items : List Json),
    writtenQuote ∉ glyphsOfItems items
  | [] => by simp [glyphsOfItems]
  | item :: items => by
    simp [glyphsOfItems, writtenQuote_not_mem_glyphs item, writtenQuote_not_mem_glyphsOfItems items]

theorem writtenQuote_not_mem_glyphsOfFields : ∀ (fields : List (String × Json)),
    writtenQuote ∉ glyphsOfFields fields
  | [] => by simp [glyphsOfFields]
  | (name, value) :: fields => by
    simp [glyphsOfFields, writtenQuote_not_mem_quotedGlyphs, writtenQuote_not_mem_glyphs value,
      writtenQuote_not_mem_glyphsOfFields fields]

end

end Json

namespace Constant

/-- A constant as it stands in a clause, with the sources. -/
def glyphs : Json → List Glyph
  | .null => written ['N', 'U', 'L', 'L']
  | .text s => written ['\x27'] ++ given (s.toList.flatMap escapeQuote) ++ written ['\x27']
  | other => other.glyphs

theorem toList_render (v : Json) : (render v).toList = chars (glyphs v) := by
  have written (v : Json) : v.render.toList = chars v.glyphs := by
    simp [Json.render, Json.write_eq]
  cases v with
  | null => rfl
  | text s =>
    rw [render, toList_quote]
    simp [glyphs]
  | _ => exact written _

end Constant

namespace Clause

/-- The text of a clause, with the sources. -/
def glyphs : Clause → List Glyph
  | join left token right => Glyph.group left.glyphs token right.glyphs
  | constants a token b => Glyph.group (Constant.glyphs a) token (Constant.glyphs b)
  | nullTest operand negated => written (nullTest operand negated).text.toList
  | bound operand token formatter name value =>
    written (bound operand token formatter name value).text.toList

/-- Without the sources, that is the text. -/
theorem toList_text (c : Clause) : c.text.toList = chars c.glyphs := by
  induction c with
  | join left token right ihleft ihright =>
    rw [text, toList_group, glyphs, chars_group, ihleft, ihright]
  | constants a token b =>
    rw [text, toList_group, glyphs, chars_group, Constant.toList_render, Constant.toList_render]
  | nullTest operand negated => simp [glyphs]
  | bound operand token formatter name value => simp [glyphs]

end Clause

end WhereClause
