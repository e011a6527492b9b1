import WhereClause.Clause.Constant

/-!
# The characters of a written value

A written value consists of the marks of JSON, digits and small letters, and of the
characters of its texts and field names. So a character that JSON has no use for stands
in what is written only where the value brings it in itself (`Constant.mentions_of_mem`).
-/
namespace WhereClause

namespace Quoted

/-- The letters that follow a backslash. -/
def escapeLetters : List Char := ['"', '\\', 'n', 'r', 't', 'b', 'f']

/-- How a character is written between quotes. -/
inductive Escaped (c : Char) : List Char → Prop
  | named (letter : Char) (hletter : letter ∈ escapeLetters)
      (hname : namedEscape? letter = some c) : Escaped c ['\\', letter]
  | unit (hcontrol : c.toNat < 0x20) :
      Escaped c ['\\', 'u', '0', '0', hexDigit (c.toNat / 16), hexDigit (c.toNat % 16)]
  | itself (notQuote : c ≠ '"') (notBackslash : c ≠ '\\') (notControl : ¬ c.toNat < 0x20) :
      Escaped c [c]

theorem escaped_escape (c : Char) : Escaped c (escape c) := by
  unfold escape
  split
  · next h => exact .named '"' (by decide) (by rw [h]; rfl)
  · next notQuote =>
    split
    · next h => exact .named '\\' (by decide) (by rw [h]; rfl)
    · next notBackslash =>
      split
      · next h => exact .named 'n' (by decide) (by rw [h]; rfl)
      · split
        · next h => exact .named 'r' (by decide) (by rw [h]; rfl)
        · split
          · next h => exact .named 't' (by decide) (by rw [h]; rfl)
          · split
            · next h => exact .named 'b' (by decide) (by rw [h]; rfl)
            · split
              · next h => exact .named 'f' (by decide) (by rw [h]; rfl)
              · split
                · next hcontrol => exact .unit hcontrol
                · next notControl => exact .itself notQuote notBackslash notControl

end Quoted

namespace Json

/-- A character that JSON writes by itself, whatever the value. -/
def isSyntax (c : Char) : Bool :=
  c.isDigit || c.isLower ||
    ['[', ']', '\x7b', '\x7d', ',', ':', '"', '\\', '.', '+', '-'].contains c

/-- A text or a field name of the value has the character. -/
inductive Mentions (c : Char) : Json → Prop
  | text {s : String} (h : c ∈ s.toList) : Mentions c (.text s)
  | item {items : List Json} {item : Json} (hitem : item ∈ items) (h : item.Mentions c) :
      Mentions c (.array items)
  | name {fields : List (String × Json)} {name : String} {value : Json}
      (hfield : (name, value) ∈ fields) (h : c ∈ name.toList) : Mentions c (.object fields)
  | field {fields : List (String × Json)} {name : String} {value : Json}
      (hfield : (name, value) ∈ fields) (h : value.Mentions c) : Mentions c (.object fields)

variable {c : Char}

theorem isSyntax_of_isDigit (h : c.isDigit = true) : isSyntax c = true := by
  simp [isSyntax, h]

theorem isDigit_of_mem_digitsOf {n : Nat} (h : c ∈ digitsOf n) : c.isDigit = true :=
  Nat.isDigit_of_mem_toDigits (by decide) (by decide) h

theorem isSyntax_of_mem_digitsOf {n : Nat} (h : c ∈ digitsOf n) : isSyntax c = true :=
  isSyntax_of_isDigit (isDigit_of_mem_digitsOf h)

theorem mem_intChars {n : Int} (h : c ∈ intChars n) : c = '-' ∨ c.isDigit = true := by
  unfold intChars at h
  split at h
  · rcases List.mem_cons.1 h with rfl | h
    · exact .inl rfl
    · exact .inr (isDigit_of_mem_digitsOf h)
  · exact .inr (isDigit_of_mem_digitsOf h)

theorem isSyntax_of_mem_intChars {n : Int} (h : c ∈ intChars n) : isSyntax c = true := by
  rcases mem_intChars h with rfl | h
  · decide
  · exact isSyntax_of_isDigit h

theorem isSyntax_of_mem_replicate {n : Nat} (h : c ∈ List.replicate n '0') : isSyntax c = true := by
  obtain ⟨-, rfl⟩ := List.mem_replicate.1 h
  decide

/-- The digits with a point behind the first, if there are several. -/
theorem isSyntax_of_mem_mantissa {digits : List Char} (hdigits : ∀ d ∈ digits, isSyntax d = true)
    (h : c ∈ (match digits with
      | [] => []
      | [digit] => [digit]
      | digit :: rest => digit :: '.' :: rest)) : isSyntax c = true := by
  split at h
  · cases h
  · exact hdigits c h
  · rcases List.mem_cons.1 h with rfl | h
    · exact hdigits _ List.mem_cons_self
    · rcases List.mem_cons.1 h with rfl | h
      · decide
      · exact hdigits c (List.mem_cons_of_mem _ h)

theorem isSyntax_of_mem_decimalChars {d : Binary64.Decimal} (h : c ∈ decimalChars d) :
    isSyntax c = true := by
  have hdigits : ∀ x ∈ digitsOf d.digits, isSyntax x = true := fun _ => isSyntax_of_mem_digitsOf
  unfold decimalChars at h
  simp only at h
  split at h
  · split at h
    · rcases List.mem_append.1 h with h | h
      · rcases List.mem_append.1 h with h | h
        · exact hdigits c h
        · exact isSyntax_of_mem_replicate h
      · have marks : ∀ d ∈ ['.', '0'], isSyntax d = true := List.all_eq_true.1 rfl
        exact marks c h
    · split at h
      · rcases List.mem_append.1 h with h | h
        · exact hdigits c (List.mem_of_mem_take h)
        · rcases List.mem_cons.1 h with rfl | h
          · decide
          · exact hdigits c (List.mem_of_mem_drop h)
      · simp only [List.cons_append, List.mem_cons, List.mem_append] at h
        rcases h with rfl | rfl | h | h
        · decide
        · decide
        · exact isSyntax_of_mem_replicate h
        · exact hdigits c h
  · rcases List.mem_append.1 h with h | h
    · exact isSyntax_of_mem_mantissa hdigits h
    · simp only [List.mem_cons] at h
      rcases h with rfl | rfl | h
      · decide
      · split <;> decide
      · exact isSyntax_of_mem_digitsOf h

theorem isSyntax_of_mem_floatChars {x : Binary64} (h : c ∈ floatChars x) : isSyntax c = true := by
  have magnitude : ∀ d ∈ (if x.isZero then ['0', '.', '0'] else decimalChars x.shortest),
      isSyntax d = true := by
    intro d hd
    split at hd
    · have marks : ∀ x ∈ ['0', '.', '0'], isSyntax x = true := List.all_eq_true.1 rfl
      exact marks d hd
    · exact isSyntax_of_mem_decimalChars hd
  unfold floatChars at h
  simp only at h
  split at h
  · rcases List.mem_cons.1 h with rfl | h
    · decide
    · exact magnitude c h
  · exact magnitude c h

theorem isSyntax_hexDigit {n : Nat} (h : n < 16) : isSyntax (Quoted.hexDigit n) = true := by
  have all : ∀ i : Fin 16, isSyntax (Quoted.hexDigit i.val) = true := by decide
  exact all ⟨n, h⟩

/-- A character between quotes stands for itself or is written in marks of JSON. -/
theorem isSyntax_or_eq_of_mem_escape {d : Char} (h : c ∈ Quoted.escape d) :
    isSyntax c = true ∨ c = d := by
  generalize hform : Quoted.escape d = form at h
  have escaped := Quoted.escaped_escape d
  rw [hform] at escaped
  cases escaped with
  | named letter hletter =>
    rcases List.mem_cons.1 h with rfl | h
    · exact .inl (by decide)
    · obtain rfl := List.mem_singleton.1 h
      have marks : ∀ x ∈ Quoted.escapeLetters, isSyntax x = true := List.all_eq_true.1 rfl
      exact .inl (marks c hletter)
  | unit hcontrol =>
    have marks : ∀ x ∈ ['\\', 'u', '0', '0'], isSyntax x = true := List.all_eq_true.1 rfl
    have high := isSyntax_hexDigit (n := d.toNat / 16) (by omega)
    have low := isSyntax_hexDigit (n := d.toNat % 16) (by omega)
    simp only [List.mem_cons, List.not_mem_nil, or_false] at h marks
    rcases h with h | h | h | h | rfl | rfl
    · exact .inl (marks c (by simp [h]))
    · exact .inl (marks c (by simp [h]))
    · exact .inl (marks c (by simp [h]))
    · exact .inl (marks c (by simp [h]))
    · exact .inl high
    · exact .inl low
  | itself notQuote notBackslash notControl => exact .inr (List.mem_singleton.1 h)

theorem mem_quoted {s : String} {rest : List Char} (h : c ∈ Quoted.write s rest) :
    isSyntax c = true ∨ c ∈ s.toList ∨ c ∈ rest := by
  rcases List.mem_cons.1 h with rfl | h
  · exact .inl (by decide)
  · rcases List.mem_append.1 h with h | h
    · obtain ⟨d, hd, h⟩ := List.mem_flatMap.1 h
      rcases isSyntax_or_eq_of_mem_escape h with h | rfl
      · exact .inl h
      · exact .inr (.inl hd)
    · rcases List.mem_cons.1 h with rfl | h
      · exact .inl (by decide)
      · exact .inr (.inr h)

theorem mem_write_array {items : List Json} {rest : List Char}
    (h : c ∈ (array items).write rest) :
    isSyntax c = true ∨ c ∈ writeItems items (']' :: rest) := by
  cases items with
  | nil =>
    rcases List.mem_cons.1 h with rfl | h
    · exact .inl (by decide)
    · exact .inr h
  | cons item items =>
    rcases List.mem_cons.1 h with rfl | h
    · exact .inl (by decide)
    · exact .inr (List.mem_cons_of_mem _ h)

theorem mem_write_object {fields : List (String × Json)} {rest : List Char}
    (h : c ∈ (object fields).write rest) :
    isSyntax c = true ∨ c ∈ writeFields fields ('\x7d' :: rest) := by
  match fields with
  | [] =>
    rcases List.mem_cons.1 h with rfl | h
    · exact .inl (by decide)
    · exact .inr h
  | (name, value) :: fields =>
    rcases List.mem_cons.1 h with rfl | h
    · exact .inl (by decide)
    · exact .inr (List.mem_cons_of_mem _ h)

mutual

/-- What is written is marks of JSON and characters of the value, in front of the rest. -/
theorem mem_write : ∀ {v : Json} {rest : List Char}, c ∈ v.write rest →
    isSyntax c = true ∨ v.Mentions c ∨ c ∈ rest
  | .null, rest, h => by
    have marks : ∀ x ∈ ['n', 'u', 'l', 'l'], isSyntax x = true := List.all_eq_true.1 rfl
    rcases List.mem_append.1 (show c ∈ ['n', 'u', 'l', 'l'] ++ rest from h) with h | h
    · exact .inl (marks c h)
    · exact .inr (.inr h)
  | .bool true, rest, h => by
    have marks : ∀ x ∈ ['t', 'r', 'u', 'e'], isSyntax x = true := List.all_eq_true.1 rfl
    rcases List.mem_append.1 (show c ∈ ['t', 'r', 'u', 'e'] ++ rest from h) with h | h
    · exact .inl (marks c h)
    · exact .inr (.inr h)
  | .bool false, rest, h => by
    have marks : ∀ x ∈ ['f', 'a', 'l', 's', 'e'], isSyntax x = true := List.all_eq_true.1 rfl
    rcases List.mem_append.1 (show c ∈ ['f', 'a', 'l', 's', 'e'] ++ rest from h) with h | h
    · exact .inl (marks c h)
    · exact .inr (.inr h)
  | .int n, rest, h => by
    rcases List.mem_append.1 h with h | h
    · exact .inl (isSyntax_of_mem_intChars h)
    · exact .inr (.inr h)
  | .float x, rest, h => by
    rcases List.mem_append.1 h with h | h
    · exact .inl (isSyntax_of_mem_floatChars h)
    · exact .inr (.inr h)
  | .text s, rest, h => (mem_quoted h).imp_right (.imp_left .text)
  | .array items, rest, h => by
    rcases mem_write_array h with h | h
    · exact .inl h
    · rcases mem_writeItems h with h | ⟨item, hitem, h⟩ | h
      · exact .inl h
      · exact .inr (.inl (.item hitem h))
      · rcases List.mem_cons.1 h with rfl | h
        · exact .inl (by decide)
        · exact .inr (.inr h)
  | .object fields, rest, h => by
    rcases mem_write_object h with h | h
    · exact .inl h
    · rcases mem_writeFields h with h | ⟨name, value, hfield, h | h⟩ | h
      · exact .inl h
      · exact .inr (.inl (.name hfield h))
      · exact .inr (.inl (.field hfield h))
      · rcases List.mem_cons.1 h with rfl | h
        · exact .inl (by decide)
        · exact .inr (.inr h)

theorem mem_writeItems : ∀ {items : List Json} {rest : List Char}, c ∈ writeItems items rest →
    isSyntax c = true ∨ (∃ item ∈ items, item.Mentions c) ∨ c ∈ rest
  | [], rest, h => .inr (.inr h)
  | item :: items, rest, h => by
    rcases List.mem_cons.1 h with rfl | h
    · exact .inl (by decide)
    · rcases mem_write h with h | h | h
      · exact .inl h
      · exact .inr (.inl ⟨item, List.mem_cons_self, h⟩)
      · rcases mem_writeItems h with h | ⟨other, hother, h⟩ | h
        · exact .inl h
        · exact .inr (.inl ⟨other, List.mem_cons_of_mem _ hother, h⟩)
        · exact .inr (.inr h)

theorem mem_writeFields : ∀ {fields : List (String × Json)} {rest : List Char},
    c ∈ writeFields fields rest → isSyntax c = true ∨
      (∃ name value, (name, value) ∈ fields ∧ (c ∈ name.toList ∨ value.Mentions c)) ∨ c ∈ rest
  | [], rest, h => .inr (.inr h)
  | (name, value) :: fields, rest, h => by
    rcases List.mem_cons.1 h with rfl | h
    · exact .inl (by decide)
    · rcases mem_quoted h with h | h | h
      · exact .inl h
      · exact .inr (.inl ⟨name, value, List.mem_cons_self, .inl h⟩)
      · rcases List.mem_cons.1 h with rfl | h
        · exact .inl (by decide)
        · rcases mem_write h with h | h | h
          · exact .inl h
          · exact .inr (.inl ⟨name, value, List.mem_cons_self, .inr h⟩)
          · rcases mem_writeFields h with h | ⟨other, value', hother, h⟩ | h
            · exact .inl h
            · exact .inr (.inl ⟨other, value', List.mem_cons_of_mem _ hother, h⟩)
            · exact .inr (.inr h)

end

theorem mem_render {v : Json} (h : c ∈ v.render.toList) : isSyntax c = true ∨ v.Mentions c := by
  rw [render, String.toList_ofList] at h
  simpa using mem_write h

end Json

namespace Constant

open Json

theorem toList_quote (s : String) :
    (quote s).toList = '\x27' :: (s.toList.flatMap escapeQuote ++ ['\x27']) := by
  simp [quote]

/-- A constant other than a text has no character besides its own, the marks of JSON and the
letters of `NULL`. -/
theorem mentions_of_mem_of_ne_text {c : Char} {v : Json} (notText : ∀ s, v ≠ .text s)
    (h : c ∈ (render v).toList) (notSyntax : isSyntax c = false) (notMark : c ∉ ['N', 'U', 'L']) :
    v.Mentions c := by
  have written (h : c ∈ v.render.toList) : v.Mentions c :=
    (mem_render h).resolve_left (by simp [notSyntax])
  cases v with
  | null =>
    have letters : ∀ x ∈ ['N', 'U', 'L', 'L'], x ∈ ['N', 'U', 'L'] := by simp
    exact (notMark (letters c h)).elim
  | text s => exact (notText s rfl).elim
  | _ => exact written h

/-- A constant as it stands in a clause has no character besides its own, the marks of
JSON, the quotes around a text and the letters of `NULL`. -/
theorem mentions_of_mem {c : Char} {v : Json} (h : c ∈ (render v).toList)
    (notSyntax : isSyntax c = false) (notMark : c ∉ ['\x27', 'N', 'U', 'L']) : v.Mentions c := by
  by_cases text : ∃ s, v = .text s
  · obtain ⟨s, rfl⟩ := text
    rw [render, toList_quote] at h
    rcases List.mem_cons.1 h with rfl | h
    · exact (notMark (by decide)).elim
    · rcases List.mem_append.1 h with h | h
      · obtain ⟨d, hd, h⟩ := List.mem_flatMap.1 h
        unfold escapeQuote at h
        split at h
        · simp only [List.mem_cons, List.not_mem_nil, or_false, or_self] at h
          exact (notMark (by simp [h])).elim
        · obtain rfl := List.mem_singleton.1 h
          exact .text hd
      · obtain rfl := List.mem_singleton.1 h
        exact (notMark (by decide)).elim
  · exact mentions_of_mem_of_ne_text (fun s same => text ⟨s, same⟩) h notSyntax
      fun hmem => notMark (List.mem_cons_of_mem _ hmem)

end Constant
end WhereClause
