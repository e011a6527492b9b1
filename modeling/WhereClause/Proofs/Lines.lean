import WhereClause.Proofs.Characters

/-!
# Values on one line

What is written of a value stands on one line, whatever characters its texts and field names
have: controls are escaped between quotes, and nothing else that is written is a control
(`Json.isLine_render`).
-/
namespace WhereClause

namespace Text

/-- No control character is among the characters, and so no line break. -/
def Unbroken (cs : List Char) : Prop := ∀ c ∈ cs, 0x20 ≤ c.toNat

/-- The text stands on one line. -/
def IsLine (s : String) : Prop := Unbroken s.toList

@[simp] theorem unbroken_nil : Unbroken [] := nofun

@[simp] theorem unbroken_cons (c : Char) (cs : List Char) :
    Unbroken (c :: cs) ↔ 0x20 ≤ c.toNat ∧ Unbroken cs := List.forall_mem_cons

@[simp] theorem unbroken_append (cs ds : List Char) :
    Unbroken (cs ++ ds) ↔ Unbroken cs ∧ Unbroken ds := List.forall_mem_append

theorem IsLine.not_mem {s : String} (h : IsLine s) : '\n' ∉ s.toList ∧ '\r' ∉ s.toList := by
  constructor
  · intro newline
    have shown := h _ newline
    contradiction
  · intro carriageReturn
    have shown := h _ carriageReturn
    contradiction

end Text

open Text

namespace Json

/-- No mark of JSON is a control. -/
theorem le_toNat_of_isSyntax {c : Char} (h : isSyntax c = true) : 0x20 ≤ c.toNat := by
  simp only [isSyntax, Bool.or_eq_true] at h
  rcases h with (digit | letter) | mark
  · simp only [Char.isDigit, ge_iff_le, Bool.and_eq_true, decide_eq_true_eq,
      UInt32.le_iff_toNat_le] at digit
    exact Nat.le_trans (by decide) digit.1
  · have bounds : (decide ('a'.val ≤ c.val) && decide (c.val ≤ 'z'.val)) = true := letter
    simp only [Bool.and_eq_true, decide_eq_true_eq, UInt32.le_iff_toNat_le] at bounds
    exact Nat.le_trans (by decide) bounds.1
  · have marks : Unbroken ['[', ']', '\x7b', '\x7d', ',', ':', '"', '\\', '.', '+', '-'] := by simp
    exact marks c (List.contains_iff_mem.1 mark)

/-- Between quotes a control is escaped, and no escape is one. -/
theorem unbroken_escape (c : Char) : Unbroken (Quoted.escape c) := by
  have escaped := Quoted.escaped_escape c
  generalize Quoted.escape c = form at escaped ⊢
  cases escaped with
  | named letter hletter =>
    have letters : Unbroken Quoted.escapeLetters := by simp [Quoted.escapeLetters]
    simpa using letters letter hletter
  | unit hcontrol =>
    have high := le_toNat_of_isSyntax (isSyntax_hexDigit (n := c.toNat / 16) (by omega))
    have low := le_toNat_of_isSyntax (isSyntax_hexDigit (n := c.toNat % 16) (by omega))
    simpa using ⟨high, low⟩
  | itself _ _ notControl => simpa using Nat.le_of_not_lt notControl

/-- Between quotes every text is unbroken. -/
theorem unbroken_quoted (s : String) {rest : List Char} (h : Unbroken rest) :
    Unbroken (Quoted.write s rest) := by
  have body : Unbroken (s.toList.flatMap Quoted.escape) := by
    intro c hc
    obtain ⟨d, -, hc⟩ := List.mem_flatMap.1 hc
    exact unbroken_escape d c hc
  simpa [Quoted.write] using ⟨body, h⟩

mutual

/-- In front of what is unbroken every value is. -/
theorem unbroken_write : ∀ (v : Json) {rest : List Char}, Unbroken rest → Unbroken (v.write rest)
  | .null, _, h => by simpa [write] using h
  | .bool true, _, h => by simpa [write] using h
  | .bool false, _, h => by simpa [write] using h
  | .int n, _, h => by
    have numeral : Unbroken (intChars n) := fun _ hc =>
      le_toNat_of_isSyntax (isSyntax_of_mem_intChars hc)
    exact (unbroken_append _ _).2 ⟨numeral, h⟩
  | .float x, _, h => by
    have numeral : Unbroken (floatChars x) := fun _ hc =>
      le_toNat_of_isSyntax (isSyntax_of_mem_floatChars hc)
    exact (unbroken_append _ _).2 ⟨numeral, h⟩
  | .text s, _, h => unbroken_quoted s h
  | .array [], _, h => by simpa [write] using h
  | .array (item :: items), rest, h => by
    have close : Unbroken (']' :: rest) := by simpa using h
    simpa [write] using unbroken_write item (unbroken_writeItems items close)
  | .object [], _, h => by simpa [write] using h
  | .object ((name, value) :: fields), rest, h => by
    have close : Unbroken ('\x7d' :: rest) := by simpa using h
    have field : Unbroken (':' :: value.write (writeFields fields ('\x7d' :: rest))) := by
      simpa using unbroken_write value (unbroken_writeFields fields close)
    simpa [write] using unbroken_quoted name field

theorem unbroken_writeItems : ∀ (items : List Json) {rest : List Char}, Unbroken rest →
    Unbroken (writeItems items rest)
  | [], _, h => h
  | item :: items, _, h => by
    simpa [writeItems] using unbroken_write item (unbroken_writeItems items h)

theorem unbroken_writeFields : ∀ (fields : List (String × Json)) {rest : List Char},
    Unbroken rest → Unbroken (writeFields fields rest)
  | [], _, h => h
  | (name, value) :: fields, rest, h => by
    have field : Unbroken (':' :: value.write (writeFields fields rest)) := by
      simpa using unbroken_write value (unbroken_writeFields fields h)
    simpa [writeFields] using unbroken_quoted name field

end

/-- A written value has no line break in it. -/
theorem isLine_render (v : Json) : IsLine v.render := by
  rw [IsLine, render, String.toList_ofList]
  exact unbroken_write v unbroken_nil

end Json
end WhereClause
