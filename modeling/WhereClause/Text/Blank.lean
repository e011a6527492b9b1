/-!
# Blank text

A text is blank when nothing is left of it after its white space is taken away.
White space is the Unicode property `White_Space`: twenty-five characters, of
which only six are ASCII.
-/
namespace WhereClause.Text

/-- The ranges of the property `White_Space`, ascending, both ends included. -/
def whiteSpaceRanges : List (Nat × Nat) :=
  [(0x09, 0x0D), (0x20, 0x20), (0x85, 0x85), (0xA0, 0xA0), (0x1680, 0x1680),
   (0x2000, 0x200A), (0x2028, 0x2029), (0x202F, 0x202F), (0x205F, 0x205F), (0x3000, 0x3000)]

/-- The character has the property `White_Space`. -/
def isWhiteSpace (c : Char) : Bool :=
  whiteSpaceRanges.any fun (first, last) => decide (first ≤ c.toNat) && decide (c.toNat ≤ last)

/-- The text is empty, or white space throughout. -/
def isBlank (s : String) : Bool :=
  s.toList.all isWhiteSpace

theorem isBlank_eq_false_iff (s : String) :
    isBlank s = false ↔ ∃ c ∈ s.toList, isWhiteSpace c = false := by
  simp [isBlank]

end WhereClause.Text
