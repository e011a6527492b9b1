/-!
# Parts of a text

Texts that hold several names apart by a mark: a member path by points, a file path
by slashes. A text has one part more than it has marks, and a part can be empty.
The parts with the mark between them are the text again (`intercalate_parts`).
-/
namespace WhereClause.Text

/-- The parts of `cs`, the first of which goes on from `begun`, held last first. -/
def partsFrom (mark : Char) : List Char → List Char → List (List Char)
  | [], begun => [begun.reverse]
  | c :: cs, begun =>
    if c = mark then begun.reverse :: partsFrom mark cs [] else partsFrom mark cs (c :: begun)

/-- The parts of a text between its marks; a text without marks is one part. -/
def parts (mark : Char) (s : String) : List String :=
  (partsFrom mark s.toList []).map String.ofList

theorem partsFrom_ne_nil (mark : Char) (cs begun : List Char) : partsFrom mark cs begun ≠ [] := by
  induction cs generalizing begun with
  | nil => simp [partsFrom]
  | cons c cs ih =>
    unfold partsFrom
    split
    · simp
    · exact ih _

theorem intercalate_partsFrom (mark : Char) (cs begun : List Char) :
    [mark].intercalate (partsFrom mark cs begun) = begun.reverse ++ cs := by
  induction cs generalizing begun with
  | nil => simp [partsFrom]
  | cons c cs ih =>
    unfold partsFrom
    split
    · next h =>
      obtain ⟨part, parts, hp⟩ := List.exists_cons_of_ne_nil (partsFrom_ne_nil mark cs [])
      have hrest := ih []
      rw [hp] at hrest ⊢
      rw [List.intercalate_cons_cons, hrest, h]
      simp
    · rw [ih]
      simp

/-- No mark and no part is lost. -/
theorem intercalate_parts (mark : Char) (s : String) :
    (String.singleton mark).intercalate (parts mark s) = s := by
  apply String.toList_injective
  rw [String.toList_intercalate, parts, List.map_map]
  simp [Function.comp_def, intercalate_partsFrom]

end WhereClause.Text
