import WhereClause.Proofs.Scanning
import WhereClause.Proofs.Trees

/-!
# Reading back what was written

The text of a value without doubles is read as the tree of the value (`Json.read?_render`).
A tree has the value that it was made from if the fields of its objects ascend and it does
not nest too deep (`Json.value?_toWritten`); that it has any value depends on its nesting
alone (`Json.exists_value?_toWritten`).
-/
namespace WhereClause.Json

mutual

/-- The tokens of a value are those of its tree. -/
theorem tokens_toWritten : ∀ j : Json, j.toWritten.tokens = j.tokens
  | .null | .bool _ | .int _ | .float _ | .text _ | .array [] | .object [] => rfl
  | .array (item :: items) => by
    rw [toWritten, toWrittenItems, Written.tokens, tokens, tokens_toWritten item,
      furtherItems_toWritten items]
  | .object ((name, value) :: fields) => by
    rw [toWritten, toWrittenFields, Written.tokens, tokens, tokens_toWritten value,
      furtherMembers_toWritten fields]

theorem furtherItems_toWritten : ∀ items : List Json,
    Written.furtherItems (toWrittenItems items) = tokensOfItems items
  | [] => rfl
  | item :: items => by
    rw [toWrittenItems, Written.furtherItems, tokensOfItems, tokens_toWritten item,
      furtherItems_toWritten items]

theorem furtherMembers_toWritten : ∀ fields : List (String × Json),
    Written.furtherMembers (toWrittenFields fields) = tokensOfFields fields
  | [] => rfl
  | (name, value) :: fields => by
    rw [toWrittenFields, Written.furtherMembers, tokensOfFields, tokens_toWritten value,
      furtherMembers_toWritten fields]

end

/-- The text of a value is read as the tree of the value. -/
theorem read?_render {j : Json} (h : j.Integral) : read? j.render = some j.toWritten :=
  read?_of_tokens ((tokens?_render h).trans (congrArg some (tokens_toWritten j).symm))

mutual

/-- How many arrays and objects stand inside one another. -/
def nesting : Json → Nat
  | .array items => nestingOfItems items + 1
  | .object fields => nestingOfFields fields + 1
  | _ => 0

def nestingOfItems : List Json → Nat
  | [] => 0
  | item :: items => max item.nesting (nestingOfItems items)

def nestingOfFields : List (String × Json) → Nat
  | [] => 0
  | (_, value) :: fields => max value.nesting (nestingOfFields fields)

end

/-- The fields of every object ascend. -/
inductive Sorted : Json → Prop
  | null : Sorted .null
  | bool (b : Bool) : Sorted (.bool b)
  | int (n : Int) : Sorted (.int n)
  | float (x : Binary64) : Sorted (.float x)
  | text (s : String) : Sorted (.text s)
  | array {items : List Json} (h : ∀ item ∈ items, item.Sorted) : Sorted (.array items)
  | object {fields : List (String × Json)} (hkeys : Keyed.Ascending fields)
      (h : ∀ field ∈ fields, field.2.Sorted) : Sorted (.object fields)

open Written (value? values? fields?)

mutual

/-- A tree that does not nest too deep has a value. -/
theorem exists_value?_toWritten : ∀ {j : Json} {n : Nat}, j.nesting ≤ n →
    ∃ v, j.toWritten.value? n = some v
  | .null, n, _ => ⟨_, rfl⟩
  | .bool b, n, _ => ⟨_, rfl⟩
  | .int i, n, _ => ⟨_, rfl⟩
  | .float x, n, _ => ⟨_, rfl⟩
  | .text s, n, _ => ⟨_, rfl⟩
  | .array items, n + 1, h => by
    rw [nesting] at h
    obtain ⟨vs, hvs⟩ := exists_values?_toWrittenItems (Nat.le_of_succ_le_succ h)
    exact ⟨.array vs, by rw [toWritten, value?, hvs]; rfl⟩
  | .object fields, n + 1, h => by
    rw [nesting] at h
    obtain ⟨vs, hvs⟩ := exists_fields?_toWrittenFields (Nat.le_of_succ_le_succ h)
    exact ⟨.ofPairs vs, by rw [toWritten, value?, hvs]; rfl⟩

theorem exists_values?_toWrittenItems : ∀ {items : List Json} {n : Nat}, nestingOfItems items ≤ n →
    ∃ vs, values? n (toWrittenItems items) = some vs
  | [], n, _ => ⟨_, rfl⟩
  | item :: items, n, h => by
    obtain ⟨hitem, hitems⟩ := Nat.max_le.1 h
    obtain ⟨v, hv⟩ := exists_value?_toWritten hitem
    obtain ⟨vs, hvs⟩ := exists_values?_toWrittenItems hitems
    exact ⟨v :: vs, by rw [toWrittenItems, values?, hv, hvs]; rfl⟩

theorem exists_fields?_toWrittenFields : ∀ {fields : List (String × Json)} {n : Nat},
    nestingOfFields fields ≤ n → ∃ vs, fields? n (toWrittenFields fields) = some vs
  | [], n, _ => ⟨_, rfl⟩
  | (name, value) :: fields, n, h => by
    obtain ⟨hvalue, hfields⟩ := Nat.max_le.1 h
    obtain ⟨v, hv⟩ := exists_value?_toWritten hvalue
    obtain ⟨vs, hvs⟩ := exists_fields?_toWrittenFields hfields
    exact ⟨(name, v) :: vs, by rw [toWrittenFields, fields?, hv, hvs]; rfl⟩

end

mutual

/-- The tree of a value has the value, if its fields ascend and it does not nest too deep. -/
theorem value?_toWritten : ∀ {j : Json} {n : Nat}, j.Sorted → j.nesting ≤ n →
    j.toWritten.value? n = some j
  | .null, n, _, _ => rfl
  | .bool b, n, _, _ => rfl
  | .int i, n, _, _ => rfl
  | .float x, n, _, _ => rfl
  | .text s, n, _, _ => rfl
  | .array items, n + 1, hsorted, h => by
    cases hsorted with
    | array hitems =>
      rw [nesting] at h
      rw [toWritten, value?, values?_toWrittenItems hitems (Nat.le_of_succ_le_succ h)]
      rfl
  | .object fields, n + 1, hsorted, h => by
    cases hsorted with
    | object hkeys hfields =>
      rw [nesting] at h
      rw [toWritten, value?, fields?_toWrittenFields hfields (Nat.le_of_succ_le_succ h),
        Option.map_some, ofPairs, Keyed.ofList_of_ascending hkeys]

theorem values?_toWrittenItems : ∀ {items : List Json} {n : Nat},
    (∀ item ∈ items, item.Sorted) → nestingOfItems items ≤ n →
    values? n (toWrittenItems items) = some items
  | [], n, _, _ => rfl
  | item :: items, n, hsorted, h => by
    obtain ⟨nestsItem, nestsItems⟩ := Nat.max_le.1 h
    have hitem := value?_toWritten (hsorted item List.mem_cons_self) nestsItem
    have hitems := values?_toWrittenItems
      (fun other hother => hsorted other (List.mem_cons_of_mem item hother)) nestsItems
    rw [toWrittenItems, values?, hitem, hitems]
    rfl

theorem fields?_toWrittenFields : ∀ {fields : List (String × Json)} {n : Nat},
    (∀ field ∈ fields, field.2.Sorted) → nestingOfFields fields ≤ n →
    fields? n (toWrittenFields fields) = some fields
  | [], n, _, _ => rfl
  | (name, value) :: fields, n, hsorted, h => by
    obtain ⟨nestsValue, nestsFields⟩ := Nat.max_le.1 h
    have hvalue := value?_toWritten (hsorted (name, value) List.mem_cons_self) nestsValue
    have hfields := fields?_toWrittenFields
      (fun other hother => hsorted other (List.mem_cons_of_mem _ hother)) nestsFields
    rw [toWrittenFields, fields?, hvalue, hfields]
    rfl

end

end WhereClause.Json
