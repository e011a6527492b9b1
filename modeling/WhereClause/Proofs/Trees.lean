import WhereClause.Json.Reader

/-!
# Trees of JSON texts

A text that consists of the tokens of a tree is read as the tree, whatever the tree says
(`Json.read?_of_tokens`). A tree has a value exactly if all of its parts have one and it does not
nest too deep (`Json.Written.exists_value?_iff`), so the limit on nesting can be kept apart from
what is right or wrong in a text.
-/
namespace WhereClause.Json

namespace Written

mutual

/-- The tokens of a tree, in their order. -/
def tokens : Written → List Token
  | .null => [.scalar .null]
  | .bool b => [.scalar (.bool b)]
  | .number n => [.scalar (.number n)]
  | .text s => [.text s]
  | .array [] => [.leftBracket, .rightBracket]
  | .array (item :: items) => .leftBracket :: (item.tokens ++ furtherItems items ++ [.rightBracket])
  | .object [] => [.leftBrace, .rightBrace]
  | .object ((name, item) :: members) =>
    .leftBrace :: .text name :: .colon :: (item.tokens ++ furtherMembers members ++ [.rightBrace])

/-- The tokens of further items, each after a comma. -/
def furtherItems : List Written → List Token
  | [] => []
  | item :: items => .comma :: (item.tokens ++ furtherItems items)

/-- The tokens of further members, each after a comma. -/
def furtherMembers : List (Option String × Written) → List Token
  | [] => []
  | (name, item) :: members =>
    .comma :: .text name :: .colon :: (item.tokens ++ furtherMembers members)

end

end Written

namespace Reading

open Written (furtherItems furtherMembers)

/-- A tree begins an array as it begins anywhere. -/
theorem run_firstItem (w : Written) (around : List Open) (ts : List Token) :
    (firstItem around).run (w.tokens ++ ts) = (value (.array [] :: around)).run (w.tokens ++ ts) := by
  have begins : ∃ t tail, w.tokens = t :: tail ∧
      (firstItem around).step t = (value (.array [] :: around)).step t := by
    match w with
    | .null | .bool _ | .number _ | .text _ => exact ⟨_, _, rfl, rfl⟩
    | .array [] | .array (_ :: _) | .object [] | .object ((_, _) :: _) => exact ⟨_, _, rfl, rfl⟩
  obtain ⟨t, tail, tokens, same⟩ := begins
  rw [tokens, List.cons_append, run, run, same]

mutual

/-- The tokens of a tree are put together to it, whatever is open around it. -/
theorem run_tokens : ∀ (w : Written) (around : List Open) (ts : List Token),
    (value around).run (w.tokens ++ ts) = (after w around).run ts
  | .null, around, ts => rfl
  | .bool b, around, ts => rfl
  | .number n, around, ts => rfl
  | .text s, around, ts => rfl
  | .array [], around, ts => rfl
  | .array (item :: items), around, ts => by
    have hitem := run_tokens item (.array [] :: around) (furtherItems items ++ .rightBracket :: ts)
    have hitems := run_furtherItems items item [] around ts
    calc (value around).run ((Written.array (item :: items)).tokens ++ ts)
        = (firstItem around).run (item.tokens ++ (furtherItems items ++ .rightBracket :: ts)) := by
          simp [Written.tokens, run, step, begin?]
      _ = (after (.array (item :: items)) around).run ts := by
          rw [run_firstItem, hitem, hitems]
          rfl
  | .object [], around, ts => rfl
  | .object ((label, item) :: members), around, ts => by
    have hitem := run_tokens item (.object [] label :: around)
      (furtherMembers members ++ .rightBrace :: ts)
    have hmembers := run_furtherMembers members label item [] around ts
    calc (value around).run ((Written.object ((label, item) :: members)).tokens ++ ts)
        = (value (.object [] label :: around)).run
            (item.tokens ++ (furtherMembers members ++ .rightBrace :: ts)) := by
          simp [Written.tokens, run, step, begin?]
      _ = (after (.object ((label, item) :: members)) around).run ts := by
          rw [hitem, hmembers]
          rfl

theorem run_furtherItems : ∀ (items : List Written) (w : Written) (before : List Written)
    (around : List Open) (ts : List Token),
    (after w (.array before :: around)).run (furtherItems items ++ .rightBracket :: ts)
      = (after (.array (before.reverse ++ w :: items)) around).run ts
  | [], w, before, around, ts => by
    simp [furtherItems, run, step, continue?]
  | item :: items, w, before, around, ts => by
    have hitem := run_tokens item (.array (w :: before) :: around)
      (furtherItems items ++ .rightBracket :: ts)
    have hitems := run_furtherItems items item (w :: before) around ts
    calc (after w (.array before :: around)).run
          (furtherItems (item :: items) ++ .rightBracket :: ts)
        = (value (.array (w :: before) :: around)).run
            (item.tokens ++ (furtherItems items ++ .rightBracket :: ts)) := by
          simp [furtherItems, run, step, continue?]
      _ = (after (.array ((w :: before).reverse ++ item :: items)) around).run ts := by
          rw [hitem, hitems]
      _ = (after (.array (before.reverse ++ w :: item :: items)) around).run ts := by simp

theorem run_furtherMembers : ∀ (members : List (Option String × Written)) (label : Option String)
    (w : Written) (before : List (Option String × Written)) (around : List Open)
    (ts : List Token),
    (after w (.object before label :: around)).run (furtherMembers members ++ .rightBrace :: ts)
      = (after (.object (before.reverse ++ (label, w) :: members)) around).run ts
  | [], label, w, before, around, ts => by
    simp [furtherMembers, run, step, continue?]
  | (next, item) :: members, label, w, before, around, ts => by
    have hitem := run_tokens item (.object ((label, w) :: before) next :: around)
      (furtherMembers members ++ .rightBrace :: ts)
    have hmembers := run_furtherMembers members next item ((label, w) :: before) around ts
    calc (after w (.object before label :: around)).run
          (furtherMembers ((next, item) :: members) ++ .rightBrace :: ts)
        = (value (.object ((label, w) :: before) next :: around)).run
            (item.tokens ++ (furtherMembers members ++ .rightBrace :: ts)) := by
          simp [furtherMembers, run, step, continue?]
      _ = (after (.object (((label, w) :: before).reverse ++ (next, item) :: members)) around).run
            ts := by rw [hitem, hmembers]
      _ = (after (.object (before.reverse ++ (label, w) :: (next, item) :: members)) around).run
            ts := by simp

end

end Reading

/-- A text that consists of the tokens of a tree is read as the tree. -/
theorem read?_of_tokens {s : String} {w : Written} (h : tokens? s.toList = some w.tokens) :
    read? s = some w := by
  have assembled := Reading.run_tokens w [] []
  rw [List.append_nil] at assembled
  rw [read?, h, Option.bind_some, Written.ofTokens?, assembled]
  rfl

namespace Written

mutual

/-- How many arrays and objects stand inside one another. -/
def nesting : Written → Nat
  | .array items => nestingOfItems items + 1
  | .object members => nestingOfMembers members + 1
  | _ => 0

def nestingOfItems : List Written → Nat
  | [] => 0
  | item :: items => max item.nesting (nestingOfItems items)

def nestingOfMembers : List (Option String × Written) → Nat
  | [] => 0
  | (_, item) :: members => max item.nesting (nestingOfMembers members)

end

/-- No number is out of range, and what stands between quotes is always a text. -/
inductive Valid : Written → Prop
  | null : Valid .null
  | bool (b : Bool) : Valid (.bool b)
  | int (n : Int) : Valid (.number (.int n))
  | float (x : Binary64) : Valid (.number (.float x))
  | text (s : String) : Valid (.text (some s))
  | array {items : List Written} (h : ∀ item ∈ items, item.Valid) : Valid (.array items)
  | object {members : List (Option String × Written)}
      (names : ∀ member ∈ members, ∃ name, member.1 = some name)
      (h : ∀ member ∈ members, member.2.Valid) : Valid (.object members)

theorem valid_array_iff {items : List Written} :
    (array items).Valid ↔ ∀ item ∈ items, item.Valid :=
  ⟨fun | .array h => h, .array⟩

theorem valid_object_iff {members : List (Option String × Written)} :
    (object members).Valid ↔ (∀ member ∈ members, ∃ name, member.1 = some name) ∧
      ∀ member ∈ members, member.2.Valid :=
  ⟨fun | .object names h => ⟨names, h⟩, fun ⟨names, h⟩ => .object names h⟩

mutual

/-- A tree has a value if all of it is valid and it does not nest too deep, and not otherwise. -/
theorem exists_value?_iff : ∀ (w : Written) (n : Nat),
    (∃ v, w.value? n = some v) ↔ w.Valid ∧ w.nesting ≤ n
  | .null, n => by simp [value?, nesting, Valid.null]
  | .bool b, n => by simp [value?, nesting, Valid.bool]
  | .number (.int i), n => by simp [value?, nesting, Valid.int]
  | .number (.float x), n => by simp [value?, nesting, Valid.float]
  | .number .tooLarge, n => ⟨nofun, nofun⟩
  | .text none, n => ⟨nofun, nofun⟩
  | .text (some s), n => by simp [value?, nesting, Valid.text]
  | .array items, 0 => by simp [value?, nesting]
  | .array items, n + 1 => by
    have inner := exists_values?_iff items n
    rw [valid_array_iff, nesting, Nat.add_le_add_iff_right, ← inner]
    constructor
    · rintro ⟨v, hv⟩
      obtain ⟨vs, hvs, -⟩ := Option.map_eq_some_iff.1 hv
      exact ⟨vs, hvs⟩
    · rintro ⟨vs, hvs⟩
      exact ⟨.array vs, Option.map_eq_some_iff.2 ⟨vs, hvs, rfl⟩⟩
  | .object members, 0 => by simp [value?, nesting]
  | .object members, n + 1 => by
    have inner := exists_fields?_iff members n
    rw [valid_object_iff, nesting, Nat.add_le_add_iff_right, and_assoc, ← inner]
    constructor
    · rintro ⟨v, hv⟩
      obtain ⟨fields, hfields, -⟩ := Option.map_eq_some_iff.1 hv
      exact ⟨fields, hfields⟩
    · rintro ⟨fields, hfields⟩
      exact ⟨.ofPairs fields, Option.map_eq_some_iff.2 ⟨fields, hfields, rfl⟩⟩

theorem exists_values?_iff : ∀ (items : List Written) (n : Nat),
    (∃ vs, values? n items = some vs) ↔ (∀ item ∈ items, item.Valid) ∧ nestingOfItems items ≤ n
  | [], n => by simp [values?, nestingOfItems]
  | item :: items, n => by
    have first := exists_value?_iff item n
    have rest := exists_values?_iff items n
    have both : (∃ vs, values? n (item :: items) = some vs)
        ↔ (∃ v, item.value? n = some v) ∧ ∃ vs, values? n items = some vs := by
      simp only [values?, Option.bind_eq_bind, Option.bind_eq_some_iff]
      constructor
      · rintro ⟨_, v, hv, vs, hvs, -⟩
        exact ⟨⟨v, hv⟩, vs, hvs⟩
      · rintro ⟨⟨v, hv⟩, vs, hvs⟩
        exact ⟨_, v, hv, vs, hvs, rfl⟩
    rw [both, first, rest, List.forall_mem_cons, nestingOfItems, Nat.max_le]
    exact and_and_and_comm

theorem exists_fields?_iff : ∀ (members : List (Option String × Written)) (n : Nat),
    (∃ fields, fields? n members = some fields) ↔
      (∀ member ∈ members, ∃ name, member.1 = some name) ∧
      (∀ member ∈ members, member.2.Valid) ∧ nestingOfMembers members ≤ n
  | [], n => by simp [fields?, nestingOfMembers]
  | (name, item) :: members, n => by
    have first := exists_value?_iff item n
    have rest := exists_fields?_iff members n
    have all : (∃ fields, fields? n ((name, item) :: members) = some fields)
        ↔ (∃ text, name = some text) ∧ (∃ v, item.value? n = some v) ∧
          ∃ fields, fields? n members = some fields := by
      simp only [fields?, Option.bind_eq_bind, Option.bind_eq_some_iff]
      constructor
      · rintro ⟨_, text, htext, v, hv, fields, hfields, -⟩
        exact ⟨⟨text, htext⟩, ⟨v, hv⟩, fields, hfields⟩
      · rintro ⟨⟨text, htext⟩, ⟨v, hv⟩, fields, hfields⟩
        exact ⟨_, text, htext, v, hv, fields, hfields, rfl⟩
    rw [all, first, rest, List.forall_mem_cons, List.forall_mem_cons, nestingOfMembers, Nat.max_le]
    constructor
    · rintro ⟨text, ⟨valid, nests⟩, texts, valids, nest⟩
      exact ⟨⟨text, texts⟩, ⟨valid, valids⟩, nests, nest⟩
    · rintro ⟨⟨text, texts⟩, ⟨valid, valids⟩, nests, nest⟩
      exact ⟨text, ⟨valid, nests⟩, texts, valids, nest⟩

end

theorem hasValue_iff {w : Written} :
    w.hasValue = true ↔ w.Valid ∧ w.nesting ≤ greatestNesting := by
  rw [hasValue, Option.isSome_iff_exists, exists_value?_iff]

end Written
end WhereClause.Json
