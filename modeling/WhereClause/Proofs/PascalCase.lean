import Mathlib
import WhereClause.Proofs.Registrations

/-!
# Columns of Pascal-case properties

A name in Pascal case is made of ASCII letters and digits and begins with a capital. It can be read
back from its column (`propertyOf_snakeColumn`), in which an underscore says that the letter behind
it was a capital. So no two such properties are mapped to one column (`snakeColumn_pascal`).
-/
namespace WhereClause

namespace Text

variable {c : Char}

theorem isAlphanum_of_isUpper (h : c.isUpper = true) : c.isAlphanum = true := by
  simp [Char.isAlphanum, Char.isAlpha, h]

theorem toNat_lt_of_isAlphanum (h : c.isAlphanum = true) : c.toNat < 128 := by
  simp only [Char.isAlphanum, Char.isAlpha, Char.isUpper, Char.isLower, Char.isDigit,
    Bool.or_eq_true, Bool.and_eq_true, decide_eq_true_eq, UInt32.le_iff_toNat_le, ge_iff_le] at h
  have value : c.toNat = c.val.toNat := rfl
  have capital : 'Z'.val.toNat = 90 := rfl
  have small : 'z'.val.toNat = 122 := rfl
  have digit : '9'.val.toNat = 57 := rfl
  omega

theorem ne_underscore_of_isAlphanum (h : c.isAlphanum = true) : c ≠ '_' := by
  rintro rfl
  revert h
  decide

/-- A capital is the capital of its small letter. -/
theorem toUpper_toLower_of_isUpper (h : c.isUpper = true) : c.toLower.toUpper = c := by
  rw [Char.toUpper_toLower_eq_toUpper,
    Char.toUpper_eq_of_not_isLower (Char.not_isLower_of_isUpper h)]

theorem isAlphanum_toLower_of_isUpper (h : c.isUpper = true) : c.toLower.isAlphanum = true := by
  simp [Char.isAlphanum, Char.isAlpha, h]

/-- The text is made of ASCII letters and digits and begins with a capital. -/
def isPascal (s : String) : Bool :=
  s.toList.head?.any Char.isUpper && s.toList.all Char.isAlphanum

theorem isPascal_iff (s : String) : isPascal s = true ↔
    ∃ c cs, s.toList = c :: cs ∧ c.isUpper = true ∧ ∀ d ∈ cs, d.isAlphanum = true := by
  rw [isPascal]
  cases s.toList with
  | nil => simp
  | cons c cs =>
    simp only [List.head?_cons, Option.any_some, List.all_cons, Bool.and_eq_true,
      List.all_eq_true, List.cons.injEq]
    constructor
    · rintro ⟨first, -, rest⟩
      exact ⟨c, cs, ⟨rfl, rfl⟩, first, rest⟩
    · rintro ⟨_, _, ⟨rfl, rfl⟩, first, rest⟩
      exact ⟨first, isAlphanum_of_isUpper first, rest⟩

end Text

open Text

/-- What stood behind the first character of a property name. An underscore makes a capital of the
character behind it. -/
def innerNameChars : List Char → List Char
  | [] => []
  | [c] => [c]
  | mark :: c :: cs =>
    if mark = '_' then c.toUpper :: innerNameChars cs else mark :: innerNameChars (c :: cs)

/-- The property in Pascal case that a column is named after. -/
def propertyOf (column : String) : String :=
  match column.toList with
  | [] => ""
  | c :: cs => String.ofList (c.toUpper :: innerNameChars cs)

section Inner

variable {c : Char} {cs : List Char}

theorem innerNameChars_cons (h : c ≠ '_') (cs : List Char) :
    innerNameChars (c :: cs) = c :: innerNameChars cs := by
  cases cs with
  | nil => rfl
  | cons d ds => rw [innerNameChars, if_neg h]

theorem innerColumnChars_of_isUpper (h : c.isUpper = true) :
    innerColumnChars c = ['_', c.toLower] := by
  have ascii := toNat_lt_of_isAlphanum (isAlphanum_of_isUpper h)
  rw [innerColumnChars, isUppercase_of_ascii ascii, if_pos h, lowercase_of_ascii ascii]

theorem innerColumnChars_of_not_isUpper (h : c.isAlphanum = true) (small : c.isUpper = false) :
    innerColumnChars c = [c] := by
  have ascii := toNat_lt_of_isAlphanum h
  have itself : c.toLower = c := Char.toLower_eq_of_not_isUpper (by simp [small])
  rw [innerColumnChars, isUppercase_of_ascii ascii, small, lowercase_of_ascii ascii, itself]
  rfl

/-- In the column every capital is a small letter behind an underscore, and becomes a capital
again. -/
theorem innerNameChars_flatMap (h : ∀ d ∈ cs, d.isAlphanum = true) :
    innerNameChars (cs.flatMap innerColumnChars) = cs := by
  induction cs with
  | nil => rfl
  | cons c cs ih =>
    obtain ⟨first, rest⟩ := List.forall_mem_cons.1 h
    rw [List.flatMap_cons]
    cases upper : c.isUpper with
    | true =>
      rw [innerColumnChars_of_isUpper upper, List.cons_append, List.singleton_append,
        innerNameChars, if_pos rfl, toUpper_toLower_of_isUpper upper, ih rest]
    | false =>
      rw [innerColumnChars_of_not_isUpper first upper, List.singleton_append,
        innerNameChars_cons (ne_underscore_of_isAlphanum first), ih rest]

/-- Behind the first character no capital is left. -/
theorem isUpper_of_mem_innerColumnChars (h : c.isAlphanum = true) {d : Char}
    (hd : d ∈ innerColumnChars c) : d.isUpper = false := by
  cases upper : c.isUpper with
  | true =>
    rw [innerColumnChars_of_isUpper upper] at hd
    simp only [List.mem_cons, List.not_mem_nil, or_false] at hd
    rcases hd with rfl | rfl
    · decide
    · exact Char.isUpper_toLower_eq_false c
  | false =>
    rw [innerColumnChars_of_not_isUpper h upper, List.mem_singleton] at hd
    rw [hd, upper]

theorem count_innerColumnChars (h : c.isAlphanum = true) :
    (innerColumnChars c).count '_' = if c.isUpper then 1 else 0 := by
  cases upper : c.isUpper with
  | true =>
    have letter := ne_underscore_of_isAlphanum (isAlphanum_toLower_of_isUpper upper)
    rw [innerColumnChars_of_isUpper upper, List.count_cons_self, List.count_cons_of_ne letter]
    rfl
  | false =>
    rw [innerColumnChars_of_not_isUpper h upper,
      List.count_cons_of_ne (ne_underscore_of_isAlphanum h)]
    rfl

/-- Every underscore stands for one capital. -/
theorem count_flatMap_innerColumnChars (h : ∀ d ∈ cs, d.isAlphanum = true) :
    (cs.flatMap innerColumnChars).count '_' = cs.countP Char.isUpper := by
  induction cs with
  | nil => rfl
  | cons c cs ih =>
    obtain ⟨first, rest⟩ := List.forall_mem_cons.1 h
    rw [List.flatMap_cons, List.count_append, count_innerColumnChars first, ih rest,
      List.countP_cons, Nat.add_comm]

end Inner

theorem toList_snakeColumn {s : String} {c : Char} {cs : List Char} (hs : s.toList = c :: cs)
    (h : c.isUpper = true) :
    (snakeColumn s).toList = c.toLower :: cs.flatMap innerColumnChars := by
  have ascii := toNat_lt_of_isAlphanum (isAlphanum_of_isUpper h)
  rw [snakeColumn, String.toList_ofList, hs, columnChars, lowercase_of_ascii ascii,
    List.singleton_append]

/-- A property in Pascal case can be read back from its column. -/
theorem propertyOf_snakeColumn {s : String} (h : isPascal s = true) :
    propertyOf (snakeColumn s) = s := by
  obtain ⟨c, cs, hs, upper, rest⟩ := (isPascal_iff s).1 h
  rw [propertyOf, toList_snakeColumn hs upper]
  show String.ofList (c.toLower.toUpper :: innerNameChars (cs.flatMap innerColumnChars)) = s
  rw [toUpper_toLower_of_isUpper upper, innerNameChars_flatMap rest, ← hs, String.ofList_toList]

/-- Properties in Pascal case have columns of their own: no other such property has the same one,
and of a list of them each is registered under an identifier that no other one of the list has.
There is no ASCII capital in the column, and there are as many underscores as the name has capitals
behind its first character. -/
theorem snakeColumn_pascal :
    (∀ s t, isPascal s = true → isPascal t = true → snakeColumn s = snakeColumn t → s = t) ∧
    (∀ (m : Mapping) (names : List String), (∀ s ∈ names, isPascal s = true) →
      ∀ s ∈ names, ∃ identifier, (m.autoMap names).lookup? s = some identifier ∧
        ∀ t ∈ names, (m.autoMap names).lookup? t = some identifier → t = s) ∧
    ∀ s, isPascal s = true → (∀ c ∈ (snakeColumn s).toList, c.isUpper = false) ∧
      (snakeColumn s).toList.count '_' = s.toList.tail.countP Char.isUpper := by
  have injective (s t : String) (hs : isPascal s = true) (ht : isPascal t = true)
      (same : snakeColumn s = snakeColumn t) : s = t := by
    rw [← propertyOf_snakeColumn hs, same, propertyOf_snakeColumn ht]
  refine ⟨injective, fun m names pascal s hs => ?_, fun s h => ?_⟩
  · refine ⟨_, (m.lookup?_autoMap names s).trans (if_pos hs), fun t ht same => ?_⟩
    rw [m.lookup?_autoMap names t, if_pos ht] at same
    have columns : snakeColumn t = snakeColumn s := by simpa [← String.toList_inj] using same
    exact injective t s (pascal t ht) (pascal s hs) columns
  · obtain ⟨c, cs, hlist, upper, rest⟩ := (isPascal_iff s).1 h
    rw [toList_snakeColumn hlist upper, hlist]
    constructor
    · intro d hd
      rcases List.mem_cons.1 hd with rfl | hd
      · exact Char.isUpper_toLower_eq_false c
      · obtain ⟨inner, hinner, hd⟩ := List.mem_flatMap.1 hd
        exact isUpper_of_mem_innerColumnChars (rest inner hinner) hd
    · have letter := ne_underscore_of_isAlphanum (isAlphanum_toLower_of_isUpper upper)
      rw [List.count_cons_of_ne letter, count_flatMap_innerColumnChars rest, List.tail_cons]

/-- Names that differ in the case of letters alone, and one with a capital behind a digit. -/
def userNames : List String := ["UserID", "UserId", "Userid", "X2Y"]

theorem userNames_snakeColumn :
    (∀ s ∈ userNames, isPascal s = true) ∧
    snakeColumn "UserID" = "user_i_d" ∧ snakeColumn "UserID" ≠ snakeColumn "UserId" ∧
    ((Mapping.empty "m").autoMap userNames).lookup? "UserID"
      ≠ ((Mapping.empty "m").autoMap userNames).lookup? "Userid" ∧
    (snakeColumn "X2Y").toList.count '_' = 1 := by
  obtain ⟨injective, registered, written⟩ := snakeColumn_pascal
  have pascal : ∀ s ∈ userNames, isPascal s = true := by decide +kernel
  refine ⟨pascal, by decide +kernel, fun same => ?_, fun same => ?_, ?_⟩
  · have names := injective "UserID" "UserId" (pascal _ (by decide)) (pascal _ (by decide)) same
    exact absurd names (by decide)
  · obtain ⟨identifier, found, only⟩ :=
      registered (Mapping.empty "m") userNames pascal "UserID" (by decide)
    exact absurd (only "Userid" (by decide) (same.symm.trans found)) (by decide)
  · exact (written "X2Y" (pascal _ (by decide))).2.trans (by decide +kernel)

end WhereClause
