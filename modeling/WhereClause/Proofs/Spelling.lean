import WhereClause.Clause.OfNode

/-!
# How a clause is spelled

The characters of a text, part by part, so that a text can be read character by character
and what follows it can be named.
-/
namespace WhereClause

/-- The separator and the parts are all that there is. -/
theorem mem_or_mem_of_mem_intercalate {separator : List Char} {parts : List (List Char)} {c : Char}
    (h : c ∈ separator.intercalate parts) : c ∈ separator ∨ ∃ part ∈ parts, c ∈ part := by
  induction parts with
  | nil => cases h
  | cons part parts ih =>
    cases parts with
    | nil => exact .inr ⟨part, List.mem_singleton_self _, by simpa using h⟩
    | cons next parts =>
      rw [List.intercalate_cons_cons, List.mem_append, List.mem_append] at h
      rcases h with (h | h) | h
      · exact .inr ⟨part, List.mem_cons_self, h⟩
      · exact .inl h
      · rcases ih h with h | ⟨other, hother, h⟩
        · exact .inl h
        · exact .inr ⟨other, List.mem_cons_of_mem _ hother, h⟩

theorem MemberPath.mem_dotted {path : MemberPath} {c : Char} (h : c ∈ path.dotted.toList) :
    c = '.' ∨ ∃ s ∈ path.segments, c ∈ s.toList := by
  rw [dotted, String.toList_intercalate] at h
  rcases mem_or_mem_of_mem_intercalate h with h | ⟨part, hpart, h⟩
  · exact .inl (by simpa using h)
  · obtain ⟨s, hs, rfl⟩ := List.mem_map.1 hpart
    exact .inr ⟨s, hs, h⟩

theorem parameterName_toList (segments : List String) (kind : Kind) :
    (parameterName segments kind).toList
      = segments.flatMap String.toList ++ if kind.isCollection then "Collection".toList else [] := by
  rw [parameterName, String.toList_append, String.toList_join]
  split <;> rfl

/-- All characters of a name are of a sort, if those of the members and of the suffix are. -/
theorem forall_mem_parameterName {p : Char → Bool} {segments : List String} (kind : Kind)
    (hsuffix : "Collection".toList.all p = true)
    (h : ∀ s ∈ segments, ∀ c ∈ s.toList, p c = true) :
    ∀ c ∈ (parameterName segments kind).toList, p c = true := by
  intro c hc
  rw [parameterName_toList, List.mem_append] at hc
  rcases hc with hc | hc
  · obtain ⟨s, hs, hc⟩ := List.mem_flatMap.1 hc
    exact h s hs c hc
  · split at hc
    · exact List.all_eq_true.1 hsuffix c hc
    · cases hc

theorem not_mem_of_forall {p : Char → Bool} {cs : List Char} {d : Char}
    (h : ∀ c ∈ cs, p c = true) (hd : p d = false) : d ∉ cs := by
  intro hmem
  have sort := h d hmem
  rw [hd] at sort
  cases sort

namespace Operation

/-- The characters of the token. -/
def spelling (op : Operation) : List Char := (op.token?.getD "").toList

theorem spelling_of_token {op : Operation} {token : String} (h : op.token = .ok token) :
    token.toList = op.spelling := by
  cases op <;> cases h <;> rfl

/-- The characters that tokens are made of. -/
def isTokenChar (c : Char) : Bool :=
  ['=', '!', '>', '<', '-', 'A', 'N', 'D', 'O', 'R', 'L', 'I', 'K', 'E'].contains c

theorem isTokenChar_of_mem_spelling (op : Operation) :
    ∀ c ∈ op.spelling, isTokenChar c = true := by
  cases op <;> exact List.all_eq_true.1 rfl

theorem not_mem_token {op : Operation} {token : String} {d : Char} (hd : isTokenChar d = false)
    (htoken : op.token = .ok token) : d ∉ token.toList := by
  rw [spelling_of_token htoken]
  exact not_mem_of_forall op.isTokenChar_of_mem_spelling hd

end Operation

namespace Clause

theorem toList_group (left token right : String) :
    (group left token right).toList
      = '(' :: (left.toList ++ ' ' :: (token.toList ++ ' ' :: (right.toList ++ [')']))) := by
  simp [group, String.toList_append]

theorem toList_isNull (operand : Operand) :
    (nullTest operand false).text.toList
      = '(' :: (operand.text.toList ++ ' ' :: ['I', 'S', ' ', 'N', 'U', 'L', 'L', ')']) := by
  simp [text, String.toList_append]

theorem toList_isNotNull (operand : Operand) :
    (nullTest operand true).text.toList
      = '(' :: (operand.text.toList
        ++ ' ' :: ['I', 'S', ' ', 'N', 'O', 'T', ' ', 'N', 'U', 'L', 'L', ')']) := by
  simp [text, String.toList_append]

theorem toList_parameter (name : String) :
    (Operand.parameter name).text.toList = '@' :: name.toList := by
  simp [Operand.text, String.toList_append]

/-- What a formatter puts in front of a placeholder. -/
def wrapBefore : Option Pattern → List Char
  | some .contains | some .endsWith => ['\x27', '%', '\x27', ' ', '+', ' ']
  | some .startsWith | none => []

/-- What a formatter puts behind a placeholder. -/
def wrapAfter : Option Pattern → List Char
  | some .startsWith | some .contains => [' ', '+', ' ', '\x27', '%', '\x27']
  | some .endsWith | none => []

theorem toList_placeholder (formatter : Option Pattern) (name : String) :
    (placeholder formatter name).toList
      = wrapBefore formatter ++ '@' :: (name.toList ++ wrapAfter formatter) := by
  cases formatter with
  | none => simp [placeholder, wrapBefore, wrapAfter, String.toList_append]
  | some pattern =>
    cases pattern <;>
      simp [placeholder, Pattern.apply, wrapBefore, wrapAfter, String.toList_append]

/-- The groups in parentheses that a clause is made of, the clause itself first. -/
def groups : Clause → List Clause
  | join left token right => join left token right :: (left.groups ++ right.groups)
  | constants a token b => [constants a token b]
  | nullTest operand negated => [nullTest operand negated]
  | bound operand token formatter name value => [bound operand token formatter name value]

/-- The text of a clause is there in the text of every clause that it is a part of. -/
theorem text_infix_of_mem_groups {k c : Clause} (h : k ∈ c.groups) :
    k.text.toList <:+: c.text.toList := by
  induction c with
  | join left token right ihleft ihright =>
    rcases List.mem_cons.1 h with rfl | h
    · exact List.infix_refl _
    rw [text, toList_group]
    rcases List.mem_append.1 h with h | h
    · obtain ⟨u, v, whole⟩ := ihleft h
      refine ⟨'(' :: u, v ++ ' ' :: (token.toList ++ ' ' :: (right.text.toList ++ [')'])), ?_⟩
      rw [← whole]
      simp
    · obtain ⟨u, v, whole⟩ := ihright h
      refine ⟨'(' :: (left.text.toList ++ ' ' :: (token.toList ++ ' ' :: u)), v ++ [')'], ?_⟩
      rw [← whole]
      simp
  | constants a token b =>
    obtain rfl := List.mem_singleton.1 h
    exact List.infix_refl _
  | nullTest operand negated =>
    obtain rfl := List.mem_singleton.1 h
    exact List.infix_refl _
  | bound operand token formatter name value =>
    obtain rfl := List.mem_singleton.1 h
    exact List.infix_refl _

end Clause
end WhereClause
