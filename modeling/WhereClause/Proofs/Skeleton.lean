import WhereClause.Proofs.Endings
import WhereClause.Proofs.Names
import WhereClause.Proofs.Reading
import WhereClause.Proofs.Spelling

/-!
# Texts are read in one way

The skeleton of a tree is what its text shows of it: the nesting, the operations, what is
tested or bound where, and the constants that stand in the text; all but the values that
are bound. If names, identifiers and constants keep to their characters, two trees have
the same text only if they have the same skeleton. The proof reads two equal texts from
the left: every part ends where it has to, so what follows it is equal again
(`Skeleton.Legible.text_append_inj`).
-/
namespace WhereClause

/-! Names and identifiers end at the first sign that is not of their characters. -/

/-- A letter, a digit, `_` or `.`. -/
def Text.isPlainChar (c : Char) : Bool := c.isAlphanum || c == '_' || c == '.'

/-- Names and identifiers without any other sign. -/
def Text.IsPlain (s : String) : Prop := ∀ c ∈ s.toList, isPlainChar c = true

theorem Text.IsPlain.not_mem {s : String} (h : IsPlain s) {c : Char}
    (hc : isPlainChar c = false) : c ∉ s.toList :=
  not_mem_of_forall h hc

theorem Text.IsPlain.parameterName {segments : List String} (h : ∀ s ∈ segments, IsPlain s)
    (kind : Kind) : IsPlain (parameterName segments kind) :=
  forall_mem_parameterName kind rfl h

namespace Operand

/-- The identifier or the name is plain. -/
inductive IsPlain : Operand → Prop
  | column {identifier : String} (h : Text.IsPlain identifier) : IsPlain (.column identifier)
  | parameter {name : String} (h : Text.IsPlain name) : IsPlain (.parameter name)

theorem IsPlain.not_mem {operand : Operand} (h : operand.IsPlain) {c : Char} (hat : c ≠ '@')
    (hc : Text.isPlainChar c = false) : c ∉ operand.text.toList := by
  cases h with
  | column h => exact h.not_mem hc
  | parameter h =>
    rw [Clause.toList_parameter, List.mem_cons, not_or]
    exact ⟨hat, h.not_mem hc⟩

theorem IsPlain.text_inj {a b : Operand} (ha : a.IsPlain) (hb : b.IsPlain)
    (h : a.text.toList = b.text.toList) : a = b := by
  have reference {identifier name : String} (hplain : Text.IsPlain identifier) :
      identifier.toList ≠ (Operand.parameter name).text.toList := by
    intro same
    rw [Clause.toList_parameter] at same
    exact hplain.not_mem (c := '@') (by decide) (same ▸ List.mem_cons_self)
  cases ha with
  | column ha =>
    cases hb with
    | column hb =>
      have same := String.toList_inj.1 h
      exact congrArg Operand.column same
    | parameter hb => exact (reference ha h).elim
  | parameter ha =>
    cases hb with
    | column hb => exact (reference hb h.symm).elim
    | parameter hb =>
      rw [Clause.toList_parameter, Clause.toList_parameter, List.cons.injEq] at h
      have same := String.toList_inj.1 h.2
      exact congrArg Operand.parameter same

/-- An operand begins with no other sign than `@`. -/
theorem IsPlain.cons_ne_append {operand : Operand} (h : operand.IsPlain) {c : Char}
    {rest rest' : List Char} (hat : c ≠ '@') (hblank : c ≠ ' ')
    (hc : Text.isPlainChar c = false) :
    c :: rest ≠ operand.text.toList ++ ' ' :: rest' := by
  intro same
  rcases mem_or_eq_of_cons_eq_append same with hmem | hmem
  · exact h.not_mem hat hc hmem
  · exact hblank hmem

end Operand

namespace Operation

/-- The operation has a token that no other has. -/
def IsSpoken (op : Operation) : Prop :=
  op.isLogical = true ∨ op.hasConverse = true ∨ op = .like ∨ op = .within

instance (op : Operation) : Decidable op.IsSpoken := inferInstanceAs (Decidable (_ ∨ _))

theorem IsSpoken.spelling_inj {a b : Operation} (ha : a.IsSpoken) (hb : b.IsSpoken)
    (h : a.spelling = b.spelling) : a = b := by
  revert ha hb h
  cases a <;> cases b <;> decide

theorem blank_not_mem_spelling (op : Operation) : ' ' ∉ op.spelling :=
  not_mem_of_forall op.isTokenChar_of_mem_spelling rfl

/-- No token is the word of a test for null. -/
theorem spelling_ne_is (op : Operation) : op.spelling ≠ ['I', 'S'] := by
  cases op <;> decide

end Operation

/-- What a placeholder is wrapped in tells the formatter. -/
theorem Clause.wrap_inj {f g : Option Pattern} {rest rest' : List Char}
    (before : wrapBefore f = wrapBefore g)
    (after : wrapAfter f ++ ')' :: rest = wrapAfter g ++ ')' :: rest') : f = g ∧ rest = rest' := by
  rcases f with _ | _ | _ | _ <;> rcases g with _ | _ | _ | _ <;>
    simp_all [wrapBefore, wrapAfter]

/-- A placeholder ends at the parenthesis behind it, and what it is wrapped in shows. -/
theorem Clause.placeholder_append_inj {f g : Option Pattern} {name name' : String}
    {rest rest' : List Char} (hname : Text.IsPlain name) (hname' : Text.IsPlain name')
    (h : wrapBefore f ++ '@' :: (name.toList ++ (wrapAfter f ++ ')' :: rest))
      = wrapBefore g ++ '@' :: (name'.toList ++ (wrapAfter g ++ ')' :: rest'))) :
    f = g ∧ name = name' ∧ rest = rest' := by
  have notAt (f : Option Pattern) : '@' ∉ wrapBefore f := by
    rcases f with _ | _ | _ | _ <;> decide
  obtain ⟨before, h⟩ := word_append_inj (notAt f) (notAt g) h
  -- Behind a name stands the blank of what it is wrapped in, or the parenthesis.
  have behind (f : Option Pattern) (rest : List Char) : ∃ d r,
      wrapAfter f ++ ')' :: rest = d :: r ∧ (d = ' ' ∨ d = ')') := by
    rcases f with _ | _ | _ | _
    · exact ⟨_, _, rfl, .inr rfl⟩
    · exact ⟨_, _, rfl, .inl rfl⟩
    · exact ⟨_, _, rfl, .inl rfl⟩
    · exact ⟨_, _, rfl, .inr rfl⟩
  have ends {name : String} (hname : Text.IsPlain name) {d : Char} (hd : d = ' ' ∨ d = ')') :
      d ∉ name.toList := by
    rcases hd with rfl | rfl <;> exact hname.not_mem (by decide)
  obtain ⟨d, r, hr, hd⟩ := behind f rest
  obtain ⟨d', r', hr', hd'⟩ := behind g rest'
  rw [hr, hr'] at h
  obtain ⟨same, after⟩ := ends_append_inj (ends hname' hd) (ends hname hd') h
  rw [← hr, ← hr'] at after
  obtain ⟨formatter, hrest⟩ := wrap_inj before after
  exact ⟨formatter, String.toList_inj.1 same, hrest⟩

/-- What the text of a tree shows of it: all but the values that are bound. -/
inductive Skeleton where
  /-- A test for null, of a column or of a parameter. -/
  | test (op : Operation) (operand : Operand)
  /-- A comparison of a column with a placeholder, wrapped or not. -/
  | bound (op : Operation) (operand : Operand) (formatter : Option Pattern) (name : String)
  | constants (op : Operation) (a b : Json)
  | join (op : Operation) (left right : Skeleton)

namespace Skeleton

/-- Two parts around a word, in parentheses. -/
def group (left word right : List Char) : List Char :=
  '(' :: (left ++ ' ' :: (word ++ ' ' :: (right ++ [')'])))

/-- The text that shows a skeleton. -/
def text : Skeleton → List Char
  | test op operand =>
    group operand.text.toList ['I', 'S']
      (if op = .ne then ['N', 'O', 'T', ' ', 'N', 'U', 'L', 'L'] else ['N', 'U', 'L', 'L'])
  | bound op operand formatter name =>
    group operand.text.toList op.spelling (Clause.placeholder formatter name).toList
  | constants op a b => group (Constant.render a).toList op.spelling (Constant.render b).toList
  | join op left right => group left.text op.spelling right.text

/-- The operations, operands and constants that stand in texts of expressions. -/
inductive Legible : Skeleton → Prop
  | test {op : Operation} {operand : Operand} (hop : op = .eq ∨ op = .ne)
      (hoperand : operand.IsPlain) : Legible (.test op operand)
  | bound {op : Operation} {operand : Operand} {formatter : Option Pattern} {name : String}
      (hop : op.IsSpoken) (hoperand : operand.IsPlain)
      (hformatter : formatter.isSome = true → op = .like) (hname : Text.IsPlain name) :
      Legible (.bound op operand formatter name)
  | constants {op : Operation} {a b : Json} (hop : op.hasConverse = true) (ha : a.IsAtom)
      (hb : b.IsAtom) : Legible (.constants op a b)
  | join {op : Operation} {left right : Skeleton} (hop : op.IsSpoken) (hleft : left.Legible)
      (hright : right.Legible) : Legible (.join op left right)

theorem group_append (left word right rest : List Char) :
    group left word right ++ rest
      = '(' :: (left ++ ' ' :: (word ++ ' ' :: (right ++ ')' :: rest))) := by
  simp [group]

variable {op op' : Operation} {operand operand' : Operand} {rest rest' : List Char}

/-- The left part and the word of a group end at the blank behind them. -/
theorem group_append_inj {left left' word word' right right' : List Char}
    (hleft : ' ' ∉ left) (hleft' : ' ' ∉ left') (hword : ' ' ∉ word) (hword' : ' ' ∉ word')
    (h : group left word right ++ rest = group left' word' right' ++ rest') :
    left = left' ∧ word = word' ∧ right ++ ')' :: rest = right' ++ ')' :: rest' := by
  rw [group_append, group_append, List.cons.injEq] at h
  obtain ⟨sameLeft, h⟩ := word_append_inj hleft hleft' h.2
  obtain ⟨sameWord, h⟩ := word_append_inj hword hword' h
  exact ⟨sameLeft, sameWord, h⟩

variable {formatter formatter' : Option Pattern} {name name' : String} {a a' b b' : Json}

theorem blank_not_mem_text (h : operand.IsPlain) : ' ' ∉ operand.text.toList :=
  h.not_mem (by decide) (by decide)

theorem test_append_inj (hop : op = .eq ∨ op = .ne) (hop' : op' = .eq ∨ op' = .ne)
    (hoperand : operand.IsPlain) (hoperand' : operand'.IsPlain)
    (h : (test op operand).text ++ rest = (test op' operand').text ++ rest') :
    test op operand = test op' operand' ∧ rest = rest' := by
  obtain ⟨left, -, right⟩ := group_append_inj (blank_not_mem_text hoperand)
    (blank_not_mem_text hoperand') (by decide) (by decide) h
  obtain rfl := hoperand.text_inj hoperand' left
  rcases hop with rfl | rfl <;> rcases hop' with rfl | rfl <;> simp_all

theorem bound_append_inj (hop : op.IsSpoken) (hop' : op'.IsSpoken) (hoperand : operand.IsPlain)
    (hoperand' : operand'.IsPlain) (hname : Text.IsPlain name) (hname' : Text.IsPlain name')
    (h : (bound op operand formatter name).text ++ rest
      = (bound op' operand' formatter' name').text ++ rest') :
    bound op operand formatter name = bound op' operand' formatter' name' ∧ rest = rest' := by
  obtain ⟨left, word, right⟩ := group_append_inj (blank_not_mem_text hoperand)
    (blank_not_mem_text hoperand') op.blank_not_mem_spelling op'.blank_not_mem_spelling h
  obtain rfl := hoperand.text_inj hoperand' left
  obtain rfl := hop.spelling_inj hop' word
  rw [Clause.toList_placeholder, Clause.toList_placeholder] at right
  simp only [List.append_assoc, List.cons_append] at right
  obtain ⟨rfl, rfl, rfl⟩ := Clause.placeholder_append_inj hname hname' right
  exact ⟨rfl, rfl⟩

theorem constants_append_inj (hop : op.IsSpoken) (hop' : op'.IsSpoken) (ha : a.IsAtom)
    (ha' : a'.IsAtom) (hb : b.IsAtom) (hb' : b'.IsAtom)
    (h : (constants op a b).text ++ rest = (constants op' a' b').text ++ rest') :
    constants op a b = constants op' a' b' ∧ rest = rest' := by
  rw [text, text, group_append, group_append, List.cons.injEq] at h
  obtain ⟨rfl, tail⟩ := Constant.render_append_inj ha ha' (.inl rfl) h.2
  obtain ⟨word, right⟩ := word_append_inj op.blank_not_mem_spelling op'.blank_not_mem_spelling tail
  obtain rfl := hop.spelling_inj hop' word
  obtain ⟨rfl, rfl⟩ := Constant.render_append_inj hb hb' (.inr rfl) right
  exact ⟨rfl, rfl⟩

theorem test_append_ne_bound (hoperand : operand.IsPlain) (hoperand' : operand'.IsPlain) :
    (test op operand).text ++ rest ≠ (bound op' operand' formatter name).text ++ rest' := by
  intro h
  obtain ⟨-, word, -⟩ := group_append_inj (blank_not_mem_text hoperand)
    (blank_not_mem_text hoperand') (by decide) op'.blank_not_mem_spelling h
  exact op'.spelling_ne_is word.symm

/-- A constant on the left of a group is one word if an operand stands there too. -/
theorem blank_not_mem_render {right right' word word' : List Char} (hoperand : operand.IsPlain)
    (ha : a.IsAtom)
    (h : group operand.text.toList word right ++ rest
      = group (Constant.render a).toList word' right' ++ rest') :
    ' ' ∉ (Constant.render a).toList := by
  cases ha with
  | word ha => exact Constant.not_mem_render ha (by decide) (by decide)
  | text s =>
    rw [Constant.render, Constant.toList_quote, group_append, group_append, List.cons.injEq] at h
    exact (hoperand.cons_ne_append (by decide) (by decide) (by decide) h.2.symm).elim

theorem test_append_ne_constants (hoperand : operand.IsPlain) (ha : a.IsAtom) :
    (test op operand).text ++ rest ≠ (constants op' a b).text ++ rest' := by
  intro h
  obtain ⟨-, word, -⟩ := group_append_inj (blank_not_mem_text hoperand)
    (blank_not_mem_render hoperand ha h) (by decide) op'.blank_not_mem_spelling h
  exact op'.spelling_ne_is word.symm

theorem bound_append_ne_constants (hop : op.IsSpoken) (hop' : op'.hasConverse = true)
    (hoperand : operand.IsPlain) (hformatter : formatter.isSome = true → op = .like)
    (ha : a.IsAtom) (hb : b.IsAtom) :
    (bound op operand formatter name).text ++ rest ≠ (constants op' a b).text ++ rest' := by
  intro h
  obtain ⟨-, word, right⟩ := group_append_inj (blank_not_mem_text hoperand)
    (blank_not_mem_render hoperand ha h) op.blank_not_mem_spelling op'.blank_not_mem_spelling h
  obtain rfl := hop.spelling_inj (.inr (.inl hop')) word
  have plain : formatter = none := by
    cases formatter with
    | none => rfl
    | some pattern =>
      cases hformatter rfl
      cases hop'
  rw [plain, Clause.toList_placeholder] at right
  exact Constant.cons_ne_render_append hb (by decide) (by decide) (by decide) right

/-- Only what joins two groups begins with two parentheses. -/
theorem append_ne_join {s left right : Skeleton} (h : s.Legible)
    (leaf : ∀ op l r, s ≠ join op l r) :
    s.text ++ rest ≠ (join op left right).text ++ rest' := by
  have opens (s : Skeleton) (tail : List Char) : ∃ body, s.text ++ tail = '(' :: body := by
    cases s <;> exact ⟨_, group_append _ _ _ _⟩
  obtain ⟨body, hbody⟩ := opens left (' ' :: (op.spelling ++ ' ' :: (right.text ++ ')' :: rest')))
  intro same
  rw [text, group_append, hbody] at same
  cases h with
  | test hop hoperand =>
    rw [text, group_append, List.cons.injEq] at same
    exact hoperand.cons_ne_append (by decide) (by decide) (by decide) same.2.symm
  | bound hop hoperand hformatter hname =>
    rw [text, group_append, List.cons.injEq] at same
    exact hoperand.cons_ne_append (by decide) (by decide) (by decide) same.2.symm
  | constants hop ha hb =>
    rw [text, group_append, List.cons.injEq] at same
    exact Constant.cons_ne_render_append ha (by decide) (by decide) (by decide) same.2.symm
  | join hop hleft hright => exact leaf _ _ _ rfl

/-- A text is one skeleton, and ends where it ends, whatever stands behind it. -/
theorem Legible.text_append_inj {s s' : Skeleton} (h : s.Legible) (h' : s'.Legible)
    (same : s.text ++ rest = s'.text ++ rest') : s = s' ∧ rest = rest' := by
  induction h generalizing s' rest rest' with
  | test hop hoperand =>
    cases h' with
    | test hop' hoperand' => exact test_append_inj hop hop' hoperand hoperand' same
    | bound hop' hoperand' hformatter' hname' =>
      exact (test_append_ne_bound hoperand hoperand' same).elim
    | constants hop' ha' hb' => exact (test_append_ne_constants hoperand ha' same).elim
    | join hop' hleft' hright' =>
      exact (append_ne_join (.test hop hoperand) (by simp) same).elim
  | bound hop hoperand hformatter hname =>
    cases h' with
    | test hop' hoperand' => exact (test_append_ne_bound hoperand' hoperand same.symm).elim
    | bound hop' hoperand' hformatter' hname' =>
      exact bound_append_inj hop hop' hoperand hoperand' hname hname' same
    | constants hop' ha' hb' =>
      exact (bound_append_ne_constants hop hop' hoperand hformatter ha' hb' same).elim
    | join hop' hleft' hright' =>
      exact (append_ne_join (.bound hop hoperand hformatter hname) (by simp) same).elim
  | constants hop ha hb =>
    cases h' with
    | test hop' hoperand' => exact (test_append_ne_constants hoperand' ha same.symm).elim
    | bound hop' hoperand' hformatter' hname' =>
      exact (bound_append_ne_constants hop' hop hoperand' hformatter' ha hb same.symm).elim
    | constants hop' ha' hb' =>
      exact constants_append_inj (.inr (.inl hop)) (.inr (.inl hop')) ha ha' hb hb' same
    | join hop' hleft' hright' =>
      exact (append_ne_join (.constants hop ha hb) (by simp) same).elim
  | @join op left right hop hleft hright ihleft ihright =>
    by_cases leaf : ∀ op l r, s' ≠ .join op l r
    · exact (append_ne_join h' leaf same.symm).elim
    · cases h' with
      | join hop' hleft' hright' =>
        rw [text, text, group_append, group_append, List.cons.injEq] at same
        obtain ⟨rfl, afterLeft⟩ := ihleft hleft' same.2
        obtain ⟨word, tail⟩ := word_append_inj (Operation.blank_not_mem_spelling _)
          (Operation.blank_not_mem_spelling _) (List.cons.inj afterLeft).2
        obtain rfl := hop.spelling_inj hop' word
        obtain ⟨rfl, afterRight⟩ := ihright hright' tail
        exact ⟨rfl, (List.cons.inj afterRight).2⟩
      | _ => exact (leaf (by simp)).elim

end Skeleton

/-- What a member path stands for beside a value, if it has an identifier. -/
def MemberPath.operand? (m : Mapping) (path : MemberPath) (name : String) : Option Operand :=
  if path.nullRef then some (.parameter name) else (m.identifier? path.dotted).map .column

/-- What a mapping lets the text of a tree show: of a comparison with a value the value
itself is left out, but not whether it is tested for null. -/
def Node.skeleton? (m : Mapping) : Node → Option Skeleton
  | .composite _ op (.literal a) (.literal b) => some (.constants op a.value b.value)
  | .composite _ op (.member path) (.literal value) =>
    let name := parameterName path.segments value.kind
    (path.operand? m name).map fun operand =>
      if value.isTested then .test op operand else .bound op operand path.formatter name
  | .composite _ op left right => do
    let a ← left.skeleton? m
    let b ← right.skeleton? m
    return .join op a b
  | _ => none

section Trees

variable {m : Mapping} {op : Operation} {path : MemberPath} {value : Literal}
  {identifier : String}

theorem Node.skeleton?_join {left right : Node} {a b : Skeleton} (composite : left.isComposite = true)
    (ha : left.skeleton? m = some a) (hb : right.skeleton? m = some b) :
    (binary op left right).skeleton? m = some (.join op a b) := by
  cases left with
  | composite form op' l r =>
    rw [binary, skeleton?]
    · rw [ha, hb]
      rfl
    · simp
    · simp
  | _ => cases composite

theorem MemberPath.operand?_column {name : String} (hcolumn : path.nullRef = false)
    (hidentifier : m.identifier? path.dotted = some identifier) :
    path.operand? m name = some (.column identifier) := by
  simp [operand?, hcolumn, hidentifier]

theorem Node.skeleton?_tested (hcolumn : path.nullRef = false) (hvalue : value.isTested = true)
    (hidentifier : m.identifier? path.dotted = some identifier) :
    (binary op (.member path) (.literal value)).skeleton? m
      = some (.test op (.column identifier)) := by
  simp [binary, skeleton?, MemberPath.operand?_column hcolumn hidentifier, hvalue]

theorem Node.skeleton?_bound (hcolumn : path.nullRef = false) (hvalue : value.isTested = false)
    (hidentifier : m.identifier? path.dotted = some identifier) :
    (binary op (.member path) (.literal value)).skeleton? m
      = some (.bound op (.column identifier) path.formatter
          (parameterName path.segments value.kind)) := by
  simp [binary, skeleton?, MemberPath.operand?_column hcolumn hidentifier, hvalue]

theorem Node.skeleton?_orUnbound (hcolumn : path.nullRef = false)
    (hidentifier : m.identifier? path.dotted = some identifier) :
    (Expansion.orUnbound op path value).skeleton? m
      = some (.join .or
          (.bound op (.column identifier) path.formatter (parameterName path.segments value.kind))
          (.test .eq (.parameter (parameterName path.segments value.kind)))) := by
  have unforced : value.force.isTested = false := by simp [Literal.isTested, Literal.force]
  have comparison : (binary op (.member path) (.literal value.force)).skeleton? m = _ :=
    skeleton?_bound hcolumn unforced hidentifier
  exact skeleton?_join rfl comparison rfl

theorem Skeleton.toList_test (operand : Operand) {negated : Bool}
    (hsense : Clause.nullSense op = .ok negated) :
    (op = .eq ∨ op = .ne) ∧
      (Clause.nullTest operand negated).text.toList = (test op operand).text := by
  cases op <;> cases hsense
  · exact ⟨.inl rfl, by rw [Clause.toList_isNull]; simp [text, group]⟩
  · exact ⟨.inr rfl, by rw [Clause.toList_isNotNull]; simp [text, group]⟩

theorem Skeleton.toList_group (left right : String) {token : String} (htoken : op.token = .ok token) :
    (Clause.group left token right).toList = group left.toList op.spelling right.toList := by
  rw [Clause.toList_group, Operation.spelling_of_token htoken, group]

theorem Skeleton.toList_bound {token name : String} {formatter : Option Pattern} {v : Json}
    {left : Operand} (htoken : op.token = .ok token) :
    (Clause.bound left token formatter name v).text.toList
      = (bound op left formatter name).text := by
  rw [Clause.text, toList_group _ _ htoken, text]

theorem Skeleton.toList_join {token : String} {left right : Clause} {a b : Skeleton}
    (htoken : op.token = .ok token) (ha : left.text.toList = a.text)
    (hb : right.text.toList = b.text) :
    (Clause.join left token right).text.toList = (join op a b).text := by
  rw [Clause.text, toList_group _ _ htoken, ha, hb, text]

/-- A comparison is of two values, with a pattern, or with a set. -/
theorem Node.Comparison.isSpoken {token : String} (h : Comparison op path value)
    (htoken : op.token = .ok token) : op.IsSpoken := by
  rcases h.operation with hop | rfl | hop | hop
  · exact .inr (.inl hop)
  · cases htoken
  · exact .inr (.inr (.inl hop))
  · exact .inr (.inr (.inr hop))

theorem Node.Comparison.legible_bound {token : String} (h : Comparison op path value)
    (htoken : op.token = .ok token) (hnames : ∀ s ∈ path.segments, Text.IsPlain s)
    (hplain : Text.IsPlain identifier) :
    (Skeleton.bound op (.column identifier) path.formatter
      (parameterName path.segments value.kind)).Legible :=
  .bound (h.isSpoken htoken) (.column hplain) h.formatter.1 (.parameterName hnames value.kind)

/-- The text of a tree shows the skeleton of the tree. -/
theorem Node.Writes.exists_skeleton {n : Node} {c : Clause} (h : n.Writes m c)
    (hn : n.Spelled m Text.IsPlain Text.IsPlain Json.IsAtom) :
    ∃ s, n.skeleton? m = some s ∧ c.text.toList = s.text ∧ s.Legible := by
  induction h with
  | tested h hvalue hidentifier hsense =>
    obtain ⟨-, plain⟩ := Spelled.of_comparison hn h hidentifier
    obtain ⟨hop, shown⟩ := Skeleton.toList_test (.column _) hsense
    exact ⟨_, skeleton?_tested h.column hvalue hidentifier, shown, .test hop (.column plain)⟩
  | bound h hvalue hidentifier htoken =>
    obtain ⟨names, plain⟩ := Spelled.of_comparison hn h hidentifier
    exact ⟨_, skeleton?_bound h.column hvalue hidentifier, Skeleton.toList_bound htoken,
      h.legible_bound htoken names plain⟩
  | @orUnbound op path value identifier token h inhabited hidentifier htoken =>
    obtain ⟨names, plain⟩ := Spelled.of_orUnbound hn h hidentifier
    have name := Text.IsPlain.parameterName names value.kind
    have sense : Clause.nullSense .eq = .ok false := rfl
    obtain ⟨hop, shownCheck⟩ :=
      Skeleton.toList_test (.parameter (parameterName path.segments value.kind)) sense
    refine ⟨_, skeleton?_orUnbound h.column hidentifier, ?_,
      .join (.inl rfl) (h.legible_bound htoken names plain) (.test hop (.parameter name))⟩
    have joins : Operation.or.token = .ok "OR" := rfl
    exact Skeleton.toList_join joins (Skeleton.toList_bound htoken) shownCheck
  | constants hop htoken =>
    obtain ⟨ha, hb⟩ := Spelled.of_constants hn
    exact ⟨_, rfl, Skeleton.toList_group _ _ htoken, .constants hop ha hb⟩
  | @join op _ _ _ _ _ hop htoken hleft hright ihleft ihright =>
    obtain ⟨spelledLeft, spelledRight⟩ := Spelled.of_join hn hleft.isComposite
    obtain ⟨a, ha, shownLeft, legibleLeft⟩ := ihleft spelledLeft
    obtain ⟨b, hb, shownRight, legibleRight⟩ := ihright spelledRight
    have spoken : op.IsSpoken := hop.imp_right .inl
    exact ⟨_, skeleton?_join hleft.isComposite ha hb,
      Skeleton.toList_join htoken shownLeft shownRight, .join spoken legibleLeft legibleRight⟩

end Trees

/-- Equal texts show equal skeletons. -/
theorem skeleton?_eq_of_text_eq {m : Mapping} {e e' : Expr} {n n' : Node} {p p' : Predicate}
    (hn : e.toPredicate.result = .ok n) (hn' : e'.toPredicate.result = .ok n')
    (hp : (Predicate.ofNode m n).result = .ok p) (hp' : (Predicate.ofNode m n').result = .ok p')
    (spelled : n.Spelled m Text.IsPlain Text.IsPlain Json.IsAtom)
    (spelled' : n'.Spelled m Text.IsPlain Text.IsPlain Json.IsAtom) (same : p.text = p'.text) :
    ∃ s, n.skeleton? m = some s ∧ n'.skeleton? m = some s := by
  obtain ⟨c, hc, rfl⟩ := (Predicate.result_ofNode_eq_ok_iff m n p).1 hp
  obtain ⟨c', hc', rfl⟩ := (Predicate.result_ofNode_eq_ok_iff m n' p').1 hp'
  have writes := (Expr.canonical_of_toPredicate hn).writes (Clause.result_ofNode_eq_ok_iff.1 hc)
  have writes' := (Expr.canonical_of_toPredicate hn').writes (Clause.result_ofNode_eq_ok_iff.1 hc')
  obtain ⟨s, hs, shown, legible⟩ := writes.exists_skeleton spelled
  obtain ⟨s', hs', shown', legible'⟩ := writes'.exists_skeleton spelled'
  have texts : s.text ++ [] = s'.text ++ [] := by
    rw [← shown, ← shown']
    exact congrArg (·.toList ++ []) same
  obtain ⟨rfl, -⟩ := legible.text_append_inj legible' texts
  exact ⟨s, hs, hs'⟩

/-- A bound on an age, beside a pair of constants whose texts have quotes and parentheses. -/
def boundBesideQuotes (bound : Expr) : Expr :=
  .and bound (.equals (.ofValue (.text "it's)")) (.ofValue (.text "('")))

/-- The age is below a number. -/
def ageBelow (n : Int) : Expr := .lt (.get .subject "Age") (.ofValue (.int n))

/-- A number is above the age. -/
def aboveAge (n : Int) : Expr := .gt (.ofValue (.int n)) (.get .subject "Age")

/-- A mapping with a column for the age. -/
def ageMapping : Mapping := (Mapping.empty "m").map "Age" "age" none

/-- The tree of either bound. -/
def belowBesideQuotes (n : Int) : Node :=
  .binary .and (.binary .lt (.member (.ofSegments .any ["Age"])) (.literal (.inferred (.int n))))
    (.binary .eq (.literal (.inferred (.text "it's)"))) (.literal (.inferred (.text "('"))))

/-- What the tree of either bound compiles to. -/
def belowBesideQuotesPredicate (n : Int) : Predicate where
  text := "((m.age < @Age) AND ('it''s)' = '('''))"
  parameters := [⟨"Age", .int n⟩]

theorem spelled_belowBesideQuotes (n : Int) :
    (belowBesideQuotes n).Spelled ageMapping Text.IsPlain Text.IsPlain Json.IsAtom where
  names path hpath s hs := by
    obtain rfl := List.mem_singleton.1 hpath
    obtain rfl := List.mem_singleton.1 hs
    exact List.all_eq_true.1 rfl
  identifiers path hpath _ identifier hidentifier := by
    obtain rfl := List.mem_singleton.1 hpath
    cases hidentifier
    exact List.all_eq_true.1 rfl
  constants v hv := by
    rcases List.mem_cons.1 hv with rfl | hv
    · exact .text _
    · obtain rfl := List.mem_singleton.1 hv
      exact .text _

theorem belowBesideQuotes_skeleton?_eq :
    (boundBesideQuotes (ageBelow 7)).toPredicate.result = .ok (belowBesideQuotes 7) ∧
    (boundBesideQuotes (aboveAge 9)).toPredicate.result = .ok (belowBesideQuotes 9) ∧
    (Predicate.ofNode ageMapping (belowBesideQuotes 7)).result
      = .ok (belowBesideQuotesPredicate 7) ∧
    (Predicate.ofNode ageMapping (belowBesideQuotes 9)).result
      = .ok (belowBesideQuotesPredicate 9) ∧
    (∀ n, (belowBesideQuotes n).Spelled ageMapping Text.IsPlain Text.IsPlain Json.IsAtom) ∧
    (belowBesideQuotesPredicate 7).text = (belowBesideQuotesPredicate 9).text ∧
    ∃ s, (belowBesideQuotes 7).skeleton? ageMapping = some s ∧
      (belowBesideQuotes 9).skeleton? ageMapping = some s := by
  have tree : (boundBesideQuotes (ageBelow 7)).toPredicate.result = .ok (belowBesideQuotes 7) := rfl
  have swapped : (boundBesideQuotes (aboveAge 9)).toPredicate.result
      = .ok (belowBesideQuotes 9) := rfl
  have below : (Predicate.ofNode ageMapping (belowBesideQuotes 7)).result
      = .ok (belowBesideQuotesPredicate 7) := rfl
  have above : (Predicate.ofNode ageMapping (belowBesideQuotes 9)).result
      = .ok (belowBesideQuotesPredicate 9) := rfl
  exact ⟨tree, swapped, below, above, spelled_belowBesideQuotes, rfl,
    skeleton?_eq_of_text_eq tree swapped below above (spelled_belowBesideQuotes 7)
      (spelled_belowBesideQuotes 9) rfl⟩

end WhereClause
