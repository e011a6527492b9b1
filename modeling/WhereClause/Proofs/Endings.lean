import WhereClause.Proofs.Characters

/-!
# Where the parts of a text end

Two texts that begin with a part each and are equal have the same part, if it is known
what stands behind a part. A word ends at the first character that is not its own
(`ends_append_inj`), and a text in quotes at its last quote, since that is the only one
that is not doubled (`Constant.render_append_inj`).
-/
namespace WhereClause

/-- Two words with what stands behind them, which is in neither. -/
theorem ends_append_inj {u v rest rest' : List Char} {d d' : Char} (hd : d ∉ v) (hd' : d' ∉ u)
    (h : u ++ d :: rest = v ++ d' :: rest') : u = v ∧ d :: rest = d' :: rest' := by
  induction u generalizing v with
  | nil =>
    cases v with
    | nil => exact ⟨rfl, h⟩
    | cons c v =>
      have same : d = c := (List.cons.inj h).1
      exact (hd (same ▸ List.mem_cons_self)).elim
  | cons c u ih =>
    have inner : d' ∉ u := fun hmem => hd' (List.mem_cons_of_mem c hmem)
    cases v with
    | nil =>
      have same : c = d' := (List.cons.inj h).1
      exact (hd' (same ▸ List.mem_cons_self)).elim
    | cons c' v =>
      have inner' : d ∉ v := fun hmem => hd (List.mem_cons_of_mem c' hmem)
      obtain ⟨same, hrest⟩ := List.cons.inj h
      obtain ⟨huv, hrest⟩ := ih inner' inner hrest
      exact ⟨by rw [same, huv], hrest⟩

/-- A text without `d` ends at the first `d` behind it. -/
theorem word_append_inj {u v rest rest' : List Char} {d : Char} (hu : d ∉ u) (hv : d ∉ v)
    (h : u ++ d :: rest = v ++ d :: rest') : u = v ∧ rest = rest' := by
  obtain ⟨same, hrest⟩ := ends_append_inj hv hu h
  exact ⟨same, (List.cons.inj hrest).2⟩

/-- The first character of a part and its end is in the part, or the end. -/
theorem mem_or_eq_of_cons_eq_append {c d : Char} {rest u rest' : List Char}
    (h : c :: rest = u ++ d :: rest') : c ∈ u ∨ c = d := by
  cases u with
  | nil => exact .inr (List.cons.inj h).1
  | cons c' u =>
    have same : c = c' := (List.cons.inj h).1
    exact .inl (same ▸ List.mem_cons_self)

namespace Json

theorem digitsOf_injective {m n : Nat} (h : digitsOf m = digitsOf n) : m = n := by
  have back (k : Nat) : Nat.ofDigitChars 10 (digitsOf k) 0 = k := Nat.ofDigitChars_ten_toDigits
  rw [← back m, ← back n, h]

theorem intChars_injective {m n : Int} (h : intChars m = intChars n) : m = n := by
  have notDigit (k : Nat) : '-' ∉ digitsOf k := by
    intro hdash
    have digit := isDigit_of_mem_digitsOf hdash
    revert digit
    decide
  unfold intChars at h
  split at h
  · next hm =>
    split at h
    · next hn =>
      have same := digitsOf_injective (List.cons.inj h).2
      omega
    · next hn =>
      exact (notDigit n.natAbs (h ▸ List.mem_cons_self)).elim
  · next hm =>
    split at h
    · next hn =>
      exact (notDigit m.natAbs (h ▸ List.mem_cons_self)).elim
    · next hn =>
      have same := digitsOf_injective h
      omega

/-- A constant that is written as one word. -/
inductive IsWord : Json → Prop
  | null : IsWord .null
  | bool (b : Bool) : IsWord (.bool b)
  | int (n : Int) : IsWord (.int n)

/-- Null, a boolean, an integer or a text. -/
inductive IsAtom : Json → Prop
  | word {v : Json} (h : v.IsWord) : IsAtom v
  | text (s : String) : IsAtom (.text s)

end Json

namespace Constant

open Json

theorem not_mem_render {v : Json} (h : v.IsWord) {c : Char} (notSyntax : isSyntax c = false)
    (notMark : c ∉ ['\x27', 'N', 'U', 'L']) : c ∉ (render v).toList := by
  intro hc
  have mentions := mentions_of_mem hc notSyntax notMark
  cases h <;> cases mentions

theorem quote_not_mem_render {v : Json} (h : v.IsWord) : '\x27' ∉ (render v).toList := by
  intro hc
  have notText : ∀ s, v ≠ .text s := by
    rintro s rfl
    cases h
  have mentions := mentions_of_mem_of_ne_text notText hc (by decide) (by decide)
  cases h <;> cases mentions

theorem render_injective {a b : Json} (ha : a.IsWord) (hb : b.IsWord)
    (h : (render a).toList = (render b).toList) : a = b := by
  have int_toList (n : Int) : (render (.int n)).toList = intChars n := by
    simp [render, Json.render, write]
  have notInt {c : Char} {v : Json} (hc : c ∈ (render v).toList)
      (other : ¬ (c = '-' ∨ c.isDigit = true)) (n : Int) :
      (render v).toList ≠ (render (.int n)).toList := by
    intro same
    rw [same, int_toList] at hc
    exact other (mem_intChars hc)
  cases ha with
  | null =>
    cases hb with
    | null => rfl
    | bool b => cases b <;> exact absurd h (by decide)
    | int n =>
      have letter : 'N' ∈ (render .null).toList := by decide
      exact (notInt letter (by decide) n h).elim
  | bool a =>
    cases hb with
    | null => cases a <;> exact absurd h (by decide)
    | bool b =>
      cases a <;> cases b <;> first | rfl | exact absurd h (by decide)
    | int n =>
      have letter : 'e' ∈ (render (.bool a)).toList := by cases a <;> decide
      exact (notInt letter (by decide) n h).elim
  | int n =>
    cases hb with
    | null =>
      have letter : 'N' ∈ (render .null).toList := by decide
      exact (notInt letter (by decide) n h.symm).elim
    | bool b =>
      have letter : 'e' ∈ (render (.bool b)).toList := by cases b <;> decide
      exact (notInt letter (by decide) n h.symm).elim
    | int n' =>
      rw [int_toList, int_toList] at h
      rw [intChars_injective h]

/-- The body of a quoted text ends at the first quote that is not doubled. -/
theorem escapeQuote_append_inj {s t rest rest' : List Char} {d d' : Char} (hd : d ≠ '\x27')
    (hd' : d' ≠ '\x27')
    (h : s.flatMap escapeQuote ++ '\x27' :: d :: rest
      = t.flatMap escapeQuote ++ '\x27' :: d' :: rest') : s = t ∧ d :: rest = d' :: rest' := by
  have quoted : escapeQuote '\x27' = ['\x27', '\x27'] := rfl
  have plain {c : Char} (hc : c ≠ '\x27') : escapeQuote c = [c] := if_neg hc
  induction s generalizing t with
  | nil =>
    cases t with
    | nil => exact ⟨rfl, (List.cons.inj h).2⟩
    | cons c t =>
      by_cases hc : c = '\x27'
      · subst hc
        simp only [List.flatMap_nil, List.flatMap_cons, quoted, List.nil_append, List.cons_append,
          List.cons.injEq, true_and] at h
        exact (hd h.1).elim
      · simp only [List.flatMap_nil, List.flatMap_cons, plain hc, List.nil_append, List.cons_append,
          List.cons.injEq] at h
        exact (hc h.1.symm).elim
  | cons c s ih =>
    cases t with
    | nil =>
      by_cases hc : c = '\x27'
      · subst hc
        simp only [List.flatMap_nil, List.flatMap_cons, quoted, List.nil_append, List.cons_append,
          List.cons.injEq, true_and] at h
        exact (hd' h.1.symm).elim
      · simp only [List.flatMap_nil, List.flatMap_cons, plain hc, List.nil_append, List.cons_append,
          List.cons.injEq] at h
        exact (hc h.1).elim
    | cons c' t =>
      have heads : c = c' := by
        by_cases hc : c = '\x27' <;> by_cases hc' : c' = '\x27'
        · rw [hc, hc']
        · subst hc
          simp only [List.flatMap_cons, quoted, plain hc', List.cons_append, List.cons.injEq] at h
          exact h.1
        · subst hc'
          simp only [List.flatMap_cons, quoted, plain hc, List.cons_append, List.cons.injEq] at h
          exact h.1
        · simp only [List.flatMap_cons, plain hc, plain hc', List.cons_append, List.cons.injEq] at h
          exact h.1
      subst heads
      rw [List.flatMap_cons, List.flatMap_cons, List.append_assoc, List.append_assoc,
        List.append_cancel_left_eq] at h
      obtain ⟨rfl, hrest⟩ := ih h
      exact ⟨rfl, hrest⟩

/-- A constant ends where a blank or a parenthesis stands behind it. -/
theorem render_append_inj {a b : Json} {rest rest' : List Char} {d : Char} (ha : a.IsAtom)
    (hb : b.IsAtom) (hd : d = ' ' ∨ d = ')')
    (h : (render a).toList ++ d :: rest = (render b).toList ++ d :: rest') :
    a = b ∧ rest = rest' := by
  have notQuote : d ≠ '\x27' := by rcases hd with rfl | rfl <;> decide
  have notInWord {v : Json} (hv : v.IsWord) : d ∉ (render v).toList := by
    rcases hd with rfl | rfl <;> exact not_mem_render hv (by decide) (by decide)
  have text_toList (s : String) (r : List Char) : (render (.text s)).toList ++ d :: r
      = '\x27' :: (s.toList.flatMap escapeQuote ++ '\x27' :: d :: r) := by
    simp [render, toList_quote]
  have mixed {v : Json} (hv : v.IsWord) (s : String) (r r' : List Char) :
      (render (.text s)).toList ++ d :: r ≠ (render v).toList ++ d :: r' := by
    intro same
    rw [text_toList] at same
    rcases mem_or_eq_of_cons_eq_append same with hquote | hquote
    · exact quote_not_mem_render hv hquote
    · exact notQuote hquote.symm
  cases ha with
  | word ha =>
    cases hb with
    | word hb =>
      obtain ⟨same, hrest⟩ := word_append_inj (notInWord ha) (notInWord hb) h
      exact ⟨render_injective ha hb same, hrest⟩
    | text t => exact (mixed ha t rest' rest h.symm).elim
  | text s =>
    cases hb with
    | word hb => exact (mixed hb s rest rest' h).elim
    | text t =>
      rw [text_toList, text_toList, List.cons.injEq] at h
      obtain ⟨same, hrest⟩ := escapeQuote_append_inj notQuote notQuote h.2
      exact ⟨by rw [String.toList_inj.1 same], (List.cons.inj hrest).2⟩

/-- A constant begins with no sign that JSON has no use for, the quote apart. -/
theorem cons_ne_render_append {v : Json} {c d : Char} {rest rest' : List Char} (hv : v.IsAtom)
    (notSyntax : Json.isSyntax c = false) (notMark : c ∉ ['\x27', 'N', 'U', 'L']) (hd : c ≠ d) :
    c :: rest ≠ (render v).toList ++ d :: rest' := by
  intro h
  rcases mem_or_eq_of_cons_eq_append h with hc | hc
  · cases hv with
    | word hv => exact not_mem_render hv notSyntax notMark hc
    | text s =>
      have first : c = '\x27' := by
        rw [render, toList_quote] at h
        exact (List.cons.inj h).1
      exact notMark (first ▸ List.mem_cons_self)
  · exact hd hc

end Constant

end WhereClause
