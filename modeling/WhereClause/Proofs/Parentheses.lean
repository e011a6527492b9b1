import Mathlib.Data.List.Infix
import WhereClause.Proofs.Names
import WhereClause.Proofs.Quotation

/-!
# Parentheses in a text

Every composite of a tree has one pair of parentheses in its text, and the pairs stand in
one another as the composites do. That holds of all trees that have a text, as long as
names and identifiers have no parenthesis or quote; constants may, for what stands in a
literal is no parenthesis. Parts of a text are put together by what the levels of their
beginnings are (`Text.Balanced`).
-/
namespace WhereClause

open Quoting

namespace Text

/-- The parentheses that are open behind some characters, of those outside literals. -/
def level (cs : List Char) : Int :=
  (visible outside cs).count '(' - (visible outside cs).count ')'

theorem level_open (cs : List Char) : level ('(' :: cs) = 1 + level cs := by
  unfold level
  rw [visible_cons (by decide) (by decide), List.count_cons_self, List.count_cons_of_ne (by decide)]
  omega

theorem level_append_blank {cs : List Char} (h : EndsOutside cs) (ds : List Char) :
    level (cs ++ ' ' :: ds) = level cs + level ds := by
  unfold level
  rw [visible_append, visible_cons h (by decide), List.count_append, List.count_append,
    List.count_cons_of_ne (by decide), List.count_cons_of_ne (by decide)]
  omega

theorem level_append_close {cs : List Char} (h : EndsOutside cs) :
    level (cs ++ [')']) = level cs - 1 := by
  unfold level
  rw [visible_append, visible_cons h (by decide), visible, List.count_append, List.count_append,
    List.count_cons_self, List.count_cons_of_ne (by decide), List.count_nil, List.count_nil]
  omega

/-- A beginning of two parts ends in the first, or behind the character between them. -/
theorem prefix_append_cons {u cs ds : List Char} {c : Char} (h : u <+: cs ++ c :: ds) :
    u <+: cs ∨ ∃ v, v <+: ds ∧ u = cs ++ c :: v := by
  obtain ⟨rest, h⟩ := h
  rcases List.append_eq_append_iff.1 h with ⟨v, hcs, -⟩ | ⟨v, hu, hv⟩
  · exact .inl ⟨v, hcs.symm⟩
  · cases v with
    | nil => exact .inl ⟨[], by simp [hu]⟩
    | cons d v =>
      obtain ⟨rfl, hds⟩ := List.cons.inj hv
      exact .inr ⟨v, ⟨rest, hds.symm⟩, hu⟩

/-- No parenthesis can be seen. -/
structure Inert (cs : List Char) : Prop where
  ends : EndsOutside cs
  clear : ∀ c ∈ visible outside cs, c ≠ '(' ∧ c ≠ ')'

theorem inert_of_all {cs : List Char} (ends : EndsOutside cs)
    (h : (visible outside cs).all (fun c => c != '(' && c != ')') = true) : Inert cs := by
  refine ⟨ends, fun c hc => ?_⟩
  simpa using List.all_eq_true.1 h c hc

/-- Neither a parenthesis nor a quote. -/
def isClearChar (c : Char) : Bool := c != '(' && c != ')' && c != '\x27'

/-- Names and identifiers without parentheses and quotes. -/
def IsClear (s : String) : Prop := ∀ c ∈ s.toList, isClearChar c = true

theorem inert_of_clear {cs : List Char} (h : ∀ c ∈ cs, isClearChar c = true) : Inert cs := by
  have noQuote : '\x27' ∉ cs := not_mem_of_forall h rfl
  refine ⟨endsOutside_of_not_mem noQuote, fun c hc => ?_⟩
  rw [visible_of_not_mem noQuote] at hc
  constructor
  · rintro rfl
    cases h _ hc
  · rintro rfl
    cases h _ hc

theorem Inert.append {cs ds : List Char} (hcs : Inert cs) (outside_cs : outside.run cs = outside)
    (hds : Inert ds) : Inert (cs ++ ds) := by
  refine ⟨hds.ends.append outside_cs, fun c hc => ?_⟩
  rw [visible_append, outside_cs, List.mem_append] at hc
  exact hc.elim (hcs.clear c) (hds.clear c)

/-- A part of a text with as many closing parentheses as opening ones, each behind its own,
`opened` pairs in all and at most `depth` of them in one another. -/
structure Balanced (cs : List Char) (depth opened : Nat) : Prop where
  ends : EndsOutside cs
  level_eq : level cs = 0
  nonneg : ∀ u, u <+: cs → 0 ≤ level u
  le_depth : ∀ u, u <+: cs → level u ≤ depth
  reaches : ∃ u, u <+: cs ∧ level u = depth
  opens : (visible outside cs).count '(' = opened

/-- A balanced text whose first parenthesis ends with the last one, and not before. -/
structure Parenthesized (cs : List Char) (depth opened : Nat) : Prop
    extends Balanced cs depth opened where
  whole : ∃ body, cs = '(' :: (body ++ [')'])
  encloses : ∀ u, u <+: cs → u ≠ [] → u ≠ cs → 0 < level u

theorem Inert.balanced {cs : List Char} (h : Inert cs) : Balanced cs 0 0 := by
  have flat (u : List Char) (hu : u <+: cs) : level u = 0 := by
    obtain ⟨rest, rfl⟩ := hu
    have unseen (c : Char) (hc : c = '(' ∨ c = ')') : (visible outside u).count c = 0 := by
      rw [List.count_eq_zero]
      intro hmem
      have clear := h.clear c (by rw [visible_append]; exact List.mem_append_left _ hmem)
      rcases hc with rfl | rfl
      · exact clear.1 rfl
      · exact clear.2 rfl
    unfold level
    rw [unseen '(' (.inl rfl), unseen ')' (.inr rfl)]
    rfl
  refine ⟨h.ends, flat cs (List.prefix_refl cs), fun u hu => ?_, fun u hu => ?_, ?_, ?_⟩
  · exact Int.le_of_eq (flat u hu).symm
  · exact Int.le_of_eq (flat u hu)
  · exact ⟨[], List.nil_prefix, rfl⟩
  · rw [List.count_eq_zero]
    exact fun hmem => (h.clear _ hmem).1 rfl

theorem Balanced.append {cs ds : List Char} {d d' k k' : Nat} (hcs : Balanced cs d k)
    (hds : Balanced ds d' k') : Balanced (cs ++ ' ' :: ds) (max d d') (k + k') where
  ends := by
    rw [EndsOutside, hcs.ends.run_append_cons (by decide)]
    exact hds.ends
  level_eq := by
    rw [level_append_blank hcs.ends, hcs.level_eq, hds.level_eq]
    rfl
  nonneg u hu := by
    rcases prefix_append_cons hu with hu | ⟨v, hv, rfl⟩
    · exact hcs.nonneg u hu
    · rw [level_append_blank hcs.ends, hcs.level_eq, Int.zero_add]
      exact hds.nonneg v hv
  le_depth u hu := by
    rcases prefix_append_cons hu with hu | ⟨v, hv, rfl⟩
    · have below := hcs.le_depth u hu
      omega
    · have below := hds.le_depth v hv
      rw [level_append_blank hcs.ends, hcs.level_eq]
      omega
  reaches := by
    by_cases deeper : d ≤ d'
    · obtain ⟨v, hv, reached⟩ := hds.reaches
      refine ⟨cs ++ ' ' :: v, ?_, ?_⟩
      · rw [List.prefix_append_right_inj, List.cons_prefix_cons]
        exact ⟨rfl, hv⟩
      · rw [level_append_blank hcs.ends, hcs.level_eq, reached]
        omega
    · obtain ⟨u, hu, reached⟩ := hcs.reaches
      refine ⟨u, hu.trans (List.prefix_append _ _), ?_⟩
      rw [reached]
      omega
  opens := by
    rw [visible_append, visible_cons hcs.ends (by decide), List.count_append,
      List.count_cons_of_ne (by decide), hcs.opens, hds.opens]

/-- In parentheses, every beginning is one level deeper but the empty and the whole one. -/
theorem Balanced.enclosed {cs : List Char} {d k : Nat} (h : Balanced cs d k) :
    Parenthesized ('(' :: (cs ++ [')'])) (1 + d) (1 + k) := by
  have deeper {u : List Char} (hu : u <+: '(' :: (cs ++ [')'])) :
      u = [] ∨ (∃ v, v <+: cs ∧ u = '(' :: v) ∨ u = '(' :: (cs ++ [')']) := by
    cases u with
    | nil => exact .inl rfl
    | cons c u =>
      obtain ⟨rfl, inner⟩ := List.cons_prefix_cons.1 hu
      rcases List.prefix_concat_iff.1 inner with rfl | hu
      · exact .inr (.inr rfl)
      · exact .inr (.inl ⟨u, hu, rfl⟩)
  have closed : level ('(' :: (cs ++ [')'])) = 0 := by
    rw [level_open, level_append_close h.ends, h.level_eq]
    rfl
  have levels {u : List Char} (hu : u <+: '(' :: (cs ++ [')'])) :
      level u = 0 ∨ ∃ v, v <+: cs ∧ level u = 1 + level v := by
    rcases deeper hu with rfl | ⟨v, hv, rfl⟩ | rfl
    · exact .inl rfl
    · exact .inr ⟨v, hv, level_open v⟩
    · exact .inl closed
  refine
    { ends := ?ends
      level_eq := closed
      nonneg := ?nonneg
      le_depth := ?le_depth
      reaches := ?reaches
      opens := ?opens
      whole := ⟨cs, rfl⟩
      encloses := ?encloses }
  case ends =>
    have opening : outside.step '(' = outside := rfl
    rw [EndsOutside, run_cons, opening, h.ends.run_append_cons (by decide)]
    decide
  case nonneg =>
    intro u hu
    rcases levels hu with hlevel | ⟨v, hv, hlevel⟩
    · omega
    · have inner := h.nonneg v hv
      omega
  case le_depth =>
    intro u hu
    rcases levels hu with hlevel | ⟨v, hv, hlevel⟩
    · omega
    · have inner := h.le_depth v hv
      omega
  case reaches =>
    obtain ⟨v, hv, reached⟩ := h.reaches
    refine ⟨'(' :: v, ?_, ?_⟩
    · rw [List.cons_prefix_cons]
      exact ⟨rfl, hv.trans (List.prefix_append _ _)⟩
    · rw [level_open, reached]
      omega
  case opens =>
    rw [visible_cons (by decide) (by decide), List.count_cons_self, visible_append,
      visible_cons h.ends (by decide), visible, List.count_append, h.opens,
      List.count_cons_of_ne (by decide), List.count_nil]
    omega
  case encloses =>
    intro u hu nonempty proper
    rcases deeper hu with rfl | ⟨v, hv, rfl⟩ | rfl
    · exact (nonempty rfl).elim
    · have inner := h.nonneg v hv
      rw [level_open]
      omega
    · exact (proper rfl).elim

/-- Two parts around a word, in parentheses. -/
theorem parenthesized_group {left token right : String} {d d' k k' : Nat}
    (hleft : Balanced left.toList d k) (htoken : Inert token.toList)
    (hright : Balanced right.toList d' k') :
    Parenthesized (Clause.group left token right).toList (1 + max d d') (1 + (k + k')) := by
  have body := (hleft.append (htoken.balanced.append hright)).enclosed
  rw [Nat.zero_max, Nat.zero_add] at body
  rw [Clause.toList_group]
  simpa using body

end Text

open Text

theorem Operation.inert_token {op : Operation} {token : String} (htoken : op.token = .ok token) :
    Inert token.toList := by
  rw [spelling_of_token htoken]
  cases op <;> exact inert_of_clear (List.all_eq_true.1 rfl)

/-- Whatever a text in quotes has in it, nothing of it can be seen. -/
theorem Constant.inert_render {v : Json} (h : v.isStructured = false) :
    Inert (render v).toList := by
  by_cases text : ∃ s, v = .text s
  · obtain ⟨s, rfl⟩ := text
    have ends : outside.run (render (.text s)).toList = closing := run_quote s
    have hidden : visible outside (render (.text s)).toList = [] := visible_quote s
    constructor
    · rw [EndsOutside, ends]
      decide
    · intro c hc
      rw [hidden] at hc
      cases hc
  · have notText : ∀ s, v ≠ .text s := fun s same => text ⟨s, same⟩
    refine inert_of_clear fun c hc => ?_
    have others (d : Char) (notSyntax : Json.isSyntax d = false) (notMark : d ∉ ['N', 'U', 'L']) :
        c ≠ d := by
      rintro rfl
      exact not_mentions h notText c (mentions_of_mem_of_ne_text notText hc notSyntax notMark)
    simp [isClearChar, others '(' rfl (by decide), others ')' rfl (by decide),
      others '\x27' rfl (by decide)]

theorem Clause.inert_placeholder {name : String} (hname : IsClear name)
    (formatter : Option Pattern) : Inert (placeholder formatter name).toList := by
  have before : Inert (wrapBefore formatter) := by
    rcases formatter with _ | _ | _ | _ <;> exact inert_of_all (by decide) rfl
  have after : Inert (wrapAfter formatter) := by
    rcases formatter with _ | _ | _ | _ <;> exact inert_of_all (by decide) rfl
  have clear : ∀ c ∈ '@' :: name.toList, isClearChar c = true := by
    intro c hc
    rcases List.mem_cons.1 hc with rfl | hc
    · rfl
    · exact hname c hc
  have between : outside.run ('@' :: name.toList) = outside :=
    run_of_not_mem (not_mem_of_forall clear rfl)
  rw [toList_placeholder, ← List.cons_append]
  exact before.append (run_wrapBefore formatter) ((inert_of_clear clear).append between after)

namespace Node

/-- The composites in a tree. -/
def composites : Node → Nat
  | composite _ _ left right => 1 + (left.composites + right.composites)
  | _ => 0

/-- A tree in whose names and identifiers there are no parentheses and quotes, and whose
constants have no parts. -/
def Clear (m : Mapping) : Node → Prop :=
  Spelled m IsClear IsClear fun v => v.isStructured = false

theorem Renders.parenthesized {m : Mapping} {n : Node} {c : Clause} (h : n.Renders m c)
    (hn : n.Clear m) : Parenthesized c.text.toList n.depth n.composites := by
  induction h with
  | join form htoken hleft hright ihleft ihright =>
    obtain ⟨clearLeft, clearRight⟩ := Spelled.of_join hn (Clause.isComposite_of_renders hleft)
    exact parenthesized_group (ihleft clearLeft).toBalanced (Operation.inert_token htoken)
      (ihright clearRight).toBalanced
  | constants form a b htoken =>
    obtain ⟨ha, hb⟩ := Spelled.of_constants hn
    exact parenthesized_group (Constant.inert_render ha).balanced (Operation.inert_token htoken)
      (Constant.inert_render hb).balanced
  | @nullTest form op path value left negated htested hleft hop =>
    have operand := inert_of_clear (hleft.forall_mem rfl
      (forall_mem_parameterName value.kind rfl hn.of_pair.1) hn.of_pair.2)
    have word : Inert "IS".toList := inert_of_all (by decide) rfl
    have null : Inert (if negated then "NOT NULL" else "NULL").toList := by
      cases negated <;> exact inert_of_all (by decide) rfl
    rw [Clause.text_nullTest]
    exact parenthesized_group operand.balanced word null.balanced
  | @bound form op path value left token hbound htoken hleft =>
    have name := forall_mem_parameterName value.kind rfl hn.of_pair.1
    have operand := inert_of_clear (hleft.forall_mem rfl name hn.of_pair.2)
    have placeholder := Clause.inert_placeholder name path.formatter
    exact parenthesized_group operand.balanced (Operation.inert_token htoken) placeholder.balanced

end Node

/-- Every tree that has a text has it in parentheses, one pair for each composite and nested
as the composites are: outside literals no parenthesis closes before it is opened, the first
one closes at the very end, the greatest level is the depth of the tree, and there are as
many opening ones as composites. -/
theorem parenthesized_ofNode {m : Mapping} {n : Node} {p : Predicate}
    (h : (Predicate.ofNode m n).result = .ok p) (hn : n.Clear m) :
    Parenthesized p.text.toList n.depth n.composites := by
  obtain ⟨c, hc, rfl⟩ := (Predicate.result_ofNode_eq_ok_iff m n p).1 h
  exact (Clause.result_ofNode_eq_ok_iff.1 hc).parenthesized hn

/-- The path to the name. -/
def namePath : MemberPath := .ofSegments .any ["Name"]

/-- A match beside constants that have parentheses and quotes in them. No expression has this
tree: it calls the match a logical composite, and the check for null is alone. -/
def matchBesideQuotes : Node :=
  .composite .comparison .eq
    (.composite .logical .like (.member (namePath.format .contains))
      (.literal (.inferred (.text ")"))))
    (.composite .logical .and
      (.composite .comparison .eq (.literal (.inferred (.text "it's ((")))
        (.literal (.inferred (.text "')"))))
      (.composite .comparison .eq (.member namePath.toNullRef) (.literal (.null .any))))

/-- What `matchBesideQuotes` is in SQL. -/
def matchBesideQuotesPredicate : Predicate where
  text := "((m.name LIKE '%' + @Name + '%') = (('it''s ((' = ''')') AND (@Name IS NULL)))"
  parameters := [⟨"Name", .text ")"⟩]

/-- A mapping with a column for `namePath`. -/
def namePathMapping : Mapping := (Mapping.empty "m").map "Name" "name" none

theorem clear_matchBesideQuotes : matchBesideQuotes.Clear namePathMapping where
  names path hpath s hs := by
    have segments : path.segments = ["Name"] := by
      rcases List.mem_cons.1 hpath with rfl | hpath
      · rfl
      · obtain rfl := List.mem_singleton.1 hpath
        rfl
    rw [segments, List.mem_singleton] at hs
    subst hs
    exact List.all_eq_true.1 rfl
  identifiers path hpath column identifier hidentifier := by
    rcases List.mem_cons.1 hpath with rfl | hpath
    · cases hidentifier
      exact List.all_eq_true.1 rfl
    · obtain rfl := List.mem_singleton.1 hpath
      cases column
  constants v hv := by
    rcases List.mem_cons.1 hv with rfl | hv
    · rfl
    · obtain rfl := List.mem_singleton.1 hv
      rfl

theorem matchBesideQuotes_parenthesized :
    (Predicate.ofNode namePathMapping matchBesideQuotes).result = .ok matchBesideQuotesPredicate ∧
    matchBesideQuotes.Clear namePathMapping ∧
    matchBesideQuotes.depth = 3 ∧ matchBesideQuotes.composites = 5 ∧
    Parenthesized matchBesideQuotesPredicate.text.toList 3 5 := by
  have rendered : (Predicate.ofNode namePathMapping matchBesideQuotes).result
      = .ok matchBesideQuotesPredicate := rfl
  exact ⟨rendered, clear_matchBesideQuotes, rfl, rfl,
    parenthesized_ofNode rendered clear_matchBesideQuotes⟩

end WhereClause
