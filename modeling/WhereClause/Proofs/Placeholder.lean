import Mathlib.Data.List.Chain
import WhereClause.Proofs.Characters
import WhereClause.Proofs.Names
import WhereClause.Proofs.Spelling

/-!
# Placeholders in a text

What is found by looking for `@` in a text, character by character: every mark is a
placeholder of one parameter, in their order, or a reference back to the parameter of the
placeholder right before it. Nothing else in a text looks like a mark, as long as the
identifiers and the constants that stand in it do not bring the sign in themselves.
-/
namespace WhereClause

namespace Text

/-- A sign `@` in a text, and the name behind it. -/
structure Mark where
  name : String
  /-- The mark stands in a test for null and refers back to a parameter. -/
  refersBack : Bool
  deriving DecidableEq, Repr

/-- What follows the name of a mark that refers back. -/
def testForNull : List Char := [' ', 'I', 'S', ' ', 'N', 'U', 'L', 'L']

/-- The marks of a text from left to right, `before` being the character in front of it. A
name is as many letters and digits as there are, and a mark refers back if it stands right
behind a parenthesis and its name right in front of a test for null. -/
def marks : Option Char → List Char → List Mark
  | _, [] => []
  | before, c :: cs =>
    if c = '@' then
      ⟨String.ofList (cs.takeWhile Char.isAlphanum),
        before == some '(' && testForNull.isPrefixOf (cs.dropWhile Char.isAlphanum)⟩
        :: marks (some c) cs
    else marks (some c) cs

theorem marks_skip {u : List Char} {d : Char} (hu : '@' ∉ u) (hd : d ≠ '@')
    (before : Option Char) (rest : List Char) :
    marks before (u ++ d :: rest) = marks (some d) rest := by
  induction u generalizing before with
  | nil => rw [List.nil_append, marks, if_neg hd]
  | cons c u ih =>
    have hc : c ≠ '@' := fun h => hu (h ▸ List.mem_cons_self)
    have hrest : '@' ∉ u := fun h => hu (List.mem_cons_of_mem c h)
    rw [List.cons_append, marks, if_neg hc]
    exact ih hrest (some c)

theorem marks_cons {d : Char} (hd : d ≠ '@') (before : Option Char) (rest : List Char) :
    marks before (d :: rest) = marks (some d) rest :=
  marks_skip List.not_mem_nil hd before rest

/-- A mark with its name, in front of something that does not go on with the name. -/
theorem marks_at {name rest : List Char} (hname : ∀ c ∈ name, c.isAlphanum = true)
    (hrest : rest.takeWhile Char.isAlphanum = []) (before : Option Char) :
    marks before ('@' :: (name ++ rest))
      = ⟨String.ofList name, before == some '(' && testForNull.isPrefixOf rest⟩
        :: marks (some '@') (name ++ rest) := by
  have hdrop : rest.dropWhile Char.isAlphanum = rest := by
    have whole := List.takeWhile_append_dropWhile (p := Char.isAlphanum) (l := rest)
    rwa [hrest, List.nil_append] at whole
  rw [marks, if_pos rfl, List.takeWhile_append_of_pos hname, List.dropWhile_append_of_pos hname,
    hrest, hdrop, List.append_nil]

/-- The first mark does not refer back, and a mark that does comes right behind a
placeholder of its name. -/
structure Grounded (ms : List Mark) : Prop where
  head : ∀ first ∈ ms.head?, first.refersBack = false
  chain : ms.IsChain fun mark next =>
    next.refersBack = true → mark.refersBack = false ∧ mark.name = next.name

theorem grounded_nil : Grounded [] := ⟨by simp, .nil⟩

theorem grounded_placeholder (name : String) : Grounded [⟨name, false⟩] := ⟨by simp, .singleton _⟩

theorem grounded_pair (name : String) : Grounded [⟨name, false⟩, ⟨name, true⟩] :=
  ⟨by simp, .cons_cons (fun _ => ⟨rfl, rfl⟩) (.singleton _)⟩

theorem Grounded.append {ms ns : List Mark} (hms : Grounded ms) (hns : Grounded ns) :
    Grounded (ms ++ ns) where
  head first hfirst := by
    cases ms with
    | nil => exact hns.head first hfirst
    | cons mark ms => exact hms.head first hfirst
  chain := by
    refine List.isChain_append.2 ⟨hms.chain, hns.chain, fun mark _ next hnext refers => ?_⟩
    rw [hns.head next hnext] at refers
    cases refers

end Text
namespace Clause

open Text

/-- Wherever the clause stands, these are its marks, and behind it the scan goes on as
behind its last parenthesis. -/
def Scans (c : Clause) (ms : List Mark) : Prop :=
  ∀ before rest, marks before (c.text.toList ++ rest) = ms ++ marks (some ')') rest

theorem scans_nil {c : Clause} {u : List Char} (htext : c.text.toList = u ++ [')'])
    (hu : '@' ∉ u) : c.Scans [] := by
  intro before rest
  rw [htext, List.append_assoc]
  exact marks_skip hu (by decide) before rest

theorem scans_join {a b : Clause} {token : String} {ms ns : List Mark} (ha : a.Scans ms)
    (hb : b.Scans ns) (htoken : '@' ∉ token.toList) : (join a token b).Scans (ms ++ ns) := by
  intro before rest
  rw [text, toList_group]
  simp only [List.cons_append, List.append_assoc, List.nil_append]
  rw [marks_cons (by decide), ha, marks_cons (by decide), marks_skip htoken (by decide), hb,
    marks_cons (by decide)]

theorem scans_constants {a b : Json} {token : String} (ha : '@' ∉ (Constant.render a).toList)
    (hb : '@' ∉ (Constant.render b).toList) (htoken : '@' ∉ token.toList) :
    (constants a token b).Scans [] := by
  refine scans_nil (u := '(' :: ((Constant.render a).toList ++ ' ' :: (token.toList ++ ' '
    :: (Constant.render b).toList))) ?_ ?_
  · simp [text, toList_group]
  · simp [ha, hb, htoken]

theorem scans_nullTest {identifier : String} (hidentifier : '@' ∉ identifier.toList)
    (negated : Bool) : (nullTest (.column identifier) negated).Scans [] := by
  cases negated with
  | false =>
    refine scans_nil (u := '(' :: (identifier.toList ++ ' ' :: ['I', 'S', ' ', 'N', 'U', 'L', 'L']))
      ?_ ?_
    · simp [toList_isNull, Operand.text]
    · simp [hidentifier]
  | true =>
    refine scans_nil (u := '(' :: (identifier.toList
      ++ ' ' :: ['I', 'S', ' ', 'N', 'O', 'T', ' ', 'N', 'U', 'L', 'L'])) ?_ ?_
    · simp [toList_isNotNull, Operand.text]
    · simp [hidentifier]

theorem scans_reference {name : String} (hname : ∀ c ∈ name.toList, c.isAlphanum = true) :
    (nullTest (.parameter name) false).Scans [⟨name, true⟩] := by
  intro before rest
  have htext : (nullTest (.parameter name) false).text.toList ++ rest
      = '(' :: '@' :: (name.toList ++ (testForNull ++ ')' :: rest)) := by
    simp [toList_isNull, toList_parameter, testForNull]
  have notInName : '@' ∉ name.toList := not_mem_of_forall hname rfl
  have hend : '@' ∉ name.toList ++ testForNull := by
    simp [notInName, testForNull]
  rw [htext, marks_cons (by decide), marks_at hname rfl, ← List.append_assoc,
    marks_skip hend (by decide), String.ofList_toList]
  have refers : testForNull.isPrefixOf (testForNull ++ ')' :: rest) = true := rfl
  rw [refers]
  rfl

theorem scans_bound {identifier token name : String} (formatter : Option Pattern) (value : Json)
    (hidentifier : '@' ∉ identifier.toList) (htoken : '@' ∉ token.toList)
    (hname : ∀ c ∈ name.toList, c.isAlphanum = true) :
    (bound (.column identifier) token formatter name value).Scans [⟨name, false⟩] := by
  intro before rest
  have htext : (bound (.column identifier) token formatter name value).text.toList ++ rest
      = '(' :: (identifier.toList ++ ' ' :: (token.toList ++ ' ' :: (wrapBefore formatter
        ++ '@' :: (name.toList ++ (wrapAfter formatter ++ ')' :: rest))))) := by
    simp [text, toList_group, toList_placeholder, Operand.text]
  have hbefore (v : List Char) :
      marks (some ' ') (wrapBefore formatter ++ v) = marks (some ' ') v := by
    cases formatter with
    | none => rfl
    | some pattern => cases pattern <;> rfl
  have hafter : (wrapAfter formatter ++ ')' :: rest).takeWhile Char.isAlphanum = [] := by
    cases formatter with
    | none => rfl
    | some pattern => cases pattern <;> rfl
  have hend : '@' ∉ name.toList ++ wrapAfter formatter := by
    rw [List.mem_append, not_or]
    refine ⟨not_mem_of_forall hname rfl, ?_⟩
    cases formatter with
    | none => decide
    | some pattern => cases pattern <;> decide
  rw [htext, marks_cons (by decide), marks_skip hidentifier (by decide),
    marks_skip htoken (by decide), hbefore, marks_at hname hafter, ← List.append_assoc,
    marks_skip hend (by decide), String.ofList_toList]
  rfl

end Clause

namespace Node

open Text

/-- A tree whose names are letters and digits, and the rest of whose text has no sign `@`. -/
def Unmarked (m : Mapping) : Node → Prop :=
  Spelled m (fun s => ∀ c ∈ s.toList, c.isAlphanum = true) (fun s => '@' ∉ s.toList)
    (fun v => '@' ∉ (Constant.render v).toList)

/-- The marks of a clause: placeholders for its parameters, in their order, and references
that are grounded in them. -/
theorem Writes.exists_scans {m : Mapping} {n : Node} {c : Clause} (h : n.Writes m c)
    (hn : n.Unmarked m) : ∃ ms, c.Scans ms ∧
      (ms.filter (!·.refersBack)).map (·.name) = c.parameters.map (·.name) ∧ Grounded ms := by
  induction h with
  | tested h hvalue hidentifier hsense =>
    obtain ⟨-, plain⟩ := Spelled.of_comparison hn h hidentifier
    exact ⟨[], Clause.scans_nullTest plain _, rfl, grounded_nil⟩
  | bound h hvalue hidentifier htoken =>
    obtain ⟨names, plain⟩ := Spelled.of_comparison hn h hidentifier
    exact ⟨_, Clause.scans_bound _ _ plain (Operation.not_mem_token rfl htoken)
      (forall_mem_parameterName _ rfl names),
      rfl, grounded_placeholder _⟩
  | @orUnbound op path value identifier token h inhabited hidentifier htoken =>
    obtain ⟨names, plain⟩ := Spelled.of_orUnbound hn h hidentifier
    have name := forall_mem_parameterName value.kind rfl names
    have comparison :=
      Clause.scans_bound path.formatter value.value plain (Operation.not_mem_token rfl htoken)
        name
    have check := Clause.scans_reference name
    exact ⟨_, Clause.scans_join comparison check (by decide), rfl, grounded_pair _⟩
  | constants hop htoken =>
    obtain ⟨ha, hb⟩ := Spelled.of_constants hn
    exact ⟨[], Clause.scans_constants ha hb (Operation.not_mem_token rfl htoken), rfl, grounded_nil⟩
  | join hop htoken hleft hright ihleft ihright =>
    obtain ⟨unmarkedLeft, unmarkedRight⟩ := Spelled.of_join hn hleft.isComposite
    obtain ⟨ms, hms, namesLeft, groundedLeft⟩ := ihleft unmarkedLeft
    obtain ⟨ns, hns, namesRight, groundedRight⟩ := ihright unmarkedRight
    refine ⟨ms ++ ns, Clause.scans_join hms hns (Operation.not_mem_token rfl htoken), ?_,
      groundedLeft.append groundedRight⟩
    rw [List.filter_append, List.map_append, namesLeft, namesRight, Clause.parameters,
      List.map_append]

end Node

theorem Mapping.not_mem_identifier {m : Mapping} {path : MemberPath} {identifier : String}
    (hentries : ∀ entry ∈ m.entries, '@' ∉ entry.2.toList)
    (hnames : ∀ s ∈ path.segments, ∀ c ∈ s.toList, c.isAlphanum = true)
    (hidentifier : m.identifier? path.dotted = some identifier) : '@' ∉ identifier.toList :=
  not_mem_of_identifier? (by decide) hentries (fun s hs => not_mem_of_forall (hnames s hs) rfl)
    hidentifier

/-- In the text of a predicate the marks that do not refer back are the names of its
parameters, in their order and as often, and every mark that refers back comes right behind
the placeholder that it refers to. -/
theorem compile_marks_eq {m : Mapping} {e : Expr} {p : Predicate}
    (h : (compile m e).result = .ok p)
    (hnames : e.SubjectNames fun name => ∀ c ∈ name.toList, c.isAlphanum = true)
    (hentries : ∀ entry ∈ m.entries, '@' ∉ entry.2.toList)
    (hconstants : ∀ n, e.toPredicate.result = .ok n → ∀ v ∈ n.constants, ¬ v.Mentions '@') :
    ((Text.marks none p.text.toList).filter (!·.refersBack)).map (·.name) = p.parameterNames ∧
      Text.Grounded (Text.marks none p.text.toList) := by
  obtain ⟨n, c, hn, hc, rfl⟩ := writes_of_compile h
  have named := hnames.named (Expr.result_toPredicate_eq_ok_iff.1 hn).1
  have unmarked : n.Unmarked m :=
    { names := named
      identifiers := fun path hpath _ _ => Mapping.not_mem_identifier hentries (named path hpath)
      constants := fun v hv hat =>
        hconstants n hn v hv (Constant.mentions_of_mem hat (by decide) (by decide)) }
  obtain ⟨ms, scans, names, grounded⟩ := hc.exists_scans unmarked
  have whole : Text.marks none c.text.toList = ms := by
    have scanned := scans none []
    rwa [List.append_nil, Text.marks, List.append_nil] at scanned
  rw [← whole] at names grounded
  exact ⟨names, grounded⟩

/-- A search in a name beside a pair of constants. What is searched for may well have the
sign in it. -/
def searchBesidePair : Expr :=
  .and (.containsOrNull (.get (.get .subject "SubModel") "Name") (.ofValue (.text "a@b")))
    (.equals (.ofValue (.text "x")) (.ofValue (.int 7)))

/-- A mapping with a column for the name. -/
def nameMapping : Mapping := (Mapping.empty "m").map "SubModel.Name" "sub_name" none

/-- What `searchBesidePair` compiles to. -/
def searchBesidePairPredicate : Predicate where
  text := "(((m.sub_name LIKE '%' + @SubModelName + '%') OR (@SubModelName IS NULL)) AND ('x' = 7))"
  parameters := [⟨"SubModelName", .text "a@b"⟩]

theorem searchBesidePair_marks_eq :
    (compile nameMapping searchBesidePair).result = .ok searchBesidePairPredicate ∧
    (searchBesidePair.SubjectNames fun name => ∀ c ∈ name.toList, c.isAlphanum = true) ∧
    (∀ entry ∈ nameMapping.entries, '@' ∉ entry.2.toList) ∧
    (∀ n, searchBesidePair.toPredicate.result = .ok n → ∀ v ∈ n.constants, ¬ v.Mentions '@') ∧
    ((Text.marks none searchBesidePairPredicate.text.toList).filter (!·.refersBack)).map (·.name)
      = ["SubModelName"] ∧
    Text.Grounded (Text.marks none searchBesidePairPredicate.text.toList) := by
  have compiled : (compile nameMapping searchBesidePair).result
      = .ok searchBesidePairPredicate := rfl
  have names : searchBesidePair.SubjectNames fun name => ∀ c ∈ name.toList, c.isAlphanum = true := by
    refine .binary (.call (fun _ h => by cases h) fun arg harg => ?_)
      (.binary (.constant _ _) (.constant _ _))
    simp only [List.mem_cons, List.not_mem_nil, or_false] at harg
    rcases harg with rfl | rfl
    · exact .member (fun _ => List.all_eq_true.1 rfl)
        (.member (fun _ => List.all_eq_true.1 rfl) .subject)
    · exact .constant _ _
  have entries : ∀ entry ∈ nameMapping.entries, '@' ∉ entry.2.toList := by decide
  have constants : ∀ n, searchBesidePair.toPredicate.result = .ok n →
      ∀ v ∈ n.constants, ¬ v.Mentions '@' := by
    intro n hn v hv hat
    cases hn
    rcases List.mem_cons.1 hv with rfl | hv
    · cases hat with
      | text h => revert h; decide
    · obtain rfl := List.mem_singleton.1 hv
      cases hat
  have marks := compile_marks_eq compiled names entries constants
  exact ⟨compiled, names, entries, constants, marks.1, marks.2⟩

end WhereClause
