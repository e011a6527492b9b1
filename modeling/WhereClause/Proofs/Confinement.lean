import WhereClause.Proofs.Glyphs
import WhereClause.Proofs.Names
import WhereClause.Proofs.Quotation
import WhereClause.Proofs.Rendering

/-!
# Constants stay in their literals

A text in quotes cannot leave them, whatever it is. Arrays and objects are written without
quotes, and what their texts have in them stands in the predicate as SQL. So all that comes
from a text in a constant is enclosed in a literal exactly if the texts in arrays and objects
are empty (`compile_confined_iff`).
-/
namespace WhereClause

open Quoting

namespace Quoting

/-- A character is one of a literal, and not the quote that ends it. -/
def Encloses (q : Quoting) (c : Char) (following : List Char) : Prop :=
  match q with
  | outside => False
  | inside => c = '\x27' → following.head? = some '\x27'
  | closing => c = '\x27'

instance decidableEncloses (q : Quoting) (c : Char) (following : List Char) :
    Decidable (q.Encloses c following) :=
  match q with
  | outside => inferInstanceAs (Decidable False)
  | inside => inferInstanceAs (Decidable (_ → _))
  | closing => inferInstanceAs (Decidable (_ = _))

end Quoting

namespace Glyph

/-- All that is given is enclosed in literals, for a reader who stands at `q` before it. -/
def Enclosed : Quoting → List Glyph → Prop
  | _, [] => True
  | q, g :: gs => (g.isGiven = true → q.Encloses g.char (chars gs)) ∧ Enclosed (q.step g.char) gs

instance decidableEnclosed : ∀ (q : Quoting) (gs : List Glyph), Decidable (Enclosed q gs)
  | _, [] => .isTrue trivial
  | q, g :: gs =>
    have := decidableEnclosed (q.step g.char) gs
    inferInstanceAs (Decidable (_ ∧ _))

/-- A text that ends outside literals and in which all that is given is enclosed in them. -/
structure Confined (q : Quoting) (gs : List Glyph) : Prop where
  ends : q.run (chars gs) ≠ inside
  enclosed : Enclosed q gs

theorem confined_cons_iff {q : Quoting} {g : Glyph} {gs : List Glyph} :
    Confined q (g :: gs)
      ↔ (g.isGiven = true → q.Encloses g.char (chars gs)) ∧ Confined (q.step g.char) gs := by
  constructor
  · rintro ⟨ends, first, others⟩
    exact ⟨first, ends, others⟩
  · rintro ⟨first, ends, others⟩
    exact ⟨ends, first, others⟩

theorem confined_written_iff {q : Quoting} {cs : List Char} {gs : List Glyph} :
    Confined q (written cs ++ gs) ↔ Confined (q.run cs) gs := by
  induction cs generalizing q with
  | nil => rfl
  | cons c cs ih =>
    have first : written (c :: cs) ++ gs = ⟨c, false⟩ :: (written cs ++ gs) := rfl
    rw [first, confined_cons_iff, ih]
    simp

theorem confined_escapeQuote_iff {c : Char} {gs : List Glyph} :
    Confined inside (given (Constant.escapeQuote c) ++ gs) ↔ Confined inside gs := by
  by_cases hc : c = '\x27'
  · subst hc
    have doubled : given (Constant.escapeQuote '\x27') ++ gs
        = ⟨'\x27', true⟩ :: ⟨'\x27', true⟩ :: gs := rfl
    rw [doubled, confined_cons_iff, confined_cons_iff]
    -- one quote is enclosed for the quote behind it, the other for the one in front of it
    exact ⟨fun h => h.2.2, fun h => ⟨fun _ _ => rfl, fun _ => rfl, h⟩⟩
  · have itself : given (Constant.escapeQuote c) ++ gs = ⟨c, true⟩ :: gs := by
      simp [given, Constant.escapeQuote, hc]
    have stays : inside.step c = inside := if_neg hc
    rw [itself, confined_cons_iff, stays]
    exact ⟨fun h => h.2, fun h => ⟨fun _ same => (hc same).elim, h⟩⟩

/-- Every character of a text in quotes is enclosed in them, and none ends the literal. -/
theorem confined_escaped_iff {s : List Char} {gs : List Glyph} :
    Confined inside (given (s.flatMap Constant.escapeQuote) ++ gs) ↔ Confined inside gs := by
  induction s with
  | nil => rfl
  | cons c s ih =>
    rw [List.flatMap_cons, given_append, List.append_assoc, confined_escapeQuote_iff, ih]

/-- A part of a text that begins outside literals is confined under a condition, and what
follows it begins outside again. -/
def Settles (gs : List Glyph) (condition : Prop) : Prop :=
  ∀ hs, Confined outside (gs ++ hs) ↔ condition ∧ Confined outside hs

/-- The same, if something other than a quote follows. -/
def SettlesUnlessQuote (gs : List Glyph) (condition : Prop) : Prop :=
  ∀ c hs, c ≠ '\x27' →
    (Confined outside (gs ++ (written [c] ++ hs)) ↔ condition ∧ Confined outside hs)

theorem Settles.unlessQuote {gs : List Glyph} {P : Prop} (h : Settles gs P) :
    SettlesUnlessQuote gs P := by
  intro c hs hc
  have stays : outside.run [c] = outside := step_of_ne (q := outside) (by decide) hc
  rw [h, confined_written_iff, stays]

theorem Settles.of_iff {gs : List Glyph} {P Q : Prop} (h : Settles gs P) (same : P ↔ Q) :
    Settles gs Q := by
  intro hs
  rw [h hs, same]

theorem settles_written {cs : List Char} (h : outside.run cs = outside) :
    Settles (written cs) True := by
  intro hs
  rw [confined_written_iff, h, true_and]

/-- Outside, nothing may be given as long as no quote is written. -/
theorem settles_unquoted {gs : List Glyph} (h : writtenQuote ∉ gs) :
    Settles gs (hasGiven gs = false) := by
  intro hs
  induction gs with
  | nil => simp
  | cons g gs ih =>
    rw [List.cons_append, confined_cons_iff, hasGiven_cons]
    cases hgiven : g.isGiven with
    | true => simp [Encloses]
    | false =>
      have unquoted : g.char ≠ '\x27' := by
        intro quote
        have same : writtenQuote = g := by rw [writtenQuote, ← quote, ← hgiven]
        exact h (same ▸ List.mem_cons_self)
      rw [step_of_ne (by decide) unquoted, ih fun hmem => h (List.mem_cons_of_mem g hmem)]
      simp

theorem settles_group {left right : List Glyph} {token : String} {P Q : Prop}
    (hleft : SettlesUnlessQuote left P) (htoken : '\x27' ∉ token.toList)
    (hright : SettlesUnlessQuote right Q) : Settles (group left token right) (P ∧ Q) := by
  intro hs
  have parts : group left token right ++ hs
      = written ['('] ++ (left ++ (written [' '] ++ (written token.toList ++ (written [' ']
        ++ (right ++ (written [')'] ++ hs)))))) := by
    simp [group]
  have opening : outside.run ['('] = outside := rfl
  have blank : outside.run [' '] = outside := rfl
  rw [parts, confined_written_iff, opening, hleft ' ' _ (by decide), confined_written_iff,
    run_of_not_mem htoken, confined_written_iff, blank, hright ')' _ (by decide), and_assoc]

end Glyph

open Glyph

namespace Json

/-- The texts and field names in an array or object are all empty. -/
def InnerTextsEmpty (v : Json) : Prop := v.isStructured = true → ∀ c, ¬ v.Mentions c

theorem innerTextsEmpty_iff_true {v : Json} (h : v.isStructured = false) :
    v.InnerTextsEmpty ↔ True := by
  simp [InnerTextsEmpty, h]

theorem hasGiven_glyphs_eq_false_iff {v : Json} (notText : ∀ s, v ≠ .text s) :
    hasGiven v.glyphs = false ↔ v.InnerTextsEmpty := by
  rw [← Bool.not_eq_true, hasGiven_glyphs_iff, not_exists, InnerTextsEmpty]
  constructor
  · exact fun h _ => h
  · intro h c
    by_cases hv : v.isStructured = true
    · exact h hv c
    · exact Constant.not_mentions (Bool.not_eq_true _ ▸ hv) notText c

end Json

namespace Constant

theorem settlesUnlessQuote_text (s : String) : SettlesUnlessQuote (glyphs (.text s)) True := by
  intro c hs hc
  have opening : outside.run ['\x27'] = inside := rfl
  have behind : inside.run ['\x27', c] = outside := step_of_ne (q := closing) (by decide) hc
  have parts : glyphs (.text s) ++ (written [c] ++ hs)
      = written ['\x27']
        ++ (given (s.toList.flatMap escapeQuote) ++ (written ['\x27', c] ++ hs)) := by
    simp [glyphs, written]
  rw [parts, confined_written_iff, opening, confined_escaped_iff, confined_written_iff, behind,
    true_and]

/-- Any text is confined, and any other constant if it brings no character in. -/
theorem settlesUnlessQuote (v : Json) : SettlesUnlessQuote (glyphs v) v.InnerTextsEmpty := by
  have json {v : Json} (notText : ∀ s, v ≠ .text s) :
      SettlesUnlessQuote v.glyphs v.InnerTextsEmpty :=
    ((settles_unquoted (Json.writtenQuote_not_mem_glyphs v)).of_iff
      (Json.hasGiven_glyphs_eq_false_iff notText)).unlessQuote
  cases v with
  | null =>
    have plain : Settles (glyphs .null) True := settles_written rfl
    exact (plain.of_iff (Json.innerTextsEmpty_iff_true rfl).symm).unlessQuote
  | text s =>
    intro c hs hc
    rw [settlesUnlessQuote_text s c hs hc, Json.innerTextsEmpty_iff_true rfl]
  | bool b => exact json (by simp)
  | int n => exact json (by simp)
  | float x => exact json (by simp)
  | array items => exact json (by simp)
  | object fields => exact json (by simp)

end Constant

namespace Node

/-- A tree in whose names and identifiers there are no single quotes. -/
def Unquoted (m : Mapping) : Node → Prop :=
  Spelled m (fun s => '\x27' ∉ s.toList) (fun s => '\x27' ∉ s.toList) fun _ => True

/-- The name and the identifier of a path beside a value have no quotes either. -/
theorem Unquoted.of_pair {m : Mapping} {form : Form} {op : Operation} {path : MemberPath}
    {value : Literal} {left : Operand}
    (hn : (composite form op (.member path) (.literal value)).Unquoted m)
    (hleft : path.StandsFor m (parameterName path.segments value.kind) left) :
    '\x27' ∉ (parameterName path.segments value.kind).toList ∧ '\x27' ∉ left.text.toList := by
  have sort {cs : List Char} (h : '\x27' ∉ cs) : ∀ c ∈ cs, (c != '\x27') = true := by
    intro c hc
    simp only [bne_iff_ne]
    rintro rfl
    exact h hc
  obtain ⟨names, identifiers⟩ := Spelled.of_pair hn
  have name := forall_mem_parameterName value.kind rfl fun s hs => sort (names s hs)
  have operand := hleft.forall_mem rfl name fun column identifier h =>
    sort (identifiers column identifier h)
  exact ⟨not_mem_of_forall name rfl, not_mem_of_forall operand rfl⟩

/-- Names, identifiers and tokens settle everything but what the constants bring in. -/
theorem Renders.settles {m : Mapping} {n : Node} {c : Clause} (h : n.Renders m c)
    (hn : n.Unquoted m) : Settles c.glyphs (∀ v ∈ n.constants, v.InnerTextsEmpty) := by
  induction h with
  | join form htoken hleft hright ihleft ihright =>
    obtain ⟨unquotedLeft, unquotedRight⟩ := Spelled.of_join hn (Clause.isComposite_of_renders hleft)
    refine (settles_group (ihleft unquotedLeft).unlessQuote (Operation.not_mem_token rfl htoken)
      (ihright unquotedRight).unlessQuote).of_iff ?_
    rw [constants_join (Clause.isComposite_of_renders hleft), List.forall_mem_append]
  | constants form a b htoken =>
    refine (settles_group (Constant.settlesUnlessQuote a.value)
      (Operation.not_mem_token rfl htoken) (Constant.settlesUnlessQuote b.value)).of_iff ?_
    simp [Node.constants]
  | @nullTest form op path value left negated htested hleft hop =>
    have operand := Text.endsOutside_of_not_mem (hn.of_pair hleft).2
    have word : Text.EndsOutside "IS".toList := by decide
    have null : Text.EndsOutside (if negated then "NOT NULL" else "NULL").toList := by
      cases negated <;> decide
    have text : outside.run (Clause.nullTest left negated).text.toList = outside := by
      rw [Clause.text_nullTest]
      exact Text.run_group operand word null
    exact (settles_written text).of_iff (by simp [Node.constants])
  | @bound form op path value left token hbound htoken hleft =>
    obtain ⟨name, operand⟩ := hn.of_pair hleft
    have token := Text.endsOutside_of_not_mem (Operation.not_mem_token rfl htoken)
    have text := Text.run_group (Text.endsOutside_of_not_mem operand) token
      (Clause.endsOutside_placeholder name path.formatter)
    exact (settles_written text).of_iff (by simp [Node.constants])

end Node

/-- Constants cannot leave the literals that they stand in exactly if the arrays and objects
among them have no texts but empty ones. Then the text ends outside literals, and all that
comes from a text in a constant is enclosed in one. -/
theorem compile_confined_iff {m : Mapping} {e : Expr} {p : Predicate}
    (h : (compile m e).result = .ok p) (hnames : e.SubjectNames fun name => '\x27' ∉ name.toList)
    (hentries : ∀ entry ∈ m.entries, '\x27' ∉ entry.2.toList) :
    ∃ n c, e.toPredicate.result = .ok n ∧ (Clause.ofNode m n).result = .ok c ∧ c.predicate = p ∧
      chars c.glyphs = p.text.toList ∧
      (Confined outside c.glyphs ↔ ∀ v ∈ n.constants, v.InnerTextsEmpty) := by
  obtain ⟨n, c, hn, hc, rfl⟩ := result_compile_eq_ok_iff.1 h
  have named := hnames.named (Expr.result_toPredicate_eq_ok_iff.1 hn).1
  have unquoted : n.Unquoted m :=
    { names := named
      identifiers := fun path hpath _ _ =>
        Mapping.not_mem_of_identifier? (by decide) hentries (named path hpath)
      constants := fun _ _ => trivial }
  have settled := hc.settles unquoted []
  have nothing : Confined outside [] := ⟨by decide, trivial⟩
  rw [List.append_nil, and_iff_left nothing] at settled
  exact ⟨n, c, hn, Clause.result_ofNode_eq_ok_iff.2 hc, rfl, c.toList_text.symm, settled⟩

/-- A text with a quote, compared with an array of two values beside a search for a quote. -/
def quoteBesideArray : Expr :=
  .and (.equals (.ofValue (.text "it's")) (.ofValue (.array [.int 1, .array []])))
    (.startsWith (.get .subject "Name") (.ofValue (.text "'")))

/-- What `quoteBesideArray` compiles to. -/
def quoteBesideArrayPredicate : Predicate where
  text := "(('it''s' = [1,[]]) AND (Name LIKE @Name + '%'))"
  parameters := [⟨"Name", .text "'"⟩]

theorem quoteBesideArray_confined :
    (compile (.empty "m") quoteBesideArray).result = .ok quoteBesideArrayPredicate ∧
    (quoteBesideArray.SubjectNames fun name => '\x27' ∉ name.toList) ∧
    ∃ c : Clause, c.predicate = quoteBesideArrayPredicate ∧
      chars c.glyphs = quoteBesideArrayPredicate.text.toList ∧ hasGiven c.glyphs = true ∧
      Confined outside c.glyphs := by
  have compiled : (compile (.empty "m") quoteBesideArray).result
      = .ok quoteBesideArrayPredicate := rfl
  have names : quoteBesideArray.SubjectNames fun name => '\x27' ∉ name.toList := by
    refine .binary (.binary (.constant _ _) (.constant _ _))
      (.call (fun r hr => ?_) fun arg harg => ?_)
    · cases hr
      exact .member (fun _ => by decide) .subject
    · obtain rfl := List.mem_singleton.1 harg
      exact .constant _ _
  have noEntries : ∀ entry ∈ (Mapping.empty "m").entries, '\x27' ∉ entry.2.toList := nofun
  obtain ⟨n, c, hn, hc, hp, characters, confined⟩ := compile_confined_iff compiled names noEntries
  cases hn
  cases hc
  refine ⟨compiled, names, _, hp, characters, rfl, confined.2 fun v hv => ?_⟩
  rcases List.mem_cons.1 hv with rfl | hv
  · exact (Json.innerTextsEmpty_iff_true rfl).2 trivial
  · obtain rfl := List.mem_singleton.1 hv
    exact (Json.hasGiven_glyphs_eq_false_iff (v := .array [.int 1, .array []]) (by simp)).1 rfl

/-- The predicate that an array with a text equals one. -/
def arrayEqualsOne : Expr := .equals (.ofValue (.array [.text "it's"])) (.ofValue (.int 1))

/-- The array is written as JSON, and the quote in it opens a literal that nothing ends. -/
theorem arrayEqualsOne_not_confined :
    (arrayEqualsOne.SubjectNames fun name => '\x27' ∉ name.toList) ∧
    (Mapping.empty "m").entries = [] ∧
    ∃ n c, arrayEqualsOne.toPredicate.result = .ok n ∧
      (Clause.ofNode (.empty "m") n).result = .ok c ∧
      (compile (.empty "m") arrayEqualsOne).result = .ok c.predicate ∧
      c.text = "([\"it's\"] = 1)" ∧ chars c.glyphs = c.text.toList ∧
      ¬ Text.EndsOutside c.text.toList ∧ ¬ Enclosed outside c.glyphs := by
  refine ⟨.binary (.constant _ _) (.constant _ _), rfl, _, _, rfl, rfl, rfl, rfl, rfl, ?_, ?_⟩
  · decide
  · decide

end WhereClause
