import WhereClause.Proofs.Chains
import WhereClause.Proofs.Spelling

/-!
# The names in a tree

Every name in the paths of a tree is the name of a member of the subject, somewhere in the
expression. So what is known of the names in an expression is known of those in its tree
(`Expr.SubjectNames.named`).
-/
namespace WhereClause

namespace Expr

/-- The members on chains from the subject have names that `P` holds of. -/
inductive SubjectNames (P : String → Prop) : Expr → Prop
  | constant (value : Json) (kind : Kind) : SubjectNames P (.constant value kind)
  | subject : SubjectNames P .subject
  | lambda {body : Expr} (h : body.SubjectNames P) : SubjectNames P (.lambda body)
  | convert {operand : Expr} (h : operand.SubjectNames P) : SubjectNames P (.convert operand)
  /-- A member of a captured value may have any name. -/
  | member {receiver : Expr} {name : String} {kind : Kind}
      (hname : (Expr.member receiver name kind).HasSort .path → P name)
      (h : receiver.SubjectNames P) : SubjectNames P (.member receiver name kind)
  | binary {op : BinaryOperator} {left right : Expr} (hleft : left.SubjectNames P)
      (hright : right.SubjectNames P) : SubjectNames P (.binary op left right)
  | call {method : Method} {receiver : Option Expr} {args : List Expr}
      (hreceiver : ∀ r, receiver = some r → r.SubjectNames P)
      (hargs : ∀ arg ∈ args, arg.SubjectNames P) : SubjectNames P (.call method receiver args)

end Expr

namespace Node

/-- The members of all paths in a tree have names that `P` holds of. -/
def Named (P : String → Prop) (n : Node) : Prop := ∀ path ∈ n.paths, ∀ s ∈ path.segments, P s

variable {P : String → Prop}

theorem named_composite_iff {form : Form} {op : Operation} {left right : Node} :
    (composite form op left right).Named P ↔ left.Named P ∧ right.Named P := by
  simp only [Named, paths, List.mem_append, or_imp, forall_and]

end Node

namespace Expr

variable {P : String → Prop}

theorem SubjectNames.of_part {part e : Expr} (h : e.SubjectNames P) (hpart : Part part e) :
    part.SubjectNames P := by
  induction hpart with
  | self => exact h
  | body _ ih =>
    cases h with
    | lambda h => exact ih h
  | operand _ ih =>
    cases h with
    | convert h => exact ih h
  | owner _ _ _ ih =>
    cases h with
    | member _ h => exact ih h
  | left _ _ _ ih =>
    cases h with
    | binary hleft _ => exact ih hleft
  | right _ _ _ ih =>
    cases h with
    | binary _ hright => exact ih hright
  | receiver _ _ _ ih =>
    cases h with
    | call hreceiver _ => exact ih (hreceiver _ rfl)
  | arg _ _ harg _ ih =>
    cases h with
    | call _ hargs => exact ih (hargs _ harg)

/-- All members of a chain are members on chains from the subject. -/
theorem SubjectNames.of_chain {e : Expr} {names : List String} (h : e.SubjectNames P)
    (chain : e.Chain names) : ∀ name ∈ names, P name := by
  induction chain with
  | first name kind hreceiver =>
    intro other hother
    obtain rfl := List.mem_singleton.1 hother
    cases h with
    | member hname _ => exact hname (.ofSubject other kind hreceiver)
  | next name kind hreceiver ih =>
    intro other hother
    cases h with
    | member hname h =>
      rcases List.mem_append.1 hother with hother | hother
      · exact ih h other hother
      · obtain rfl := List.mem_singleton.1 hother
        exact hname (.ofPath other kind hreceiver.hasSort)
  | lambda chain ih =>
    cases h with
    | lambda h => exact ih h
  | convert chain ih =>
    cases h with
    | convert h => exact ih h

/-- The names in the paths of a tree are names of members of the subject. -/
theorem SubjectNames.named {e : Expr} {n : Node} (h : e.SubjectNames P)
    (hn : e.toNode.result = .ok n) : n.Named P := by
  intro path hpath
  obtain ⟨part, within, chain⟩ := exists_part_of_mem_paths hn hpath
  exact (h.of_part within).of_chain chain

end Expr

/-- The characters on the left of a clause are the sign of a reference and those of a name,
or those of an identifier. -/
theorem MemberPath.StandsFor.forall_mem {m : Mapping} {path : MemberPath} {name : String}
    {left : Operand} {p : Char → Bool} (h : path.StandsFor m name left) (sign : p '@' = true)
    (hname : ∀ c ∈ name.toList, p c = true)
    (hidentifier : path.nullRef = false → ∀ identifier,
      m.identifier? path.dotted = some identifier → ∀ c ∈ identifier.toList, p c = true) :
    ∀ c ∈ left.text.toList, p c = true := by
  cases h with
  | reference hreference =>
    intro c hc
    rw [Clause.toList_parameter] at hc
    rcases List.mem_cons.1 hc with rfl | hc
    · exact sign
    · exact hname c hc
  | column hcolumn hresolved => exact hidentifier hcolumn _ hresolved

/-- A character of an identifier is one of an entry, one of a name or the point between names. -/
theorem Mapping.not_mem_of_identifier? {m : Mapping} {path : MemberPath} {identifier : String}
    {d : Char} (notPoint : d ≠ '.') (hentries : ∀ entry ∈ m.entries, d ∉ entry.2.toList)
    (hnames : ∀ s ∈ path.segments, d ∉ s.toList)
    (hidentifier : m.identifier? path.dotted = some identifier) : d ∉ identifier.toList := by
  rcases mem_entries_or_eq_of_identifier? hidentifier with registered | rfl
  · exact hentries _ registered
  · intro h
    rcases MemberPath.mem_dotted h with h | ⟨s, hs, h⟩
    · exact notPoint h
    · exact hnames s hs h

namespace Node

/-- The parts that the text of a tree is made of: `N` holds of the names of members, `I` of
the identifiers of columns and `K` of the constants that stand in the text. -/
structure Spelled (m : Mapping) (N I : String → Prop) (K : Json → Prop) (n : Node) : Prop where
  names : n.Named N
  identifiers : ∀ path ∈ n.paths, path.nullRef = false →
    ∀ identifier, m.identifier? path.dotted = some identifier → I identifier
  constants : ∀ v ∈ n.constants, K v

variable {m : Mapping} {N I : String → Prop} {K : Json → Prop} {op : Operation}

theorem Spelled.of_comparison {path : MemberPath} {value : Literal} {identifier : String}
    (hn : (binary op (.member path) (.literal value)).Spelled m N I K)
    (h : Comparison op path value) (hidentifier : m.identifier? path.dotted = some identifier) :
    (∀ s ∈ path.segments, N s) ∧ I identifier := by
  have found : path ∈ (binary op (.member path) (.literal value)).paths := by simp [binary, paths]
  exact ⟨hn.names path found, hn.identifiers path found h.column identifier hidentifier⟩

theorem Spelled.of_orUnbound {path : MemberPath} {value : Literal} {identifier : String}
    (hn : (Expansion.orUnbound op path value).Spelled m N I K) (h : Comparison op path value)
    (hidentifier : m.identifier? path.dotted = some identifier) :
    (∀ s ∈ path.segments, N s) ∧ I identifier := by
  have found : path ∈ (Expansion.orUnbound op path value).paths := by
    simp [Expansion.orUnbound, Node.or, binary, paths]
  exact ⟨hn.names path found, hn.identifiers path found h.column identifier hidentifier⟩

variable {form : Form}

/-- The names and the identifier of a path beside a value, which may refer back. -/
theorem Spelled.of_pair {path : MemberPath} {value : Literal}
    (hn : (composite form op (.member path) (.literal value)).Spelled m N I K) :
    (∀ s ∈ path.segments, N s) ∧ (path.nullRef = false →
      ∀ identifier, m.identifier? path.dotted = some identifier → I identifier) := by
  have found : path ∈ (composite form op (.member path) (.literal value)).paths := by simp [paths]
  exact ⟨hn.names path found, hn.identifiers path found⟩

theorem Spelled.of_constants {a b : Literal}
    (hn : (composite form op (.literal a) (.literal b)).Spelled m N I K) : K a.value ∧ K b.value :=
  ⟨hn.constants a.value (by simp [Node.constants]), hn.constants b.value (by simp [Node.constants])⟩

theorem constants_join {left right : Node} (hleft : left.isComposite = true) :
    (composite form op left right).constants = left.constants ++ right.constants := by
  cases left with
  | composite form op' l r =>
    rw [constants]
    simp
  | _ => cases hleft

theorem Spelled.of_join {left right : Node} (hn : (composite form op left right).Spelled m N I K)
    (hleft : left.isComposite = true) : left.Spelled m N I K ∧ right.Spelled m N I K := by
  obtain ⟨namesLeft, namesRight⟩ := named_composite_iff.1 hn.names
  have constants := hn.constants
  rw [constants_join hleft] at constants
  refine ⟨⟨namesLeft, fun path hpath => ?_, fun v hv => ?_⟩,
    ⟨namesRight, fun path hpath => ?_, fun v hv => ?_⟩⟩
  · exact hn.identifiers path (List.mem_append_left _ hpath)
  · exact constants v (List.mem_append_left _ hv)
  · exact hn.identifiers path (List.mem_append_right _ hpath)
  · exact constants v (List.mem_append_right _ hv)

end Node
end WhereClause
