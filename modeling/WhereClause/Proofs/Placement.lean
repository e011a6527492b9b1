import WhereClause.Proofs.Canonical

/-!
# Where the parts of a tree stand

A part of a predicate tree is found below the composites that it stands in, and what it may
be depends on them: a path is put into a pattern exactly where it is matched as text, and
only in a pair of a comparison and the check of its parameter is a value forced or does a
path refer back. Going down into a child keeps track of all that (`Node.Placed.child`), and so
it is known of the parts at any depth (`Expr.canonicalAt_of_toPredicate`).
-/
namespace WhereClause

open Expansion

/-- A composite as one of its children sees it: its other child, and on which side. -/
inductive Frame where
  | leftOf (form : Form) (op : Operation) (right : Node)
  | rightOf (form : Form) (op : Operation) (left : Node)

/-- The composite with the child put in. -/
def Frame.attach (child : Node) : Frame → Node
  | .leftOf form op right => .composite form op child right
  | .rightOf form op left => .composite form op left child

namespace Node

/-- The tree that has a part below some composites, the innermost of them first. -/
def plug : List Frame → Node → Node
  | [], part => part
  | frame :: above, part => plug above (frame.attach part)

/-- What composites there are in the tree of an expression. -/
structure CompositeForm (form : Form) (op : Operation) (left right : Node) : Prop where
  form : form = .logical ↔ op = .and ∨ op = .or
  operation : op ≠ .negate ∧ op ≠ .negateChecked ∧ op ≠ .not
  /-- Only a path is matched with a pattern or looked for in a set. -/
  pair : op = .like ∨ op = .within → ∃ path value, left = .member path ∧ right = .literal value
  /-- A set that is bound in any case has members. -/
  set : op = .within → ∃ set, right = .literal set ∧
    (set.isNull = true ∨ set.kind = .collection) ∧
    (set.forced = true → set.isNull = false ∧ set.value ≠ .array [])

/-- What paths there are below some composites. -/
structure MemberForm (above : List Frame) (path : MemberPath) : Prop where
  /-- A path is put into a pattern exactly on the left of a match. -/
  formatter : path.formatter.isSome = true ↔
    ∃ form sibling rest, above = .leftOf form .like sibling :: rest
  /-- A path that refers back is checked for null beside the comparison of its column. -/
  reference : path.nullRef = true → ∃ op column value rest,
    above = .leftOf .comparison .eq (.literal (.null value.kind))
      :: .rightOf .logical .or (.composite .comparison op (.member column) (.literal value)) :: rest
    ∧ column.nullRef = false ∧ column.segments = path.segments ∧ value.forced = true

/-- What literals there are below some composites. -/
structure LiteralForm (above : List Frame) (value : Literal) : Prop where
  /-- A forced value is compared with a column beside the check of its parameter. -/
  forced : value.forced = true → ∃ op column reference rest,
    above = .rightOf .comparison op (.member column)
      :: .leftOf .logical .or
        (.composite .comparison .eq (.member reference) (.literal (.null value.kind))) :: rest
    ∧ column.nullRef = false ∧ reference.nullRef = true ∧ reference.segments = column.segments

/-- What a part can be below some composites. -/
def CanonicalAt (above : List Frame) : Node → Prop
  | .composite form op left right => CompositeForm form op left right
  | .member path => MemberForm above path
  | .literal value => LiteralForm above value

/-- The comparison in a pair made by `orUnbound`. -/
def forcedComparison (op : Operation) (path : MemberPath) (value : Literal) : Node :=
  .composite .comparison op (.member path) (.literal value.force)

/-- The check in a pair made by `orUnbound`. -/
def parameterCheck (path : MemberPath) (value : Literal) : Node :=
  .composite .comparison .eq (.member path.toNullRef) (.literal (.null value.kind))

/-- The parts of canonical trees, with what the composites above them must be. -/
inductive Placed : List Frame → Node → Prop
  | tree {above : List Frame} {n : Node} (h : n.Canonical) : Placed above n
  | comparison {above : List Frame} {op : Operation} {path : MemberPath} {value : Literal}
      (h : Comparison op path value) (inhabited : op = .within → isEmptySet value.value = false) :
      Placed (.leftOf .logical .or (parameterCheck path value) :: above)
        (forcedComparison op path value)
  | check {above : List Frame} {op : Operation} {path : MemberPath} {value : Literal}
      (h : Comparison op path value) :
      Placed (.rightOf .logical .or (forcedComparison op path value) :: above)
        (parameterCheck path value)
  | column {above : List Frame} {form : Form} {op : Operation} {path : MemberPath} {sibling : Node}
      (hcolumn : path.nullRef = false) (hformatter : path.formatter.isSome = true ↔ op = .like) :
      Placed (.leftOf form op sibling :: above) (.member path)
  | reference {above : List Frame} {op : Operation} {path : MemberPath} {value : Literal}
      (h : Comparison op path value) :
      Placed (.leftOf .comparison .eq (.literal (.null value.kind))
        :: .rightOf .logical .or (forcedComparison op path value) :: above) (.member path.toNullRef)
  | unforced {above : List Frame} {value : Literal} (h : value.forced = false) :
      Placed above (.literal value)
  | forced {above : List Frame} {op : Operation} {path : MemberPath} {value : Literal}
      (h : Comparison op path value) :
      Placed (.rightOf .comparison op (.member path)
        :: .leftOf .logical .or (parameterCheck path value) :: above) (.literal value.force)

variable {above : List Frame} {op : Operation} {path : MemberPath} {value : Literal}

theorem Comparison.isLogical (h : Comparison op path value) : op.isLogical = false := by
  rcases h.operation with hop | rfl | rfl | rfl
  · exact Operation.isLogical_eq_false_of_hasConverse hop
  all_goals rfl

theorem Comparison.binary_force (h : Comparison op path value) :
    binary op (.member path) (.literal value.force) = forcedComparison op path value := by
  simp [binary, forcedComparison, h.isLogical]

/-- The step down: what is known of a composite is known of its child. -/
theorem Placed.child {frame : Frame} {part : Node} (h : Placed above (frame.attach part)) :
    Placed (frame :: above) part := by
  -- Only from a canonical tree does the step lead into a pair, and only there is the pair
  -- seen whole; from its halves on, their frames are what is left of it.
  cases frame with
  | leftOf form op right =>
    unfold Frame.attach at h
    cases h with
    | tree h =>
      cases h with
      | comparison h => exact .column h.column h.formatter
      | orUnbound h inhabited =>
        rw [h.binary_force]
        exact .comparison h inhabited
      | constants hop ha hb => exact .unforced ha
      | join hop hleft hright => exact .tree hleft
    | comparison h inhabited => exact .column h.column h.formatter
    | check h => exact .reference h
  | rightOf form op left =>
    unfold Frame.attach at h
    cases h with
    | tree h =>
      cases h with
      | comparison h => exact .unforced h.unforced
      | orUnbound h inhabited =>
        rw [h.binary_force]
        exact .check h
      | constants hop ha hb => exact .unforced hb
      | join hop hleft hright => exact .tree hright
    | comparison h inhabited => exact .forced h
    | check h => exact .unforced rfl

/-- The run: whatever part of a placed tree is reached, it is placed. -/
theorem Placed.of_plug {part : Node} {inner outer : List Frame}
    (h : Placed outer (plug inner part)) : Placed (inner ++ outer) part := by
  induction inner generalizing part with
  | nil => exact h
  | cons frame inner ih => exact (ih h).child

/-- No comparison is of an operation with one operand. -/
theorem Comparison.takesTwo (h : Comparison op path value) :
    op ≠ .negate ∧ op ≠ .negateChecked ∧ op ≠ .not := by
  rcases h.operation with hop | rfl | rfl | rfl
  · refine ⟨?_, ?_, ?_⟩ <;> (rintro rfl; cases hop)
  all_goals decide

theorem Comparison.compositeForm (h : Comparison op path value) {bound : Literal}
    (set : op = .within → (bound.isNull = true ∨ bound.kind = .collection) ∧
      (bound.forced = true → bound.isNull = false ∧ bound.value ≠ .array [])) :
    CompositeForm .comparison op (.member path) (.literal bound) where
  form := by
    have compares := h.isLogical
    constructor
    · intro hform
      cases hform
    · rintro (rfl | rfl) <;> cases compares
  operation := h.takesTwo
  pair _ := ⟨path, bound, rfl, rfl⟩
  set within := ⟨bound, rfl, set within⟩

theorem compositeForm_of_join {left right : Node}
    (hop : op.isLogical = true ∨ op.hasConverse = true ∨ op = .coalesce) :
    CompositeForm (if op.isLogical then .logical else .comparison) op left right := by
  have other : op ≠ .like ∧ op ≠ .within ∧ op ≠ .negate ∧ op ≠ .negateChecked ∧ op ≠ .not := by
    cases op <;> simp_all [Operation.isLogical, Operation.hasConverse]
  obtain ⟨notLike, notWithin, takesTwo⟩ := other
  refine ⟨?_, takesTwo, ?_, ?_⟩
  · cases op <;> simp [Operation.isLogical]
  · intro pairs
    exact absurd pairs (not_or.2 ⟨notLike, notWithin⟩)
  · intro within
    exact absurd within notWithin

theorem Canonical.canonicalAt {n : Node} (h : n.Canonical) : CanonicalAt above n := by
  cases h with
  | @comparison op path value h =>
    have form : CompositeForm .comparison op (.member path) (.literal value) :=
      h.compositeForm fun within => ⟨h.isSet within, by simp [h.unforced]⟩
    simpa [CanonicalAt, binary, h.isLogical] using form
  | orUnbound h inhabited => exact compositeForm_of_join (.inl rfl)
  | constants hop ha hb => exact compositeForm_of_join (.inr hop)
  | join hop hleft hright => exact compositeForm_of_join hop

/-- Where a part is placed, it is what it must be there. -/
theorem Placed.canonicalAt {part : Node} (h : Placed above part) : CanonicalAt above part := by
  cases h with
  | tree h => exact h.canonicalAt
  | @comparison above op path value h inhabited =>
    apply h.compositeForm
    intro within
    have members := inhabited within
    exact ⟨h.isSet within, fun _ => ⟨value.isNull_of_inhabited members, ne_empty_of_inhabited members⟩⟩
  | check h =>
    have equates : Operation.eq.hasConverse = true := rfl
    exact compositeForm_of_join (.inr (.inl equates))
  | @column above form op path sibling hcolumn hformatter =>
    refine ⟨?_, ?_⟩
    · rw [hformatter]
      simp
    · intro hreference
      rw [hcolumn] at hreference
      cases hreference
  | @reference above op path value h =>
    refine ⟨?_, ?_⟩
    · simp [MemberPath.toNullRef]
    · intro _
      exact ⟨op, path, value.force, above, rfl, h.column, rfl, rfl⟩
  | unforced h =>
    refine ⟨?_⟩
    intro forced
    rw [h] at forced
    cases forced
  | @forced above op path value h =>
    refine ⟨?_⟩
    intro _
    exact ⟨op, path, path.toNullRef, above, rfl, h.column, rfl, rfl⟩

end Node

/-- Every part of the tree of an expression is what it must be where it stands. -/
theorem Expr.canonicalAt_of_toPredicate {e : Expr} {n part : Node} {above : List Frame}
    (h : e.toPredicate.result = .ok n) (hpart : Node.plug above part = n) :
    Node.CanonicalAt above part := by
  have root : Node.Placed [] (Node.plug above part) := by
    rw [hpart]
    exact .tree (Expr.canonical_of_toPredicate h)
  have placed := root.of_plug
  rw [List.append_nil] at placed
  exact placed.canonicalAt

/-- Rows whose name begins with a text and whose key is the only one of a set. -/
def nameAndKey : Expr :=
  .and (.startsWith (.field "Name") (.ofValue (.text "a")))
    (.containsOrNull (.ofValue (.array [.int 1])) (.field "Id"))

def matchedPath : MemberPath := (MemberPath.ofSegments .any ["Name"]).format .startsWith

def nameBeginning : Literal := .plain .text (.text "a")

def keyPath : MemberPath := .ofSegments .any ["Id"]

def onlyKey : Literal := .plain .collection (.array [.int 1])

def nameAndKeyTree : Node :=
  .binary .and (.binary .like (.member matchedPath) (.literal nameBeginning))
    (orUnbound .within keyPath onlyKey)

/-- A path in a pattern, a path that refers back, and a forced value. -/
theorem nameAndKey_canonicalAt :
    nameAndKey.toPredicate.result = .ok nameAndKeyTree ∧
    ∀ part ∈ [.member matchedPath, .member keyPath.toNullRef, .literal onlyKey.force],
      ∃ above, Node.plug above part = nameAndKeyTree ∧ Node.CanonicalAt above part := by
  have parsed : nameAndKey.toPredicate.result = .ok nameAndKeyTree := rfl
  have place : ∀ above part, Node.plug above part = nameAndKeyTree →
      ∃ above, Node.plug above part = nameAndKeyTree ∧ Node.CanonicalAt above part :=
    fun above part hpart => ⟨above, hpart, Expr.canonicalAt_of_toPredicate parsed hpart⟩
  refine ⟨parsed, ?_⟩
  simp only [List.forall_mem_cons]
  refine ⟨?_, ?_, ?_, by simp⟩
  · exact place [.leftOf .comparison .like (.literal nameBeginning),
      .leftOf .logical .and (orUnbound .within keyPath onlyKey)] _ rfl
  · exact place [.leftOf .comparison .eq (.literal (.null .collection)),
      .rightOf .logical .or (.binary .within (.member keyPath) (.literal onlyKey.force)),
      .rightOf .logical .and (.binary .like (.member matchedPath) (.literal nameBeginning))] _ rfl
  · exact place [.rightOf .comparison .within (.member keyPath),
      .leftOf .logical .or (.binary .eq (.member keyPath.toNullRef) (.literal (.null .collection))),
      .rightOf .logical .and (.binary .like (.member matchedPath) (.literal nameBeginning))] _ rfl

end WhereClause
