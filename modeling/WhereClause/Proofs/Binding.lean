import WhereClause.Proofs.Reading

/-!
# Which names clash

The parameters of a predicate are the values that its tree binds, from left to right, each
under a name made of its path and of nothing else. No name is kept apart from another one,
so two values can stand under one name; `Binding.Clash` says which.
-/
namespace WhereClause

open Outcome

/-- A value that a comparison binds for a path. -/
structure Binding where
  segments : List String
  value : Json
  /-- The value is bound as a set. -/
  isSet : Bool

namespace Binding

/-- Two bindings for which there is one name: both of sets or neither, with paths that are
the same when put together; or one of a set, with a path that the other one goes on with
`Collection`. -/
def Clash (b b' : Binding) : Prop :=
  match b.isSet, b'.isSet with
  | false, true => String.join b.segments = String.join b'.segments ++ "Collection"
  | true, false => String.join b'.segments = String.join b.segments ++ "Collection"
  | _, _ => String.join b.segments = String.join b'.segments

def parameter (b : Binding) : Parameter where
  name := String.join b.segments ++ if b.isSet then "Collection" else ""
  value := b.value

theorem name_eq_iff {b b' : Binding} : b.parameter.name = b'.parameter.name ↔ b.Clash b' := by
  obtain ⟨segments, value, isSet⟩ := b
  obtain ⟨segments', value', isSet'⟩ := b'
  cases isSet <;> cases isSet' <;>
    simp [parameter, Clash, String.append_left_inj, eq_comm]

/-- A member can be compared with a value and with a set at once. -/
theorem not_clash_of_isSet_ne {b b' : Binding} (hsegments : b.segments = b'.segments)
    (hset : b.isSet ≠ b'.isSet) : ¬ b.Clash b' := by
  have hlonger (s : String) : s ≠ s ++ "Collection" := fun h =>
    absurd (String.append_eq_left_iff.1 h.symm) (by decide)
  obtain ⟨segments, value, isSet⟩ := b
  obtain ⟨segments', value', isSet'⟩ := b'
  cases hsegments
  cases isSet with
  | false =>
    cases isSet' with
    | false => exact (hset rfl).elim
    | true => exact hlonger _
  | true =>
    cases isSet' with
    | false => exact hlonger _
    | true => exact (hset rfl).elim

end Binding

/-- The values that a tree binds, from left to right. -/
def Node.bindings : Node → List Binding
  | .composite _ _ (.member path) (.literal value) =>
    if value.isTested then [] else [⟨path.segments, value.value, value.kind.isCollection⟩]
  | .composite _ _ left right => left.bindings ++ right.bindings
  | _ => []

theorem Node.bindings_join {form : Form} {op : Operation} {left right : Node}
    (hleft : left.isComposite = true) :
    (composite form op left right).bindings = left.bindings ++ right.bindings := by
  cases left with
  | composite form' op' l r => rw [bindings]; simp
  | _ => cases hleft

/-- A clause has a parameter for each value that its tree binds, in their order. -/
theorem Node.Renders.parameters_eq {m : Mapping} {n : Node} {c : Clause} (h : n.Renders m c) :
    c.parameters = n.bindings.map Binding.parameter := by
  induction h with
  | join form htoken hleft hright ihleft ihright =>
    rw [Clause.parameters, bindings_join (Clause.isComposite_of_renders hleft), List.map_append,
      ihleft, ihright]
  | constants form a b htoken => rfl
  | nullTest form htested hleft hop => simp [Clause.parameters, bindings, htested]
  | bound form hbound htoken hleft =>
    simp [Clause.parameters, bindings, hbound, Binding.parameter, parameterName]

/-- Nothing keeps two values from one name but the names themselves: the predicate of an
expression is unambiguous exactly if those of its bindings that clash agree on the value. It
is then, and only then, that every parameter is found under its name. Bindings of one path,
one of them of a set, never clash. -/
theorem compile_unambiguous_iff {m : Mapping} {e : Expr} {p : Predicate}
    (h : (compile m e).result = .ok p) :
    ∃ n, e.toPredicate.result = .ok n ∧ p.parameters = n.bindings.map Binding.parameter ∧
      (p.Unambiguous ↔ ∀ b ∈ n.bindings, ∀ b' ∈ n.bindings, b.Clash b' → b.value = b'.value) ∧
      (p.Unambiguous ↔ ∀ q ∈ p.parameters, p.parameter? q.name = some q.value) ∧
      ∀ b ∈ n.bindings, ∀ b' ∈ n.bindings, b.segments = b'.segments → b.isSet ≠ b'.isSet →
        ¬ b.Clash b' := by
  obtain ⟨n, c, hn, hrenders, rfl⟩ := result_compile_eq_ok_iff.1 h
  refine ⟨n, hn, hrenders.parameters_eq, ?_, c.predicate.unambiguous_iff,
    fun b _ b' _ => Binding.not_clash_of_isSet_ne⟩
  have hparameters : c.predicate.parameters = n.bindings.map Binding.parameter :=
    hrenders.parameters_eq
  simp only [Predicate.Unambiguous, hparameters, List.forall_mem_map, Binding.name_eq_iff]
  exact Iff.rfl

/-- Rows whose key lies in a range. -/
def keyRange (low high : Int) : Expr :=
  .and (.ge (.field "Id") (.ofValue (.int low))) (.lt (.field "Id") (.ofValue (.int high)))

/-- Both bounds of a range stand under one name, and only the lower one is found there. -/
theorem keyRange_ambiguous : ∃ p, (compile (.ofModel "m" ["Id"]) (keyRange 3 9)).result = .ok p ∧
    p.text = "((m.id >= @Id) AND (m.id < @Id))" ∧
    p.parameters = [⟨"Id", .int 3⟩, ⟨"Id", .int 9⟩] ∧ p.parameter? "Id" = some (.int 3) ∧
    ¬ p.Unambiguous := by
  refine ⟨_, rfl, rfl, rfl, rfl, fun unambiguous => ?_⟩
  have same := unambiguous ⟨"Id", .int 3⟩ (.head _) ⟨"Id", .int 9⟩ (.tail _ (.head _)) rfl
  cases same

/-- A key in a range of one, and in a set: of the three bindings only the two that agree
clash. -/
theorem keyRange_unambiguous : ∃ p,
    (compile (.ofModel "m" ["Id"]) (.and (keyRange 3 3)
      (.inCollection (.ofValue (.array [.int 3])) (.field "Id")))).result = .ok p ∧
    p.parameterNames = ["Id", "Id", "IdCollection"] ∧ p.Unambiguous := by
  have compiled : ∃ p, (compile (.ofModel "m" ["Id"]) (.and (keyRange 3 3)
      (.inCollection (.ofValue (.array [.int 3])) (.field "Id")))).result = .ok p ∧
      p.parameterNames = ["Id", "Id", "IdCollection"] := ⟨_, rfl, rfl⟩
  obtain ⟨p, hp, names⟩ := compiled
  obtain ⟨n, hn, -, unambiguous_iff, -, apart⟩ := compile_unambiguous_iff hp
  have bound : n.bindings = [⟨["Id"], .int 3, false⟩, ⟨["Id"], .int 3, false⟩,
      ⟨["Id"], .array [.int 3], true⟩] := by
    cases hn
    rfl
  have two : ∀ b ∈ n.bindings, b = ⟨["Id"], .int 3, false⟩ ∨ b = ⟨["Id"], .array [.int 3], true⟩ := by
    simp [bound]
  refine ⟨p, hp, names, unambiguous_iff.2 fun b hb b' hb' clash => ?_⟩
  have never := apart b hb b' hb'
  rcases two b hb with rfl | rfl <;> rcases two b' hb' with rfl | rfl
  · rfl
  · exact (never rfl (by decide) clash).elim
  · exact (never rfl (by decide) clash).elim
  · rfl

end WhereClause
