import Mathlib.Data.List.Forall2
import WhereClause.Proofs.Expressible
import WhereClause.Proofs.Rendering

/-!
# Constants stay out of the text

Two expressions with the same structure whose constants are only similar: null where the
other is null, an empty array where the other is, objects with similar fields, and
otherwise any two scalars. Nothing but that much of a constant can be seen in the text.
The one exception is the comparison of two constants, which are written where they stand;
such pairs have to be equal.
-/
namespace WhereClause

open Outcome

namespace Json

/-- A value without parts that is not null. -/
def isScalar : Json → Bool
  | .bool _ | .int _ | .float _ | .text _ => true
  | .null | .array _ | .object _ => false

theorem isNull_of_isScalar {v : Json} (h : v.isScalar = true) : v.isNull = false := by
  cases v <;> first | rfl | cases h

theorem isEmptySet_of_isScalar {v : Json} (h : v.isScalar = true) :
    Expansion.isEmptySet v = false := by
  cases v <;> first | rfl | cases h

theorem isCollection_of_isScalar {v : Json} (h : v.isScalar = true) :
    (Kind.of v).isCollection = false := by
  cases v <;> first | rfl | cases h

/-- Values that look the same in a text. -/
inductive Similar : Json → Json → Prop
  | null : Similar .null .null
  | array {xs ys : List Json} (h : xs = [] ↔ ys = []) : Similar (.array xs) (.array ys)
  | object {fs gs : List (String × Json)} (h : ∀ name, Similar (field fs name) (field gs name)) :
      Similar (.object fs) (.object gs)
  | scalar {v w : Json} (hv : v.isScalar = true) (hw : w.isScalar = true) : Similar v w

namespace Similar

variable {v w : Json}

theorem symm (h : Similar v w) : Similar w v := by
  induction h with
  | null => exact .null
  | array h => exact .array h.symm
  | object h ih => exact .object ih
  | scalar hv hw => exact .scalar hw hv

theorem isNull_eq (h : Similar v w) : v.isNull = w.isNull := by
  cases h with
  | null => rfl
  | array h => rfl
  | object h => rfl
  | scalar hv hw => rw [isNull_of_isScalar hv, isNull_of_isScalar hw]

theorem isEmptySet_eq (h : Similar v w) : Expansion.isEmptySet v = Expansion.isEmptySet w := by
  cases h with
  | null => rfl
  | @array xs ys h =>
    cases xs <;> cases ys <;> simp [Expansion.isEmptySet] at h ⊢
  | object h => rfl
  | scalar hv hw => rw [isEmptySet_of_isScalar hv, isEmptySet_of_isScalar hw]

theorem isCollection_eq (h : Similar v w) (k : Kind) :
    (k.orOf v).isCollection = (k.orOf w).isCollection := by
  cases k with
  | any =>
    cases h with
    | null => rfl
    | array h => rfl
    | object h => rfl
    | scalar hv hw =>
      show (Kind.of v).isCollection = (Kind.of w).isCollection
      rw [isCollection_of_isScalar hv, isCollection_of_isScalar hw]
  | _ => rfl

theorem of_object {fs : List (String × Json)} (h : Similar (.object fs) w) :
    ∃ gs, w = .object gs ∧ ∀ name, Similar (field fs name) (field gs name) := by
  cases h with
  | object h => exact ⟨_, rfl, h⟩
  | scalar hv hw => cases hv

end Similar
end Json

/-- Literals that are bound alike: under the same name, both or neither of them null. -/
structure Literal.Similar (l l' : Literal) : Prop where
  kind : l.kind.isCollection = l'.kind.isCollection
  value : l.value.Similar l'.value
  forced : l.forced = l'.forced

namespace Literal.Similar

variable {l l' : Literal}

theorem symm (h : Similar l l') : Similar l' l := ⟨h.kind.symm, h.value.symm, h.forced.symm⟩

theorem isNull_eq (h : Similar l l') : l.isNull = l'.isNull := h.value.isNull_eq

theorem force (h : Similar l l') : Similar l.force l'.force := ⟨h.kind, h.value, rfl⟩

theorem parameterName_eq (h : Similar l l') (segments : List String) :
    parameterName segments l.kind = parameterName segments l'.kind := by
  rw [parameterName, parameterName, h.kind]

theorem isSet_iff (h : Similar l l') :
    l.isNull = true ∨ l.kind.isCollection = true
      ↔ l'.isNull = true ∨ l'.kind.isCollection = true := by
  rw [h.isNull_eq, h.kind]

end Literal.Similar

namespace Node

/-- Trees that differ in bound literals only, and there are similar. -/
inductive Similar : Node → Node → Prop
  | literal {l l' : Literal} (h : l.Similar l') : Similar (.literal l) (.literal l')
  | member (path : MemberPath) : Similar (.member path) (.member path)
  | join (form : Form) (op : Operation) {left right left' right' : Node}
      (hleft : left.Similar left') (hright : right.Similar right')
      (compositeLeft : left.isComposite = true) (compositeRight : right.isComposite = true) :
      Similar (.composite form op left right) (.composite form op left' right')
  | comparison (form : Form) (op : Operation) (path : MemberPath) {l l' : Literal}
      (h : l.Similar l') :
      Similar (.composite form op (.member path) (.literal l))
        (.composite form op (.member path) (.literal l'))
  | constants (form : Form) (op : Operation) (a b : Literal) :
      Similar (.composite form op (.literal a) (.literal b))
        (.composite form op (.literal a) (.literal b))

namespace Similar

variable {n n' : Node}

theorem isComposite_eq (h : Similar n n') : n.isComposite = n'.isComposite := by
  cases h <;> rfl

theorem symm (h : Similar n n') : Similar n' n := by
  induction h with
  | literal h => exact .literal h.symm
  | member path => exact .member path
  | join form op hleft hright compositeLeft compositeRight ihleft ihright =>
    exact .join form op ihleft ihright (hleft.isComposite_eq ▸ compositeLeft)
      (hright.isComposite_eq ▸ compositeRight)
  | comparison form op path h => exact .comparison form op path h.symm
  | constants form op a b => exact .constants form op a b

end Similar

/-- Literals on both sides of an operator are the same ones on both sides of the other. -/
def SamePair (left right left' right' : Node) : Prop :=
  ∀ a b, left = .literal a → right = .literal b → left' = .literal a ∧ right' = .literal b

theorem SamePair.symm {left right left' right' : Node} (h : SamePair left right left' right')
    (hleft : left.Similar left') (hright : right.Similar right') :
    SamePair left' right' left right := by
  rintro a b rfl rfl
  cases hleft with
  | literal _ =>
    cases hright with
    | literal _ =>
      obtain ⟨sameLeft, sameRight⟩ := h _ _ rfl rfl
      exact ⟨sameLeft.symm, sameRight.symm⟩

theorem HasMember.similar {receiver receiver' n : Node} {name : String} {kind : Kind}
    (h : HasMember name kind receiver n) (hreceiver : receiver.Similar receiver') :
    ∃ n', HasMember name kind receiver' n' ∧ n.Similar n' := by
  cases h with
  | path parent =>
    cases hreceiver
    exact ⟨_, .path parent, .member _⟩
  | field hcaptured =>
    cases hreceiver with
    | literal h =>
      obtain ⟨gs, hcaptured', fields⟩ := (hcaptured ▸ h.value).of_object
      exact ⟨_, .field hcaptured', .literal ⟨(fields name).isCollection_eq kind, fields name, rfl⟩⟩

theorem Combines.similar {op : Operation} {left right left' right' n : Node}
    (h : Combines op left right n) (hleft : left.Similar left') (hright : right.Similar right')
    (pair : SamePair left right left' right') : ∃ n', Combines op left' right' n' ∧ n.Similar n' := by
  cases h with
  | join compositeLeft compositeRight =>
    exact ⟨_, .join (hleft.isComposite_eq ▸ compositeLeft) (hright.isComposite_eq ▸ compositeRight),
      .join _ op hleft hright compositeLeft compositeRight⟩
  | comparison path value hop =>
    cases hleft
    cases hright with
    | literal hvalue => exact ⟨_, .comparison path _ hop, .comparison _ _ path hvalue⟩
  | constants a b hop =>
    obtain ⟨rfl, rfl⟩ := pair a b rfl rfl
    exact ⟨_, .constants a b hop, .constants _ _ a b⟩
  | converse value path hop =>
    cases hright
    cases hleft with
    | literal hvalue => exact ⟨_, .converse _ path hop, .comparison _ _ path hvalue⟩

theorem similar_orUnbound (op : Operation) (path : MemberPath) {l l' : Literal}
    (h : l.Similar l') :
    (Expansion.orUnbound op path l).Similar (Expansion.orUnbound op path l') :=
  .join _ _ (.comparison _ _ _ h.force)
    (.comparison _ _ _ ⟨h.kind, .null, rfl⟩) rfl rfl

theorem Expands.similar {method : Method} {first second first' second' n : Node}
    (h : Expands method first second n) (hfirst : first.Similar first')
    (hsecond : second.Similar second') : ∃ n', Expands method first' second' n' ∧ n.Similar n' := by
  cases h with
  | matched pattern path value hmethod =>
    cases hfirst
    cases hsecond with
    | literal hvalue => exact ⟨_, .matched pattern path _ hmethod, .comparison _ _ _ hvalue⟩
  | membership set path hset =>
    cases hsecond
    cases hfirst with
    | literal hvalue =>
      exact ⟨_, .membership _ path (hvalue.isSet_iff.1 hset), .comparison _ _ _ hvalue⟩
  | equalsOrNull path value =>
    cases hfirst
    cases hsecond with
    | literal hvalue => exact ⟨_, .equalsOrNull path _, similar_orUnbound _ _ hvalue⟩
  | likeOrNull path value =>
    cases hfirst
    cases hsecond with
    | literal hvalue => exact ⟨_, .likeOrNull path _, similar_orUnbound _ _ hvalue⟩
  | textOrNull path value =>
    cases hfirst
    cases hsecond with
    | literal hvalue => exact ⟨_, .textOrNull path _, similar_orUnbound _ _ hvalue⟩
  | setOrNull set path hset inhabited =>
    cases hsecond
    cases hfirst with
    | literal hvalue =>
      exact ⟨_, .setOrNull _ path (hvalue.isSet_iff.1 hset)
        (hvalue.value.isEmptySet_eq ▸ inhabited), similar_orUnbound _ _ hvalue⟩
  | emptySet set path hset empty =>
    cases hsecond
    cases hfirst with
    | literal hvalue =>
      exact ⟨_, .emptySet _ path (hvalue.isSet_iff.1 hset)
        (hvalue.value.isEmptySet_eq ▸ empty), .constants _ _ _ _⟩

theorem alike_combine {op : Operation} {left right left' right' : Node}
    (hleft : left.Similar left') (hright : right.Similar right')
    (pair : SamePair left right left' right') :
    Alike Similar (combine op left right) (combine op left' right') := by
  refine .of_iff (fails_combine (fun _ => rfl) _ _ _) (fails_combine (fun _ => rfl) _ _ _)
    combine_eq_ok_iff combine_eq_ok_iff ?_ ?_
  · exact fun n h => h.similar hleft hright pair
  · exact fun n' h' => h'.similar hleft.symm hright.symm (pair.symm hleft hright)

theorem alike_memberOf {receiver receiver' : Node} (h : receiver.Similar receiver')
    (name : String) (kind : Kind) :
    Alike Similar (receiver.memberOf name kind) (receiver'.memberOf name kind) := by
  refine .of_iff (fails_memberOf (fun _ => rfl) _ _ _) (fails_memberOf (fun _ => rfl) _ _ _)
    memberOf_eq_ok_iff memberOf_eq_ok_iff ?_ ?_
  · exact fun n hn => hn.similar h
  · exact fun n' hn' => hn'.similar h.symm

theorem alike_expandCall {method : Method} {receiver arg receiver' arg' : Node}
    (hreceiver : receiver.Similar receiver') (harg : arg.Similar arg') :
    Alike Similar (expandCall method receiver arg) (expandCall method receiver' arg') := by
  refine .of_iff (fails_expandCall (fun _ => rfl) _ _ _) (fails_expandCall (fun _ => rfl) _ _ _)
    expandCall_eq_ok_iff expandCall_eq_ok_iff ?_ ?_
  · exact fun n h => h.similar hreceiver harg
  · exact fun n' h' => h'.similar hreceiver.symm harg.symm

theorem Similar.isLiteral_iff {n n' : Node} (h : n.Similar n') :
    (∃ l, n = .literal l) ↔ ∃ l, n' = .literal l := by
  cases h <;> simp

theorem alike_expandPair {method : Method} {first second first' second' : Node}
    (hfirst : first.Similar first') (hsecond : second.Similar second') :
    Alike Similar (expandPair method first second) (expandPair method first' second') := by
  by_cases hmethod : method = .startsWith ∨ method = .endsWith
  · rcases hmethod with rfl | rfl <;> exact rfl
  · obtain ⟨notStart, notEnd⟩ := not_or.1 hmethod
    refine .of_iff (fails_expandPair (fun _ => rfl) _ _ (.inl ⟨notStart, notEnd⟩))
      (fails_expandPair (fun _ => rfl) _ _ (.inl ⟨notStart, notEnd⟩))
      expandPair_eq_ok_iff expandPair_eq_ok_iff ?_ ?_
    · rintro n ⟨h, hpattern⟩
      obtain ⟨n', h', similar⟩ := h.similar hfirst hsecond
      exact ⟨n', ⟨h', hpattern.imp_right hfirst.isLiteral_iff.1⟩, similar⟩
    · rintro n' ⟨h', hpattern⟩
      obtain ⟨n, h, similar⟩ := h'.similar hfirst.symm hsecond.symm
      exact ⟨n, ⟨h, hpattern.imp_right hfirst.isLiteral_iff.2⟩, similar⟩

end Node

namespace Expr

open Node

/-- Expressions that differ in constants only, and there are similar. Where an operator
stands between two constants, they are the same constants in both expressions. -/
inductive Similar : Expr → Expr → Prop
  | constant {v w : Json} (kind : Kind) (h : v.Similar w) :
      Similar (.constant v kind) (.constant w kind)
  | subject : Similar .subject .subject
  | lambda {body body' : Expr} (h : body.Similar body') : Similar (.lambda body) (.lambda body')
  | convert {operand operand' : Expr} (h : operand.Similar operand') :
      Similar (.convert operand) (.convert operand')
  | member {receiver receiver' : Expr} (name : String) (kind : Kind)
      (h : receiver.Similar receiver') :
      Similar (.member receiver name kind) (.member receiver' name kind)
  | binary (op : BinaryOperator) {left right left' right' : Expr} (hleft : left.Similar left')
      (hright : right.Similar right')
      (pair : ∀ a b, left.toNode.result = .ok (.literal a) → right.toNode.result = .ok (.literal b) →
        left'.toNode.result = .ok (.literal a) ∧ right'.toNode.result = .ok (.literal b)) :
      Similar (.binary op left right) (.binary op left' right')
  | call (method : Method) {receiver receiver' : Option Expr} {args args' : List Expr}
      (hreceiver : Option.Rel Similar receiver receiver') (hargs : List.Forall₂ Similar args args') :
      Similar (.call method receiver args) (.call method receiver' args')

theorem Similar.isSubject_eq {e e' : Expr} (h : e.Similar e') : e.isSubject = e'.isSubject := by
  induction e using isSubject.induct generalizing e' with
  | case1 =>
    cases h
    rfl
  | case2 operand ih =>
    cases h with
    | convert h =>
      have same := ih h
      exact same
  | case3 e notSubject notConvert =>
    cases h with
    | subject => exact absurd rfl notSubject
    | convert h => exact absurd rfl (notConvert _)
    | _ => rfl

/-- A call with the wrong number of operands is refused, whatever they are. -/
theorem alike_call_of_arity {method : Method} {receiver receiver' : Option Expr}
    {args args' : List Expr} (hreceiver : Option.Rel Similar receiver receiver')
    (hargs : List.Forall₂ Similar args args')
    (notCall : ∀ r arg, receiver = some r → args = [arg] → False)
    (notPair : ∀ first second, receiver = none → args = [first, second] → False) :
    Alike Node.Similar (Expr.call method receiver args).toNode.result
      (Expr.call method receiver' args').toNode.result := by
  have notCall' : ∀ r arg, receiver' = some r → args' = [arg] → False := by
    rintro r arg rfl rfl
    cases hreceiver with
    | some _ =>
      cases hargs with
      | cons _ rest =>
        cases rest
        exact notCall _ _ rfl rfl
  have notPair' : ∀ first second, receiver' = none → args' = [first, second] → False := by
    rintro first second rfl rfl
    cases hreceiver with
    | none =>
      cases hargs with
      | cons _ rest =>
        cases rest with
        | cons _ rest =>
          cases rest
          exact notPair _ _ rfl rfl
  rw [result_toNode_of_arity notCall notPair, result_toNode_of_arity notCall' notPair']
  exact rfl

theorem alike_toNode {e e' : Expr} (h : e.Similar e') :
    Alike Node.Similar e.toNode.result e'.toNode.result := by
  induction e using toNode.induct generalizing e' with
  | case1 value kind =>
    cases h with
    | constant _ h => exact .literal ⟨h.isCollection_eq kind, h, rfl⟩
  | case2 =>
    cases h
    exact rfl
  | case3 body ih =>
    cases h with
    | lambda h =>
      have alike := ih h
      exact alike
  | case4 operand ih =>
    cases h with
    | convert h =>
      have alike := ih h
      exact alike
  | case5 receiver name kind hsubject =>
    cases h with
    | member _ _ h =>
      rw [toNode, if_pos hsubject, toNode, if_pos (h.isSubject_eq ▸ hsubject)]
      exact .member _
  | case6 receiver name kind hsubject ih =>
    cases h with
    | member _ _ h =>
      rw [toNode, if_neg hsubject, toNode, if_neg (h.isSubject_eq ▸ hsubject), Traced.result_bind,
        Traced.result_bind]
      exact (ih h).bind fun _ _ _ _ similar => alike_memberOf similar name kind
  | case7 operator left right ihleft ihright =>
    cases h with
    | binary _ hleft hright pair =>
      simp only [toNode, Traced.result_bind, Traced.result_ofResult]
      have same : Alike (· = ·) operator.operation operator.operation := .refl (fun _ => rfl) _
      refine same.bind ?_
      rintro op _ - - rfl
      refine (ihleft hleft).bind fun l l' hl hl' similarLeft => ?_
      refine (ihright hright).bind fun r r' hr hr' similarRight => ?_
      refine alike_combine similarLeft similarRight ?_
      rintro a b rfl rfl
      obtain ⟨sameLeft, sameRight⟩ := pair a b hl hr
      rw [hl'] at sameLeft
      rw [hr'] at sameRight
      exact ⟨Except.ok.inj sameLeft, Except.ok.inj sameRight⟩
  | case8 method receiver arg ihreceiver iharg =>
    cases h with
    | call _ hreceiver hargs =>
      cases hreceiver with
      | some hreceiver =>
        cases hargs with
        | cons harg rest =>
          cases rest
          simp only [toNode, Traced.result_bind, Traced.result_ofResult]
          refine (ihreceiver hreceiver).bind fun _ _ _ _ similarReceiver => ?_
          refine (iharg harg).bind fun _ _ _ _ similarArg => ?_
          exact (alike_expandCall similarReceiver similarArg).bind fun _ _ _ _ similar => similar
  | case9 method first second ihfirst ihsecond =>
    cases h with
    | call _ hreceiver hargs =>
      cases hreceiver with
      | none =>
        cases hargs with
        | cons hfirst rest =>
          cases rest with
          | cons hsecond rest =>
            cases rest
            simp only [toNode, Traced.result_bind, Traced.result_ofResult]
            refine (ihfirst hfirst).bind fun _ _ _ _ similarFirst => ?_
            refine (ihsecond hsecond).bind fun _ _ _ _ similarSecond => ?_
            exact (alike_expandPair similarFirst similarSecond).bind fun _ _ _ _ similar => similar
  | case10 method receiver args notCall notPair =>
    cases h with
    | call _ hreceiver hargs => exact alike_call_of_arity hreceiver hargs notCall notPair

theorem alike_toPredicate {e e' : Expr} (h : e.Similar e') :
    Alike Node.Similar e.toPredicate.result e'.toPredicate.result := by
  simp only [toPredicate, Traced.result_bind, Traced.result_ofResult]
  refine (alike_toNode h).bind fun n n' _ _ similar => ?_
  unfold requireComposite
  rw [similar.isComposite_eq]
  split
  · exact similar
  · exact rfl

end Expr

namespace Clause

/-- Clauses with one text and with parameters of the same names. -/
structure Similar (c c' : Clause) : Prop where
  text : c.text = c'.text
  names : c.parameters.map (·.name) = c'.parameters.map (·.name)

theorem alike_ofComparison (m : Mapping) (op : Operation) (path : MemberPath) {l l' : Literal}
    (h : l.Similar l') :
    Alike Similar (ofComparison m op path l).result (ofComparison m op path l').result := by
  simp only [ofComparison, Traced.result_bind, Traced.result_ofResult, h.parameterName_eq,
    h.isNull_eq, h.forced]
  have sameToken : Alike (· = ·) op.token op.token := .refl (fun _ => rfl) _
  refine sameToken.bind ?_
  rintro token _ - - rfl
  have sameLeft : ∀ name, Alike (· = ·) (operand m path name).result (operand m path name).result :=
    fun name => .refl (fun _ => rfl) _
  refine (sameLeft _).bind ?_
  rintro left _ - - rfl
  split
  · simp only [Traced.result_bind, Traced.result_ofResult]
    exact .refl (fun c => ⟨rfl, rfl⟩) _
  · exact ⟨rfl, rfl⟩

theorem alike_ofNode (m : Mapping) {n n' : Node} (h : n.Similar n') :
    Alike Similar (ofNode m n).result (ofNode m n').result := by
  induction h with
  | literal h => exact rfl
  | member path => exact rfl
  | join form op hleft hright compositeLeft compositeRight ihleft ihright =>
    rw [result_ofNode_join compositeLeft compositeRight,
      result_ofNode_join (hleft.isComposite_eq ▸ compositeLeft)
        (hright.isComposite_eq ▸ compositeRight)]
    have sameToken : Alike (· = ·) op.token op.token := .refl (fun _ => rfl) _
    refine sameToken.bind ?_
    rintro token _ - - rfl
    refine ihleft.bind fun a a' _ _ similarLeft => ?_
    refine ihright.bind fun b b' _ _ similarRight => ?_
    refine ⟨?_, ?_⟩
    · simp only [text, similarLeft.text, similarRight.text]
    · simp only [parameters, List.map_append, similarLeft.names, similarRight.names]
  | comparison form op path h => exact alike_ofComparison m op path h
  | constants form op a b => exact .refl (fun c => ⟨rfl, rfl⟩) _

end Clause

/-- Similar expressions cannot be told apart by what they compile to: both are refused
with one code, or both have the same text and the same names of parameters. -/
theorem compile_text_of_similar (m : Mapping) {e e' : Expr} (h : e.Similar e') :
    (∃ p p', (compile m e).result = .ok p ∧ (compile m e').result = .ok p' ∧
      p.text = p'.text ∧ p.parameterNames = p'.parameterNames) ∨
    ∃ error error', (compile m e).result = .error error ∧
      (compile m e').result = .error error' ∧ error.code = error'.code := by
  have compiled : Alike (fun p p' : Predicate => p.text = p'.text ∧ p.parameterNames = p'.parameterNames)
      (compile m e).result (compile m e').result := by
    rw [result_compile_eq_bind, result_compile_eq_bind]
    refine (Expr.alike_toPredicate h).bind fun n n' _ _ similar => ?_
    exact (Clause.alike_ofNode m similar).bind fun c c' _ _ same => ⟨same.text, same.names⟩
  cases hp : (compile m e).result with
  | error error =>
    cases hp' : (compile m e').result with
    | error error' =>
      rw [hp, hp'] at compiled
      exact .inr ⟨error, error', rfl, rfl, compiled⟩
    | ok p' =>
      rw [hp, hp'] at compiled
      exact compiled.elim
  | ok p =>
    cases hp' : (compile m e').result with
    | error error' =>
      rw [hp, hp'] at compiled
      exact compiled.elim
    | ok p' =>
      rw [hp, hp'] at compiled
      exact .inl ⟨p, p', rfl, rfl, compiled⟩

/-- Rows with a name that a captured record holds, and with one of some keys. -/
def searchByName (name : Json) (keys : List Json) : Expr :=
  .and (.equals (.field "Name") (.get (.ofValue (.object [("Name", name)])) "Name"))
    (.containsOrNull (.ofValue (.array keys)) (.field "Id"))

theorem searchByName_text_of_similar :
    (searchByName (.text "a') OR ('1' = '1") [.int 1]).Similar
      (searchByName (.bool true) [.null, .null]) ∧
    ∃ p p',
      (compile (.ofModel "m" ["Id", "Name"])
        (searchByName (.text "a') OR ('1' = '1") [.int 1])).result = .ok p ∧
      (compile (.ofModel "m" ["Id", "Name"])
        (searchByName (.bool true) [.null, .null])).result = .ok p' ∧
      p.text = p'.text ∧ p.parameterNames = p'.parameterNames := by
  have subject (name : String) : (Expr.member .subject name .any).Similar (.member .subject name .any) :=
    .member name .any .subject
  have record : (Json.object [("Name", .text "a') OR ('1' = '1")]).Similar
      (.object [("Name", .bool true)]) := by
    refine .object fun name => ?_
    simp only [Json.field, Keyed.find?]
    split
    · exact .scalar rfl rfl
    · exact .null
  have similar : (searchByName (.text "a') OR ('1' = '1") [.int 1]).Similar
      (searchByName (.bool true) [.null, .null]) := by
    refine .binary .andAlso (.binary .equal (subject "Name") ?_ ?_) (.call .containsOrNull .none ?_) ?_
    · exact .member "Name" .any (.constant .any record)
    · intro a b h
      cases h
    · exact .cons (.constant .any (.array (by simp))) (.cons (subject "Id") .nil)
    · intro a b h
      cases h
  refine ⟨similar, ?_⟩
  rcases compile_text_of_similar (.ofModel "m" ["Id", "Name"]) similar with same | ⟨error, _, failed, -⟩
  · exact same
  · cases failed

end WhereClause
