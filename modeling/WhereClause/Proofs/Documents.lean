import WhereClause.Expr.Document
import WhereClause.Proofs.ReadBack

/-!
# Documents of expressions

An expression is read back from its document (`Expr.ofDocument?_document`): the text is
read as the tree that was written, and each object of the tree says its shape and has the
entries of that shape.
-/
namespace WhereClause

namespace Expr

open Json (Written greatestNesting)

/-- All constants in the expression have the property. -/
inductive Constants (P : Json → Prop) : Expr → Prop
  | constant {value : Json} (kind : Kind) (h : P value) : Constants P (.constant value kind)
  | subject : Constants P .subject
  | lambda {body : Expr} (h : body.Constants P) : Constants P (.lambda body)
  | convert {operand : Expr} (h : operand.Constants P) : Constants P (.convert operand)
  | member {receiver : Expr} (name : String) (kind : Kind) (h : receiver.Constants P) :
      Constants P (.member receiver name kind)
  | binary (op : BinaryOperator) {left right : Expr} (hleft : left.Constants P)
      (hright : right.Constants P) : Constants P (.binary op left right)
  | call (method : Method) {receiver : Option Expr} {args : List Expr}
      (hreceiver : ∀ r, receiver = some r → r.Constants P)
      (hargs : ∀ arg ∈ args, arg.Constants P) : Constants P (.call method receiver args)

theorem kind?_name (kind : Kind) : kind? (some (.text kind.name)) = some kind :=
  Kind.ofName?_name kind

theorem operator?_name (op : BinaryOperator) : operator? (.text op.name) = some op :=
  BinaryOperator.ofName?_name op

theorem method?_name (method : Method) : method? (.text method.name) = some method :=
  Method.ofName?_name method

/-- The document of an expression is an object. -/
theorem exists_toJson_object (e : Expr) : ∃ fields, e.toJson = .object fields := by
  match e with
  | .constant _ _ | .subject | .lambda _ | .convert _ | .member _ _ _ | .binary _ _ _ =>
    exact ⟨_, rfl⟩
  | .call _ none _ | .call _ (some _) _ => exact ⟨_, rfl⟩

mutual

/-- An expression is read back from the tree of its document, at any depth that is not less
than the nesting of the document. -/
theorem ofWrittenWithin?_toJson : ∀ {e : Expr} {depth : Nat} (nested : Bool),
    e.Constants Json.Sorted → e.toJson.nesting ≤ depth → depth ≤ greatestNesting + 1 →
    ofWrittenWithin? depth nested e.toJson.toWritten = some e
  | e, 0, nested, he, h, limit => by
    obtain ⟨fields, object⟩ := exists_toJson_object e
    rw [object, Json.nesting] at h
    omega
  | .constant value kind, depth + 1, nested, he, h, limit => by
    cases he with
    | constant _ hvalue =>
      have tag : tagged? nested (toJson (.constant value kind)).toWritten
          = some (.constant, [some value.toWritten, some (.text kind.name)]) := rfl
      simp only [toJson, Json.nesting, Json.nestingOfFields] at h
      have read := Json.value?_toWritten (n := greatestNesting) hvalue (by omega)
      rw [ofWrittenWithin?, tag]
      simp [read, kind?_name]
  | .subject, depth + 1, nested, he, h, limit => by
    have tag : tagged? nested (toJson .subject).toWritten = some (.subject, []) := rfl
    rw [ofWrittenWithin?, tag]
    rfl
  | .lambda body, depth + 1, nested, he, h, limit => by
    cases he with
    | lambda hbody =>
      have tag : tagged? nested (toJson (.lambda body)).toWritten
          = some (.lambda, [some body.toJson.toWritten]) := rfl
      simp only [toJson, Json.nesting, Json.nestingOfFields] at h
      have read := ofWrittenWithin?_toJson true hbody (by omega) (Nat.le_of_succ_le limit)
      rw [ofWrittenWithin?, tag]
      simp [read]
  | .convert operand, depth + 1, nested, he, h, limit => by
    cases he with
    | convert hoperand =>
      have tag : tagged? nested (toJson (.convert operand)).toWritten
          = some (.convert, [some operand.toJson.toWritten]) := rfl
      simp only [toJson, Json.nesting, Json.nestingOfFields] at h
      have read := ofWrittenWithin?_toJson true hoperand (by omega) (Nat.le_of_succ_le limit)
      rw [ofWrittenWithin?, tag]
      simp [read]
  | .member receiver name kind, depth + 1, nested, he, h, limit => by
    cases he with
    | member _ _ hreceiver =>
      have tag : tagged? nested (toJson (.member receiver name kind)).toWritten
          = some (.member, [some receiver.toJson.toWritten, some (.text name),
              some (.text kind.name)]) := rfl
      simp only [toJson, Json.nesting, Json.nestingOfFields] at h
      have read := ofWrittenWithin?_toJson true hreceiver (by omega) (Nat.le_of_succ_le limit)
      rw [ofWrittenWithin?, tag]
      simp [read, kind?_name, Written.text?]
  | .binary op left right, depth + 1, nested, he, h, limit => by
    cases he with
    | binary _ hleft hright =>
      have tag : tagged? nested (toJson (.binary op left right)).toWritten
          = some (.binary, [some (.text op.name), some left.toJson.toWritten,
              some right.toJson.toWritten]) := rfl
      simp only [toJson, Json.nesting, Json.nestingOfFields] at h
      have readLeft := ofWrittenWithin?_toJson true hleft (by omega) (Nat.le_of_succ_le limit)
      have readRight := ofWrittenWithin?_toJson true hright (by omega) (Nat.le_of_succ_le limit)
      rw [ofWrittenWithin?, tag]
      simp [readLeft, readRight, operator?_name]
  | .call method none args, depth + 1, nested, he, h, limit => by
    cases he with
    | call _ hreceiver hargs =>
      have tag : tagged? nested (toJson (.call method none args)).toWritten
          = some (.call, [some (.text method.name), none,
              some (.array (Json.toWrittenItems (toJsonList args)))]) := rfl
      simp only [toJson, Json.nesting, Json.nestingOfFields] at h
      have readArgs := mapM_toJsonList hargs (by omega) (Nat.le_of_succ_le limit)
      rw [ofWrittenWithin?, tag]
      simp [readArgs, method?_name, Written.list?]
  | .call method (some receiver) args, depth + 1, nested, he, h, limit => by
    cases he with
    | call _ hreceiver hargs =>
      have tag : tagged? nested (toJson (.call method (some receiver) args)).toWritten
          = some (.call, [some (.text method.name), some receiver.toJson.toWritten,
              some (.array (Json.toWrittenItems (toJsonList args)))]) := rfl
      simp only [toJson, Json.nesting, Json.nestingOfFields] at h
      have read := ofWrittenWithin?_toJson true (hreceiver receiver rfl) (by omega)
        (Nat.le_of_succ_le limit)
      have readArgs := mapM_toJsonList hargs (by omega) (Nat.le_of_succ_le limit)
      -- A receiver that is there is no null.
      obtain ⟨fields, object⟩ := exists_toJson_object receiver
      rw [object, Json.toWritten] at tag read
      rw [ofWrittenWithin?, tag]
      simp [read, readArgs, method?_name, Written.list?]

theorem mapM_toJsonList : ∀ {es : List Expr} {depth : Nat},
    (∀ e ∈ es, e.Constants Json.Sorted) → Json.nestingOfItems (toJsonList es) ≤ depth →
    depth ≤ greatestNesting + 1 →
    (Json.toWrittenItems (toJsonList es)).mapM (ofWrittenWithin? depth true) = some es
  | [], depth, hes, h, limit => rfl
  | e :: es, depth, hes, h, limit => by
    simp only [toJsonList, Json.nestingOfItems] at h
    have read := ofWrittenWithin?_toJson true (hes e List.mem_cons_self) (by omega) limit
    have readRest := mapM_toJsonList (fun other hother => hes other (List.mem_cons_of_mem e hother))
      (by omega) limit
    rw [toJsonList, Json.toWrittenItems, List.mapM_cons, read, readRest]
    rfl

end

open Json (Integral)

mutual

/-- The numbers in the document of an expression are those in its constants. -/
theorem integral_toJson : ∀ {e : Expr}, e.Constants Integral → e.toJson.Integral
  | .constant value kind, he => by
    cases he with
    | constant _ hvalue => exact .cons (.text _) (.cons hvalue (.cons (.text _) .empty))
  | .subject, _ => .cons (.text _) .empty
  | .lambda body, he => by
    cases he with
    | lambda hbody => exact .cons (.text _) (.cons (integral_toJson hbody) .empty)
  | .convert operand, he => by
    cases he with
    | convert hoperand => exact .cons (.text _) (.cons (integral_toJson hoperand) .empty)
  | .member receiver name kind, he => by
    cases he with
    | member _ _ hreceiver =>
      have inner := integral_toJson hreceiver
      exact .cons (.text _) (.cons inner (.cons (.text _) (.cons (.text _) .empty)))
  | .binary op left right, he => by
    cases he with
    | binary _ hleft hright =>
      have first := integral_toJson hleft
      have second := integral_toJson hright
      exact .cons (.text _) (.cons (.text _) (.cons first (.cons second .empty)))
  | .call method none args, he => by
    cases he with
    | call _ _ hargs =>
      have items := integral_toJsonList hargs
      exact .cons (.text _) (.cons (.text _) (.cons (.array items) .empty))
  | .call method (some receiver) args, he => by
    cases he with
    | call _ hreceiver hargs =>
      have inner := integral_toJson (hreceiver receiver rfl)
      have items := integral_toJsonList hargs
      exact .cons (.text _) (.cons (.text _) (.cons inner (.cons (.array items) .empty)))

theorem integral_toJsonList : ∀ {es : List Expr}, (∀ e ∈ es, e.Constants Integral) →
    ∀ item ∈ toJsonList es, item.Integral
  | [], _ => fun _ h => by cases h
  | e :: es, hes => by
    intro item hitem
    rcases List.mem_cons.1 hitem with rfl | hitem
    · exact integral_toJson (hes e List.mem_cons_self)
    · exact integral_toJsonList (fun other hother => hes other (List.mem_cons_of_mem e hother))
        item hitem

end

theorem Constants.mono {P Q : Json → Prop} (hPQ : ∀ v, P v → Q v) {e : Expr}
    (h : e.Constants P) : e.Constants Q := by
  induction h with
  | constant kind h => exact .constant kind (hPQ _ h)
  | subject => exact .subject
  | lambda _ ih => exact .lambda ih
  | convert _ ih => exact .convert ih
  | member name kind _ ih => exact .member name kind ih
  | binary op _ _ ihleft ihright => exact .binary op ihleft ihright
  | call method _ _ ihreceiver ihargs => exact .call method ihreceiver ihargs

/-- An expression is read back from its document, if its constants have no doubles, the
fields in them ascend, and the document does not nest too deep. -/
theorem ofDocument?_document {e : Expr} (he : e.Constants fun v => v.Integral ∧ v.Sorted)
    (h : e.toJson.nesting ≤ greatestNesting) : ofDocument? e.document = some e := by
  have integral := integral_toJson (he.mono fun _ hv => hv.1)
  have sorted := he.mono fun _ hv => hv.2
  obtain ⟨v, hv⟩ := Json.exists_value?_toWritten h
  have hasValue : e.toJson.toWritten.hasValue = true := by
    rw [Written.hasValue, hv]
    rfl
  rw [ofDocument?, document, Json.read?_render integral, Option.bind_some, ofWritten?,
    if_pos hasValue]
  exact ofWrittenWithin?_toJson false sorted (Nat.le_succ_of_le h) (Nat.le_refl _)

/-- A captured object, with the least integer and with characters that are escaped. -/
def captured : Json :=
  .object [("a", .int (-9223372036854775808)), ("b\n", .array [.null, .text "\x00/\u2028"])]

/-- An expression of many shapes, among them calls without a receiver or arguments. -/
def assorted : Expr :=
  .binary .coalesce
    (.lambda (.convert (.call .likeOrNull (some (.member .subject "N\u00e4me \"\\" .text)) [])))
    (.call .contains none [.constant captured .record])

theorem captured_integral : captured.Integral := by
  have items : ∀ item ∈ [Json.null, .text "\x00/\u2028"], item.Integral := by
    simp only [List.mem_cons, List.not_mem_nil, or_false]
    rintro _ (rfl | rfl)
    · exact .null
    · exact .text _
  exact .cons (.int (by decide)) (.cons (.array items) .empty)

theorem captured_sorted : captured.Sorted := by
  have items : ∀ item ∈ [Json.null, .text "\x00/\u2028"], item.Sorted := by
    simp only [List.mem_cons, List.not_mem_nil, or_false]
    rintro _ (rfl | rfl)
    · exact .null
    · exact .text _
  refine .object ⟨?_, ?_, trivial⟩ ?_
  · decide
  · intro p hp
    cases hp
  · simp only [List.mem_cons, List.not_mem_nil, or_false]
    rintro _ (rfl | rfl)
    · exact .int _
    · exact .array items

theorem ofDocument?_document_assorted :
    (assorted.Constants fun v => v.Integral ∧ v.Sorted) ∧
    assorted.toJson.nesting ≤ greatestNesting ∧
    ofDocument? assorted.document = some assorted := by
  have constants : assorted.Constants fun v => v.Integral ∧ v.Sorted := by
    refine .binary _ (.lambda (.convert (.call _ ?_ (fun _ h => by cases h)))) (.call _ ?_ ?_)
    · rintro _ ⟨⟩
      exact .member _ _ .subject
    · rintro _ ⟨⟩
    · intro arg harg
      obtain rfl := List.mem_singleton.1 harg
      exact .constant _ ⟨captured_integral, captured_sorted⟩
  have nesting : assorted.toJson.nesting ≤ greatestNesting := by decide
  exact ⟨constants, nesting, ofDocument?_document constants nesting⟩

end Expr
end WhereClause
