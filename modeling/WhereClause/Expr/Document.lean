import WhereClause.Expr.Basic
import WhereClause.Json.Reader
import WhereClause.Json.Printer
import WhereClause.Json.Record

/-!
# Expression documents

The JSON form of an expression: an object whose `shape` says which form it is, with
the entries of that form, or an array of the shape and the entries in their order.
All of a document must have a value, also what is ignored. Written back, the shape
comes first and the entries follow in their order; a receiver that is absent is
left out.
-/
namespace WhereClause

/-- The forms of an expression. -/
inductive Shape where
  | constant
  | subject
  | lambda
  | convert
  | member
  | binary
  | call
  deriving DecidableEq, Repr

namespace Shape

/-- The forms in the order in which a nested expression may count them from zero. -/
def all : List Shape := [constant, subject, lambda, convert, member, binary, call]

def name : Shape → String
  | constant => "constant"
  | subject => "subject"
  | lambda => "lambda"
  | convert => "convert"
  | member => "member"
  | binary => "binary"
  | call => "call"

/-- The names of the entries, in their order. -/
def entries : Shape → List String
  | constant => ["value", "kind"]
  | subject => []
  | lambda => ["body"]
  | convert => ["operand"]
  | member => ["receiver", "name", "kind"]
  | binary => ["op", "left", "right"]
  | call => ["method", "receiver", "args"]

def ofName? (s : String) : Option Shape := all.find? (·.name == s)

/-- The shape that a tag names, or counts if it belongs to a nested expression. -/
def ofTag? (nested : Bool) : Json.Written → Option Shape
  | .text s => s.bind ofName?
  | .number (.int n) => if nested ∧ 0 ≤ n then all[n.toNat]? else none
  | _ => none

end Shape

namespace Expr

open Json (Written)

/-- The name under which the shape stands. -/
def shapeTag : String := "shape"

/-- The shape of an expression and its entries, in the order of the shape. -/
def tagged? (nested : Bool) : Written → Option (Shape × List (Option Written))
  | .object members => do
    let members ← Written.named? members
    let shape ← (← Written.entry? members shapeTag).bind (Shape.ofTag? nested)
    let entries ← Written.objectEntries? shape.entries members
    some (shape, entries)
  | .array (tag :: items) => do
    let shape ← Shape.ofTag? nested tag
    let entries ← Written.arrayEntries? shape.entries items
    some (shape, entries)
  | _ => none

/-- What may stand beside the only name of a choice. -/
def isNothing : Written → Bool
  | .null => true
  | .object [] => true
  | _ => false

def kind? : Option Written → Option Kind
  | none => some .any
  | some w => (Written.choice? isNothing w).bind Kind.ofName?

def operator? (w : Written) : Option BinaryOperator :=
  (Written.choice? isNothing w).bind BinaryOperator.ofName?

def method? (w : Written) : Option Method :=
  (Written.choice? isNothing w).bind Method.ofName?

/-- The expression in a tree that nests less than `depth` deep. -/
def ofWrittenWithin? : Nat → Bool → Written → Option Expr
  | 0, _, _ => none
  | depth + 1, nested, w => do
    match ← tagged? nested w with
    | (.constant, [some value, kind]) =>
      some (.constant (← value.value? Json.greatestNesting) (← kind? kind))
    | (.subject, []) => some .subject
    | (.lambda, [some body]) => some (.lambda (← ofWrittenWithin? depth true body))
    | (.convert, [some operand]) => some (.convert (← ofWrittenWithin? depth true operand))
    | (.member, [some receiver, some name, kind]) =>
      some (.member (← ofWrittenWithin? depth true receiver) (← name.text?) (← kind? kind))
    | (.binary, [some op, some left, some right]) =>
      some (.binary (← operator? op) (← ofWrittenWithin? depth true left)
        (← ofWrittenWithin? depth true right))
    | (.call, [some method, receiver, args]) =>
      let receiver ← match receiver with
        | none | some .null => some none
        | some w => (ofWrittenWithin? depth true w).map some
      let args ← match args with
        | none => some []
        | some w => w.list? (ofWrittenWithin? depth true)
      some (.call (← method? method) receiver args)
    | _ => none

/-- The expression of a tree all of which has a value. -/
def ofWritten? (w : Written) : Option Expr :=
  if w.hasValue then ofWrittenWithin? (Json.greatestNesting + 1) false w else none

/-- The expression of a document. -/
def ofDocument? (document : String) : Option Expr :=
  (Json.read? document).bind ofWritten?

mutual

/-- The document of an expression, its entries in their order. -/
def toJson : Expr → Json
  | .constant value kind =>
    .object [(shapeTag, .text "constant"), ("value", value), ("kind", .text kind.name)]
  | .subject => .object [(shapeTag, .text "subject")]
  | .lambda body => .object [(shapeTag, .text "lambda"), ("body", body.toJson)]
  | .convert operand => .object [(shapeTag, .text "convert"), ("operand", operand.toJson)]
  | .member receiver name kind =>
    .object [(shapeTag, .text "member"), ("receiver", receiver.toJson), ("name", .text name),
      ("kind", .text kind.name)]
  | .binary op left right =>
    .object [(shapeTag, .text "binary"), ("op", .text op.name), ("left", left.toJson),
      ("right", right.toJson)]
  | .call method none args =>
    .object [(shapeTag, .text "call"), ("method", .text method.name),
      ("args", .array (toJsonList args))]
  | .call method (some receiver) args =>
    .object [(shapeTag, .text "call"), ("method", .text method.name),
      ("receiver", receiver.toJson), ("args", .array (toJsonList args))]

def toJsonList : List Expr → List Json
  | [] => []
  | e :: es => e.toJson :: toJsonList es

end

/-- The text of an expression's document. -/
def document (e : Expr) : String := e.toJson.render

end Expr
end WhereClause
