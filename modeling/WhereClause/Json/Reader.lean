import WhereClause.Json.Token

/-!
# Reading JSON

Tokens are put together by a machine that holds the arrays and objects still
open, innermost first, and what may come next. Every token is one step, so a text
is read in one pass whatever its nesting; how deep a value may nest is asked only
when the value is taken.
-/
namespace WhereClause.Json

/-- An array or object still open, its parts so far last first. -/
inductive Open where
  | array (items : List Written)
  | object (members : List (Option String × Written)) (name : Option String)
  deriving Repr, Inhabited

/-- What may come next, and what is still open around it. -/
inductive Reading where
  /-- A value. -/
  | value (around : List Open)
  /-- The first item of an array, or its end. -/
  | firstItem (around : List Open)
  /-- The first name in an object, or its end. -/
  | firstName (around : List Open)
  /-- A further name in an object. -/
  | name (members : List (Option String × Written)) (around : List Open)
  /-- The colon after a name. -/
  | colon (members : List (Option String × Written)) (name : Option String) (around : List Open)
  /-- A comma, or the end of what is innermost. -/
  | after (value : Written) (around : List Open)
  deriving Repr, Inhabited

namespace Reading

/-- Reads the first token of a value. -/
def begin? (around : List Open) : Token → Option Reading
  | .scalar w => some (.after w around)
  | .text s => some (.after (.text s) around)
  | .leftBracket => some (.firstItem around)
  | .leftBrace => some (.firstName around)
  | _ => none

/-- Reads a token after a value. -/
def continue? (w : Written) : List Open → Token → Option Reading
  | .array items :: around, .comma => some (.value (.array (w :: items) :: around))
  | .array items :: around, .rightBracket => some (.after (.array (w :: items).reverse) around)
  | .object members label :: around, .comma => some (.name ((label, w) :: members) around)
  | .object members label :: around, .rightBrace =>
    some (.after (.object ((label, w) :: members).reverse) around)
  | _, _ => none

/-- Reads one token; `none` if no JSON text goes on like this. -/
def step (r : Reading) (t : Token) : Option Reading :=
  match r, t with
  | .value around, t => begin? around t
  | .firstItem around, .rightBracket => some (.after (.array []) around)
  | .firstItem around, t => begin? (.array [] :: around) t
  | .firstName around, .rightBrace => some (.after (.object []) around)
  | .firstName around, .text label => some (.colon [] label around)
  | .name members around, .text label => some (.colon members label around)
  | .colon members label around, .colon => some (.value (.object members label :: around))
  | .after w around, t => continue? w around t
  | _, _ => none

/-- Reads tokens one after another. -/
def run : Reading → List Token → Option Reading
  | r, [] => some r
  | r, t :: ts =>
    match r.step t with
    | some r => run r ts
    | none => none

end Reading

/-- The tree of a text whose tokens are all there. -/
def Written.ofTokens? (ts : List Token) : Option Written :=
  match (Reading.value []).run ts with
  | some (.after w []) => some w
  | _ => none

/-- What a JSON text says, if it is one. -/
def read? (s : String) : Option Written :=
  (tokens? s.toList).bind Written.ofTokens?

/-- The value of a JSON text. -/
def parse? (s : String) : Option Json :=
  (read? s).bind (·.value? greatestNesting)

end WhereClause.Json
