import WhereClause.Json.Quoted
import WhereClause.Json.Written

/-!
# Tokens of a JSON text

The text is read one character at a time by `Scan.step`. A scan holds the tokens
found so far and where it stands: between tokens, inside a word, a numeral or a
quoted text. Words and numerals end at the first character that cannot continue
them; that character is then read between tokens.
-/
namespace WhereClause.Json

inductive Token where
  | leftBracket
  | rightBracket
  | leftBrace
  | rightBrace
  | comma
  | colon
  | text (value : Option String)
  /-- A number or one of the three words. -/
  | scalar (value : Written)
  deriving Repr, Inhabited

/-- Where a scan stands. Letters, marks and pieces are held last first. -/
inductive Place where
  | between
  | word (letters : List Char)
  | numeral (marks : List Char)
  | quoted (pieces : List Quoted.Piece)
  /-- After a backslash. -/
  | escape (pieces : List Quoted.Piece)
  /-- Inside a unit of four digits, `missing` of which are still to come. -/
  | unit (pieces : List Quoted.Piece) (missing : Nat) (code : Nat)
  deriving DecidableEq, Repr

structure Scan where
  place : Place
  /-- The tokens found so far, last first. -/
  found : List Token
  deriving Repr

namespace Scan

def start : Scan := ⟨.between, []⟩

def isSpace (c : Char) : Bool := c == ' ' || c == '\t' || c == '\n' || c == '\r'

def startsNumeral (c : Char) : Bool := c == '-' || c.isDigit

def continuesNumeral (c : Char) : Bool :=
  c.isDigit || c == '-' || c == '+' || c == '.' || c == 'e' || c == 'E'

/-- The value of a word. -/
def word? (letters : List Char) : Option Written :=
  if letters = ['n', 'u', 'l', 'l'] then some .null
  else if letters = ['t', 'r', 'u', 'e'] then some (.bool true)
  else if letters = ['f', 'a', 'l', 's', 'e'] then some (.bool false)
  else none

/-- The punctuation mark that a character is. -/
def mark? (c : Char) : Option Token :=
  match c with
  | '[' => some .leftBracket
  | ']' => some .rightBracket
  | '\x7b' => some .leftBrace
  | '\x7d' => some .rightBrace
  | ',' => some .comma
  | ':' => some .colon
  | _ => none

/-- Reads a character that stands between tokens. -/
def stepBetween (found : List Token) (c : Char) : Option Scan :=
  if isSpace c then some ⟨.between, found⟩
  else if c = '"' then some ⟨.quoted [], found⟩
  else if startsNumeral c then some ⟨.numeral [c], found⟩
  else if c.isLower then some ⟨.word [c], found⟩
  else (mark? c).map fun token => ⟨.between, token :: found⟩

/-- The tokens after a word or numeral that ends here. -/
def endWord (letters : List Char) (found : List Token) : Option (List Token) :=
  (word? letters.reverse).map fun w => .scalar w :: found

def endNumeral (marks : List Char) (found : List Token) : Option (List Token) :=
  (Numeral.ofChars? marks.reverse).map fun n => .scalar (.number n.value) :: found

/-- Reads one character; `none` if no JSON text goes on like this. -/
def step (s : Scan) (c : Char) : Option Scan :=
  match s.place with
  | .between => stepBetween s.found c
  | .word letters =>
    if c.isLower then some ⟨.word (c :: letters), s.found⟩
    else (endWord letters s.found).bind fun found => stepBetween found c
  | .numeral marks =>
    if continuesNumeral c then some ⟨.numeral (c :: marks), s.found⟩
    else (endNumeral marks s.found).bind fun found => stepBetween found c
  | .quoted pieces =>
    if c = '"' then some ⟨.between, .text (Quoted.join? pieces) :: s.found⟩
    else if c = '\\' then some ⟨.escape pieces, s.found⟩
    else if c.toNat < 0x20 then none
    else some ⟨.quoted (.char c :: pieces), s.found⟩
  | .escape pieces =>
    if c = 'u' then some ⟨.unit pieces 4 0, s.found⟩
    else (Quoted.namedEscape? c).map fun named => ⟨.quoted (.char named :: pieces), s.found⟩
  | .unit pieces missing code =>
    (Quoted.hexValue? c).map fun digit =>
      let code := code * 16 + digit
      if missing ≤ 1 then ⟨.quoted (.unit code :: pieces), s.found⟩
      else ⟨.unit pieces (missing - 1) code, s.found⟩

/-- The tokens of a text that ends here. -/
def finish (s : Scan) : Option (List Token) :=
  match s.place with
  | .between => some s.found.reverse
  | .word letters => (endWord letters s.found).map List.reverse
  | .numeral marks => (endNumeral marks s.found).map List.reverse
  | .quoted _ | .escape _ | .unit _ _ _ => none

/-- Reads characters one after another. -/
def run : Scan → List Char → Option Scan
  | s, [] => some s
  | s, c :: cs =>
    match s.step c with
    | some s => run s cs
    | none => none

end Scan

/-- The tokens of a text. -/
def tokens? (cs : List Char) : Option (List Token) :=
  (Scan.start.run cs).bind Scan.finish

end WhereClause.Json
