/-!
# Quoted text

What stands between the quotes of a JSON text. Written, a quote, a backslash and
the controls below space are escaped and everything else stands for itself.
Read, a body is a list of pieces: characters, and sixteen-bit units given by four
hexadecimal digits. Units of the surrogate range mean a character in pairs only.
-/
namespace WhereClause.Quoted

/-- The digit of a value below sixteen, in small letters. -/
def hexDigit (n : Nat) : Char :=
  Char.ofNat (if n < 10 then 48 + n else 87 + n)

/-- The value of a hexadecimal digit in small or capital letters. -/
def hexValue? (c : Char) : Option Nat :=
  if '0' ≤ c ∧ c ≤ '9' then some (c.toNat - 48)
  else if 'a' ≤ c ∧ c ≤ 'f' then some (c.toNat - 87)
  else if 'A' ≤ c ∧ c ≤ 'F' then some (c.toNat - 55)
  else none

/-- A character as written between quotes. -/
def escape (c : Char) : List Char :=
  if c = '"' then ['\\', '"']
  else if c = '\\' then ['\\', '\\']
  else if c = '\n' then ['\\', 'n']
  else if c = '\r' then ['\\', 'r']
  else if c = '\t' then ['\\', 't']
  else if c = '\x08' then ['\\', 'b']
  else if c = '\x0c' then ['\\', 'f']
  else if c.toNat < 0x20 then ['\\', 'u', '0', '0', hexDigit (c.toNat / 16), hexDigit (c.toNat % 16)]
  else [c]

/-- The text in quotes, in front of what follows it. -/
def write (s : String) (rest : List Char) : List Char :=
  '"' :: (s.toList.flatMap escape ++ '"' :: rest)

/-- One piece of a body. -/
inductive Piece where
  | char (c : Char)
  | unit (code : Nat)
  deriving DecidableEq, Repr

/-- The character of an escape that is a backslash and one letter. -/
def namedEscape? (c : Char) : Option Char :=
  match c with
  | '"' => some '"'
  | '\\' => some '\\'
  | '/' => some '/'
  | 'b' => some '\x08'
  | 'f' => some '\x0c'
  | 'n' => some '\n'
  | 'r' => some '\r'
  | 't' => some '\t'
  | _ => none

def isHighSurrogate (n : Nat) : Bool := decide (0xD800 ≤ n) && decide (n < 0xDC00)

def isLowSurrogate (n : Nat) : Bool := decide (0xDC00 ≤ n) && decide (n < 0xE000)

/-- The characters of the pieces, read from the end of `pieces` to its front onto
`done`. A low unit takes the high unit before it; alone, neither is a character. -/
def joinOnto : List Piece → List Char → Option (List Char)
  | [], done => some done
  | .char c :: rest, done => joinOnto rest (c :: done)
  | [.unit code], done =>
    if isHighSurrogate code || isLowSurrogate code then none else some (Char.ofNat code :: done)
  | .unit code :: before :: rest, done =>
    if isLowSurrogate code then
      match before with
      | .unit high =>
        if isHighSurrogate high then
          joinOnto rest (Char.ofNat (0x10000 + (high - 0xD800) * 0x400 + (code - 0xDC00)) :: done)
        else none
      | .char _ => none
    else if isHighSurrogate code then none
    else joinOnto (before :: rest) (Char.ofNat code :: done)

/-- The text of a body whose pieces were collected last first, unless it holds a
surrogate without its partner. -/
def join? (reversed : List Piece) : Option String :=
  (joinOnto reversed []).map String.ofList

end WhereClause.Quoted
