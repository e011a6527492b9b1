/-!
# Files

What reading a file can come to: its text, or one of four failures. Bytes are a
text only if all of them are valid UTF-8.
-/
namespace WhereClause

inductive ReadFailure where
  | notFound
  | notADirectory
  | isADirectory
  | notUtf8
  deriving DecidableEq, Repr

namespace ReadFailure

def message : ReadFailure → String
  | notFound => "No such file or directory (os error 2)"
  | notADirectory => "Not a directory (os error 20)"
  | isADirectory => "Is a directory (os error 21)"
  | notUtf8 => "stream did not contain valid UTF-8"

end ReadFailure

/-- The text that bytes encode. -/
def textOfBytes (bytes : ByteArray) : Except ReadFailure String :=
  match String.fromUTF8? bytes with
  | some text => .ok text
  | none => .error .notUtf8

end WhereClause
