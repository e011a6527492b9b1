import WhereClause.Error
import WhereClause.Mapping.Error

/-!
# Command errors

Everything that can end a command with an error, under one code and one message.
Errors of a mapping or an expression keep their own.
-/
namespace WhereClause

inductive CommandError where
  /-- A document cannot be read. -/
  | io (message : String)
  /-- A document is empty, or is no expression. -/
  | input (message : String)
  | mapping (error : MappingError)
  | expression (error : Error)
  deriving DecidableEq, Repr

namespace CommandError

def code : CommandError → String
  | io _ => "PREDSQL_CLI_IO_ERROR"
  | input _ => "PREDSQL_CLI_INVALID_INPUT"
  | mapping e => e.code
  | expression e => e.code

def message : CommandError → String
  | io message => message
  | input message => message
  | mapping e => e.message
  | expression e => e.message

/-- The code and the message, as reported to a person. -/
def display (e : CommandError) : String := e.code ++ ": " ++ e.message

def emptyInput : CommandError := .input "Empty input"

/-- The document is no expression; how its reader would word that is left open. -/
def malformedInput : CommandError := .input "JSON error: ..."

end CommandError
end WhereClause
