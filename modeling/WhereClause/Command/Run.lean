import WhereClause.Command.Request
import WhereClause.Command.Response
import WhereClause.Expr.Document
import WhereClause.Mapping.Config
import WhereClause.Predicate.OfExpr

/-!
# Runs

A run of the command line: what it reads, what it writes to its two channels and
the code it exits with. Reading is asked of the surroundings, so the same run can
be made on real files and on bytes at hand. Answers go to the output; events of
sufficient severity and a last line with the error go to the other channel. A
mapping that cannot be loaded ends the run before anything is answered.
-/
namespace WhereClause

/-- Where a run reads its bytes. -/
structure Surroundings (m : Type → Type) where
  file : String → m (Except ReadFailure ByteArray)
  input : m (Except ReadFailure ByteArray)

/-- What a run leaves behind. -/
structure Outcome where
  exitCode : Nat
  output : List String
  report : List String
  deriving DecidableEq, Repr

namespace Run

/-- The usage, shown when the arguments make no request. -/
def usage : List String :=
  ["usage: predsql [--verbose] translate [--mapping FILE] [--input FILE]",
   "       predsql [--verbose] resolve [--mapping FILE] PATH",
   "       predsql --version"]

/-- The name and version of the program. -/
def versionLine : String := "predsql 0.1.0"

/-- The text of what was read. -/
def textOf (bytes : Except ReadFailure ByteArray) : Except ReadFailure String :=
  bytes.bind textOfBytes

/-- The configuration in the text of a mapping file. -/
def loadConfig (text : Except ReadFailure String) : Except MappingError Config :=
  match text with
  | .ok text => Config.parse text
  | .error failure => .error (.unreadable failure)

/-- The expression in the text of a document. -/
def loadExpr (text : Except ReadFailure String) : Except CommandError Expr :=
  match text with
  | .error failure => .error (.io failure.message)
  | .ok text =>
    if Text.isBlank text then .error .emptyInput
    else match Expr.ofDocument? text with
      | some e => .ok e
      | none => .error .malformedInput

/-- The lines of the events that are kept. -/
def logLines (least : Severity) (events : List Event) : List String :=
  (events.filter (·.severity.enabled least)).map Event.content

/-- What a run leaves behind that ends with an answer or an error after some events. -/
def respond (least : Severity) (events : List Event) : Except CommandError Json → Outcome
  | .ok data => ⟨0, [(Response.ok data).render], logLines least events⟩
  | .error e => ⟨1, [(Response.ofError e).render], logLines least events ++ [e.display]⟩

/-- An error of an expression is a command error. -/
def liftError {α : Type} (result : Except Error α) : Except CommandError α :=
  result.mapError .expression

/-- The events and the answer of compiling what a document holds. -/
def compileDocument (m : Mapping) (expr : Except CommandError Expr) :
    List Event × Except CommandError Json :=
  match expr with
  | .error e => ([], .error e)
  | .ok e =>
    let run := compile m e
    (run.events, (liftError run.result).map Response.predicate)

/-- The events and the answer of resolving a path. -/
def resolvePath (m : Mapping) (path : String) : List Event × Except CommandError Json :=
  let run := m.resolve path
  (run.events, (liftError run.result).map fun identifier =>
    Response.resolution path identifier (m.contains path))

/-- The least severity that a run keeps. -/
def leastSeverity (verbose : Bool) : Severity := if verbose then .trace else Severity.quiet

/-- The action of a run under a mapping that is loaded. -/
def act {m : Type → Type} [Monad m] (s : Surroundings m) (mapping : Mapping) :
    Action → m (List Event × Except CommandError Json)
  | .resolve path => return resolvePath mapping path
  | .compile file => do
    let bytes ← match file with
      | some file => s.file file
      | none => s.input
    return compileDocument mapping (loadExpr (textOf bytes))

/-- Loads the mapping, then acts. -/
def withMapping {m : Type → Type} [Monad m] (s : Surroundings m) (action : Action)
    (file : String) (verbose : Bool) : m Outcome := do
  let least := leastSeverity verbose
  match loadConfig (textOf (← s.file file)) with
  | .error e => return ⟨1, [], [(CommandError.mapping e).display]⟩
  | .ok config =>
    let (events, answer) ← act s config.mapping action
    return respond least (.mappingLoaded file config.tableAlias :: events) answer

/-- Runs what a request asks for; without a request the usage is shown. -/
def request {m : Type → Type} [Monad m] (s : Surroundings m) : Option Request → m Outcome
  | none => return ⟨2, [], usage⟩
  | some .version => return ⟨0, [versionLine], []⟩
  | some (.run action file verbose) => withMapping s action file verbose

/-- A run with some arguments. -/
def command {m : Type → Type} [Monad m] (s : Surroundings m) (args : List String) : m Outcome :=
  request s (Request.ofArguments args)

end Run

/-- Surroundings that hold some files and an input. -/
def Surroundings.ofFiles (file : String → Except ReadFailure ByteArray) (input : ByteArray) :
    Surroundings Id :=
  ⟨file, .ok input⟩

end WhereClause
