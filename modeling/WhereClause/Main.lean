import WhereClause.Command.Run

/-!
# The program

Reads files and standard input for a run, and writes what the run leaves behind.
-/
namespace WhereClause

/-- What a failure of the system to read means to a run. -/
def readFailure : IO.Error → ReadFailure
  | .noFileOrDirectory _ _ _ => .notFound
  | .inappropriateType _ code _ => if code = 21 then .isADirectory else .notADirectory
  | _ => .notFound

/-- The bytes of a file. -/
def readBytes (path : String) : IO (Except ReadFailure ByteArray) := do
  try
    return .ok (← IO.FS.readBinFile path)
  catch e =>
    return .error (readFailure e)

/-- Files and standard input as the system has them. -/
def systemSurroundings : Surroundings IO where
  file := readBytes
  input := do return .ok (← (← IO.getStdin).readBinToEnd)

end WhereClause

def main (args : List String) : IO UInt32 := do
  let outcome ← WhereClause.Run.command WhereClause.systemSurroundings args
  for line in outcome.output do
    IO.println line
  for line in outcome.report do
    IO.eprintln line
  return UInt32.ofNat outcome.exitCode
