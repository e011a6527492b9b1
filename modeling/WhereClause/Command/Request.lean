/-!
# Requests

What the arguments of the command line ask for. Arguments are read from left to
right. An option takes its value from the same argument behind an equals sign or
from the next argument, and each option is given at most once; two hyphens alone
end the options. Whatever is not understood makes no request.
-/
namespace WhereClause

inductive Action where
  /-- Compiles the document in a file, or on standard input. -/
  | compile (input : Option String)
  /-- Resolves one dotted member path. -/
  | resolve (path : String)
  deriving DecidableEq, Repr

inductive Request where
  | version
  | run (action : Action) (mapping : String) (verbose : Bool)
  deriving DecidableEq, Repr

namespace Request

/-- The mapping file that is read unless another is named. -/
def defaultMapping : String := "./mapping.json"

/-- The two commands. -/
inductive CommandName where
  | compile
  | resolve
  deriving DecidableEq, Repr

def CommandName.ofName? (s : String) : Option CommandName :=
  if s = "translate" then some .compile
  else if s = "resolve" then some .resolve
  else none

/-- What the arguments of a command have said so far. -/
structure Draft where
  command : CommandName
  mapping : Option String
  input : Option String
  verbose : Bool
  path : Option String
  deriving DecidableEq, Repr

namespace Draft

def empty (command : CommandName) : Draft := ⟨command, none, none, false, none⟩

/-- Takes a file name for the mapping, if there is none yet; a name is not empty. -/
def setMapping (d : Draft) (file : String) : Option Draft :=
  if d.mapping.isSome || file.isEmpty then none else some { d with mapping := some file }

/-- Takes a file name for the document, which only one command has. -/
def setInput (d : Draft) (file : String) : Option Draft :=
  match d.command with
  | .compile =>
    if d.input.isSome || file.isEmpty then none else some { d with input := some file }
  | .resolve => none

def setVerbose (d : Draft) : Option Draft :=
  if d.verbose then none else some { d with verbose := true }

/-- Takes a member path, which only one command has. -/
def setPath (d : Draft) (path : String) : Option Draft :=
  match d.command with
  | .compile => none
  | .resolve => if d.path.isSome then none else some { d with path := some path }

/-- Takes arguments that are no options. -/
def setPaths (d : Draft) : List String → Option Draft
  | [] => some d
  | path :: paths => (d.setPath path).bind (·.setPaths paths)

/-- The request that the arguments come to, if nothing is missing. -/
def finish (d : Draft) (verbose : Bool) : Option Request :=
  let mapping := d.mapping.getD defaultMapping
  match d.command with
  | .compile => some (.run (.compile d.input) mapping (verbose || d.verbose))
  | .resolve => d.path.map fun path => .run (.resolve path) mapping (verbose || d.verbose)

end Draft

/-- The argument starts with a hyphen and is more than that. -/
def looksLikeOption (arg : String) : Bool :=
  match arg.toList with
  | '-' :: _ :: _ => true
  | _ => false

/-- The value that an argument gives to an option behind an equals sign. -/
def assigned? (option arg : String) : Option String :=
  let start := (option ++ "=").toList
  if start.isPrefixOf arg.toList then some (String.ofList (arg.toList.drop start.length)) else none

/-- Reads the arguments of a command. -/
def readArguments (d : Draft) : List String → Option Draft
  | [] => some d
  | arg :: args =>
    if arg = "--" then d.setPaths args
    else if arg = "--verbose" then d.setVerbose.bind (readArguments · args)
    else if arg = "--mapping" ∨ arg = "--input" then
      match args with
      | [] => none
      | value :: args =>
        if looksLikeOption value then none
        else
          (if arg = "--mapping" then d.setMapping value else d.setInput value).bind
            (readArguments · args)
    else
      match assigned? "--mapping" arg, assigned? "--input" arg with
      | some value, _ => (d.setMapping value).bind (readArguments · args)
      | none, some value => (d.setInput value).bind (readArguments · args)
      | none, none =>
        if looksLikeOption arg then none else (d.setPath arg).bind (readArguments · args)

/-- Reads the arguments up to the command, and then those of the command. -/
def readFrom (verbose : Bool) : List String → Option Request
  | [] => none
  | arg :: args =>
    if arg = "--version" ∨ "-V".toList.isPrefixOf arg.toList then some .version
    else if arg = "--verbose" then if verbose then none else readFrom true args
    else (CommandName.ofName? arg).bind fun command =>
      (readArguments (Draft.empty command) args).bind (·.finish verbose)

/-- The request that the arguments make, if they make one. -/
def ofArguments (args : List String) : Option Request := readFrom false args

end Request
end WhereClause
