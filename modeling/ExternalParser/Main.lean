import ExternalParser.CommandLine.Run

namespace ExternalParser.CommandLine

def fileErrorOf : IO.Error → FileError
  | .noFileOrDirectory _ _ _ => .missing
  | .permissionDenied _ _ _ => .denied
  | e => .other (toString e)

def readFile (path : String) : IO (Except FileError String) := do
  try
    return Files.textOf (← IO.FS.readBinFile path).toList
  catch e =>
    return .error (fileErrorOf e)

-- The files that a call looks at.
def filesOf : Wish → List String
  | .run config (.tree file _) | .run config (.select file _) => [config, file]
  | .run config .check | .run config .kinds => [config]
  | _ => []

-- The variables that the program looks at.
def variableNames : List String :=
  ["CLICOLOR_FORCE", "NO_COLOR", "ASTBRIDGE_ASCII", Config.binaryVariable]

def readEnvironment : IO Environment :=
  variableNames.filterMapM fun name => do return (← IO.getEnv name).map (name, ·)

def refuse {α : Type} : Dialogue α → α
  | .done x => x
  | .ask _ call next => refuse (next (.error (.notStarted call.program "programs cannot be started")))

end ExternalParser.CommandLine

open ExternalParser CommandLine in
def main (arguments : List String) : IO UInt32 := do
  let files ← (filesOf (readArguments arguments)).mapM fun path => return (path, ← readFile path)
  let read : TextReader := fun path => (files.lookup path).getD (.error .missing)
  let outcome := refuse (run ⟨read, ← readEnvironment⟩ arguments)
  IO.print outcome.stdout
  IO.eprint outcome.stderr
  return outcome.exitCode.toUInt32
