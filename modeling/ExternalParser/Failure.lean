import ExternalParser.Duration
import ExternalParser.Record.Decode

namespace ExternalParser

inductive Failure where
  -- The parser rejects the source.
  | rejected (tool : String) (line : Nat) (message stderr : String)
  -- The parser failed for another reason; without a code a signal ended it.
  | toolFailed (tool : String) (exitCode : Option Int) (stderr : String)
  -- The parser succeeded, but its output is no record.
  | undecodable (tool : String) (fault : Json.Fault) (payload : String)
  | malformedTree (reason : String)
  -- The parser is missing or outdated; the cause is the failure of the build, if there was one.
  | buildRequired (instructions : String) (cause : Option Failure)
  | unexpected (reason : String)
  | wrongVersion (program expected : String) (found : Option String)
  | notFound (program : String)
  | notStarted (program reason : String)
  | timedOut (program : String) (after : Duration)
  | cancelled (program : String)
  | io (reason : String)
  | config (reason : String)
  -- The configuration, of the named file if there is one, is no YAML.
  | notYaml (file : Option String)

-- Whose problem a failure is.
inductive Blame where
  | input
  | environment
deriving DecidableEq

namespace Failure

def exitText : Option Int → String
  | some code => s!"exit code {code}"
  | none => "terminated by signal"

def versionText : Option String → String
  | some version => s!"'{version}'"
  | none => "no version"

def message : Failure → String
  | .rejected tool line message _ => s!"{tool} parse error on line {line}: {message}"
  | .toolFailed tool exitCode stderr => s!"{tool} failed ({exitText exitCode}): {stderr}"
  | .undecodable tool fault _ => s!"failed to decode {tool} output: {fault.message}"
  | .malformedTree reason => s!"malformed syntax tree: {reason}"
  | .buildRequired instructions _ => instructions
  | .unexpected reason => s!"validation failed: {reason}"
  | .wrongVersion program expected found =>
      s!"{program} reports {versionText found} instead of '{expected}' after the build"
  | .notFound program => s!"{program} not found"
  | .notStarted program reason => s!"failed to spawn '{program}': {reason}"
  | .timedOut program after => s!"{program} did not finish within {after.text}"
  | .cancelled program => s!"{program} invocation was cancelled"
  | .io reason => s!"I/O error: {reason}"
  | .config reason => s!"configuration error: {reason}"
  | .notYaml none => "configuration error: malformed YAML"
  | .notYaml (some file) => s!"configuration error: {file}: configuration error: malformed YAML"

def blame : Failure → Blame
  | .rejected _ _ _ _ | .unexpected _ => .input
  | _ => .environment

-- The line of the source that a rejection names.
def line? : Failure → Option Nat
  | .rejected _ line _ _ => some line
  | _ => none

-- The messages of what lies behind a failure, the nearest first.
def causes : Failure → List String
  | .undecodable _ fault _ => [fault.message]
  | .buildRequired _ (some cause) => cause.message :: cause.causes
  | .notStarted _ reason => [reason]
  | .io reason => [reason]
  | _ => []

end Failure

end ExternalParser
