import ExternalParser.Config.Basic
import ExternalParser.Dialogue

namespace ExternalParser

-- Parsers that agree in these are one and the same.
structure ProbeKey where
  binary : Path.Route
  versionFlag : String
  expected : String
deriving DecidableEq

inductive ProbeState where
  | available
  | buildFailed
deriving DecidableEq

-- What is remembered about each parser.
structure Cache where
  slots : List (ProbeKey × ProbeState)
deriving DecidableEq

namespace Cache

def empty : Cache := ⟨[]⟩

def state? (c : Cache) (key : ProbeKey) : Option ProbeState :=
  c.slots.lookup key

-- Nothing is forgotten: without a state the slot stays as it is.
def store (c : Cache) (key : ProbeKey) : Option ProbeState → Cache
  | some state => ⟨(key, state) :: c.slots⟩
  | none => c

end Cache

namespace Availability

def key (c : Config) (expected : String) : ProbeKey :=
  ⟨Path.route c.binary, c.versionFlag, expected⟩

def probeCall (c : Config) : Invocation :=
  { Invocation.plain c.binary [c.versionFlag] with timeout := c.timeout }

-- The version that a run reports.
def reported? : Answer → Option String
  | .ok output => if output.isSuccess then some (Text.trimmed output.stdoutText) else none
  | .error _ => none

-- Asks the parser for its version.
def probe (c : Config) : Dialogue (Option String) := do
  return reported? (← Dialogue.run .version (probeCall c))

def buildCall (c : Config) (program : String) (arguments : List String) : Invocation :=
  { Invocation.plain program arguments with timeout := some c.buildTimeout }

-- What a run of the build command comes to.
def buildOutcome (program : String) : Answer → Except Failure Unit
  | .ok output =>
      if output.isSuccess then .ok ()
      else .error (.toolFailed program output.exitCode output.stderrText)
  | .error failure => .error failure

-- Builds the parser, and asks it again.
def rebuild (c : Config) (expected program : String) (arguments : List String) :
    Dialogue (Except Failure Unit) := do
  match buildOutcome program (← Dialogue.run .build (buildCall c program arguments)) with
  | .error failure => return .error failure
  | .ok () =>
      let found ← probe c
      if found = some expected then return .ok ()
      else return .error (.wrongVersion c.binary expected found)

-- The check of one parser, from what is remembered about it to what is to be remembered. It is
-- built only if it was not built before.
def check (c : Config) (expected : String) (previous : Option ProbeState) :
    Dialogue (Except Failure Unit × Option ProbeState) := do
  if previous = some .available then return (.ok (), previous)
  if (← probe c) = some expected then return (.ok (), some .available)
  match c.buildCommand with
  | [] => return (.error (.buildRequired c.buildInstructions none), previous)
  | program :: arguments =>
      if previous = some .buildFailed then
        return (.error (.buildRequired c.buildInstructions none), previous)
      match ← rebuild c expected program arguments with
      | .ok () => return (.ok (), some .available)
      | .error failure =>
          return (.error (.buildRequired c.buildInstructions (some failure)), some .buildFailed)

-- Makes sure that the parser of a configuration is there, if its version is to be checked.
def ensure (c : Config) : StateT Cache Dialogue (Except Failure Unit) := do
  match c.wantedVersion? with
  | none => return .ok ()
  | some expected =>
      let k := key c expected
      let (answer, state) ← check c expected ((← get).state? k)
      modify (·.store k state)
      return answer

end Availability

end ExternalParser
