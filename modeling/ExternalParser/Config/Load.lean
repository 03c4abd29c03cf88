import ExternalParser.Config.Read
import ExternalParser.Files

namespace ExternalParser

-- A flaw of a configuration that is kept in a file.
def ConfigFlaw.failureIn (path : String) : ConfigFlaw → Failure
  | .notYaml => .notYaml (some path)
  | flaw =>
      let reason := flaw.failure.message
      .config s!"{path}: {reason}"

namespace Config

-- The variable of the environment that replaces the binary.
def binaryVariable : String := "ASTBRIDGE_BINARY"

def defaultFile : String := "astbridge.yaml"

-- The configuration of a file. Paths in it are seen from its directory, unless the environment
-- names another binary.
def load (read : TextReader) (path : String) (binary : Option String) : Except Failure Config :=
  match read path with
  | .error e =>
      let reason := e.message
      .error (.io s!"cannot read config '{path}': {reason}")
  | .ok text => match ofYaml text with
    | .error flaw => .error (flaw.failureIn path)
    | .ok c =>
        let resolved := match Path.parent? path with
          | some base => c.resolvePaths base
          | none => c
        .ok (resolved.overrideBinary binary)

end Config

end ExternalParser
