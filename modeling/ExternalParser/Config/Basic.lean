import ExternalParser.Duration
import ExternalParser.Grammar
import ExternalParser.Path

namespace ExternalParser

structure Config where
  toolName : String
  binary : String
  versionFlag : String
  -- Without one the version is not checked.
  expectedVersion : Option String
  -- A program and its arguments; empty if there is no way to build the parser.
  buildCommand : List String
  -- What to tell the user instead of the usual instructions.
  customInstructions : Option String
  timeoutSecs : Option Nat
  buildTimeoutSecs : Nat
  checkVersion : Bool
  grammar : Grammar
deriving DecidableEq

namespace Config

def defaultVersionFlag : String := "--version"

def defaultBuildTimeoutSecs : Nat := 600

def new (toolName binary : String) (grammar : Grammar) : Config :=
  ⟨toolName, binary, defaultVersionFlag, none, [], none, none, defaultBuildTimeoutSecs, true, grammar⟩

def withExpectedVersion (c : Config) (version : String) : Config :=
  { c with expectedVersion := some version }

def withBuildCommand (c : Config) (command : List String) : Config :=
  { c with buildCommand := command }

def withTimeoutSecs (c : Config) (secs : Nat) : Config :=
  { c with timeoutSecs := some secs }

-- A value that is not empty replaces the binary.
def overrideBinary (c : Config) (binary : Option String) : Config :=
  match binary with
  | some path => if path = "" then c else { c with binary := path }
  | none => c

-- Paths are seen from a directory: that of the binary and that of the program that builds it.
def resolvePaths (c : Config) (base : String) : Config :=
  { c with
    binary := Path.resolve base c.binary
    buildCommand := match c.buildCommand with
      | [] => []
      | program :: arguments => Path.resolve base program :: arguments }

def timeout (c : Config) : Option Duration :=
  c.timeoutSecs.map Duration.ofSeconds

def buildTimeout (c : Config) : Duration :=
  Duration.ofSeconds c.buildTimeoutSecs

-- The version that the parser is checked for.
def wantedVersion? (c : Config) : Option String :=
  if c.checkVersion then c.expectedVersion else none

def versionCheckEnabled (c : Config) : Bool :=
  c.wantedVersion?.isSome

-- What to do to get a parser that works.
def buildInstructions (c : Config) : String :=
  match c.customInstructions with
  | some text => text
  | none =>
      let outdated := s!"Your version of '{c.binary}' is unbuilt or out of date."
      if c.buildCommand = [] then
        match c.expectedVersion with
        | some expected =>
            outdated ++ s!" Install a build that reports '{expected}' for `{c.binary} {c.versionFlag}`."
        | none => outdated
      else
        let command := " ".intercalate c.buildCommand
        outdated ++ s!" Run this command to build it:\n\n  $ {command}\n"

end Config

end ExternalParser
