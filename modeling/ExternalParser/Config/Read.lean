import ExternalParser.Config.Basic
import ExternalParser.Failure
import ExternalParser.Yaml.Reader

namespace ExternalParser

open Yaml

-- Why a text is no configuration.
inductive ConfigFlaw where
  | notYaml
  | misfit (m : Misfit)
  -- A kind table, of the mapping that the trail leads to, has conflicting entries.
  | conflict (trail : Trail) (c : KindConflict)
  | grammar (flaw : GrammarFlaw)
  | blankToolName
deriving DecidableEq

def ConfigFlaw.message : ConfigFlaw → String
  | .notYaml => "malformed YAML"
  | .misfit m => m.message
  | .conflict trail c => trail.label c.message
  | .grammar flaw => flaw.message
  | .blankToolName => "tool_name must not be empty"

def ConfigFlaw.failure : ConfigFlaw → Failure
  | .notYaml => .notYaml none
  | flaw => .config flaw.message

abbrev Reading (α : Type) := Except ConfigFlaw α

def fits {α : Type} (x : Except Misfit α) : Reading α :=
  x.mapError .misfit

namespace KindTable

-- Puts an entry at its place, over one with the same number.
def replace (id : Nat) (name : String) : List (Nat × String) → List (Nat × String)
  | [] => [(id, name)]
  | (other, label) :: rest =>
      if id = other then (id, name) :: rest
      else if id < other then (id, name) :: (other, label) :: rest
      else (other, label) :: replace id name rest

-- The entries of a mapping from numbers to names, in ascending order. A repeated number keeps the
-- last name.
def readEntries (d : Document) (trail : Trail) (n : Node Nat) :
    Except Misfit (List (Nat × String)) := do
  let entries ← readMapping d "a map" trail n
  entries.foldlM (fun table (key, value) => do
    let id ← readNatural d (Nat.pow 2 32 - 1) "u32" trail key
    let name ← readText d "a string" (stepTo key :: trail) value
    return replace id name table) []

-- A conflict is a problem of the mapping that holds the table.
def read (d : Document) (trail : Trail) (n : Node Nat) : Reading KindTable := do
  let entries ← fits (readEntries d trail n)
  (ofEntries entries).mapError (.conflict (trail.drop 1))

end KindTable

namespace GrammarSketch

def fieldNames : List String :=
  ["name", "node_kinds", "token_kinds", "statement_kind", "fragment_prefix",
    "statement_terminator", "trivia_tokens"]

-- The fields read so far.
structure Draft where
  name : Option String
  nodeKinds : Option KindTable
  tokenKinds : Option KindTable
  statement : Option String
  opening : String
  terminator : String
  trivia : List String

def Draft.start : Draft := ⟨none, none, none, none, "", Grammar.defaultTerminator, []⟩

def readField (d : Document) (draft : Draft) (name : String) (trail : Trail) (n : Node Nat) :
    Reading Draft := do
  let text := fits (readText d "a string" trail n)
  match name with
  | "name" => return { draft with name := some (← text) }
  | "node_kinds" => return { draft with nodeKinds := some (← KindTable.read d trail n) }
  | "token_kinds" => return { draft with tokenKinds := some (← KindTable.read d trail n) }
  | "statement_kind" => return { draft with statement := some (← text) }
  | "fragment_prefix" => return { draft with opening := ← text }
  | "statement_terminator" => return { draft with terminator := ← text }
  | _ =>
      return { draft with trivia := ← fits (readSequence d (readText d "a string") trail n) }

def ofDraft (trail : Trail) (draft : Draft) : Except Misfit GrammarSketch := do
  return ⟨← required trail "name" draft.name, ← required trail "node_kinds" draft.nodeKinds,
    ← required trail "token_kinds" draft.tokenKinds,
    ← required trail "statement_kind" draft.statement, draft.opening, draft.terminator, draft.trivia⟩

def read (d : Document) (trail : Trail) (n : Node Nat) : Reading GrammarSketch := do
  let entries ← fits (readMapping d "struct RawGrammar" trail n)
  let draft ← readFields d fieldNames (readField d) .misfit trail [] Draft.start entries
  fits (ofDraft trail draft)

end GrammarSketch

def Grammar.read (d : Document) (trail : Trail) (n : Node Nat) : Reading Grammar := do
  (ofSketch (← GrammarSketch.read d trail n)).mapError .grammar

namespace Config

def fieldNames : List String :=
  ["tool_name", "binary", "version_flag", "expected_version", "build_command",
    "build_instructions", "timeout_secs", "build_timeout_secs", "check_version", "grammar"]

-- The fields read so far.
structure Draft where
  toolName : Option String
  binary : Option String
  versionFlag : String
  expectedVersion : Option String
  buildCommand : List String
  customInstructions : Option String
  timeoutSecs : Option Nat
  buildTimeoutSecs : Nat
  checkVersion : Bool
  grammar : Option Grammar

def Draft.start : Draft :=
  ⟨none, none, defaultVersionFlag, none, [], none, none, defaultBuildTimeoutSecs, true, none⟩

def readSecs (d : Document) : Trail → Node Nat → Except Misfit Nat :=
  readNatural d (Nat.pow 2 64 - 1) "u64"

def readField (d : Document) (draft : Draft) (name : String) (trail : Trail) (n : Node Nat) :
    Reading Draft := do
  let text := readText d "a string"
  match name with
  | "tool_name" => return { draft with toolName := some (← fits (text trail n)) }
  | "binary" => return { draft with binary := some (← fits (readText d "path string" trail n)) }
  | "version_flag" => return { draft with versionFlag := ← fits (text trail n) }
  | "expected_version" =>
      return { draft with expectedVersion := ← fits (readOptional d text trail n) }
  | "build_command" => return { draft with buildCommand := ← fits (readSequence d text trail n) }
  | "build_instructions" =>
      return { draft with customInstructions := ← fits (readOptional d text trail n) }
  | "timeout_secs" =>
      return { draft with timeoutSecs := ← fits (readOptional d (readSecs d) trail n) }
  | "build_timeout_secs" => return { draft with buildTimeoutSecs := ← fits (readSecs d trail n) }
  | "check_version" => return { draft with checkVersion := ← fits (readBool d trail n) }
  | _ => return { draft with grammar := some (← Grammar.read d trail n) }

def ofDraft (draft : Draft) : Except Misfit Config := do
  return ⟨← required [] "tool_name" draft.toolName, ← required [] "binary" draft.binary,
    draft.versionFlag, draft.expectedVersion, draft.buildCommand, draft.customInstructions,
    draft.timeoutSecs, draft.buildTimeoutSecs, draft.checkVersion,
    ← required [] "grammar" draft.grammar⟩

def read (d : Document) : Reading Config := do
  let entries ← fits (readRootMapping d "struct ParserConfig")
  let draft ← readFields d fieldNames (readField d) .misfit [] [] Draft.start entries
  fits (ofDraft draft)

-- The configuration of a text. The name of the tool has to show something.
def ofYaml (text : String) : Reading Config := do
  match Document.parse? text with
  | none => throw .notYaml
  | some d =>
      let config ← read d
      if Text.trimmed config.toolName = "" then throw .blankToolName
      return config

end Config

end ExternalParser
