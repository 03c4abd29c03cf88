import ExternalParser.Availability
import ExternalParser.Report
import ExternalParser.Tree.Build
import ExternalParser.Tree.Query

namespace ExternalParser

-- What a client does: program runs, with what is remembered about the parsers at hand.
abbrev Session := StateT Cache Dialogue

-- A statement by itself: a tree, and the one node of it that is a statement.
structure Statement where
  tree : Tree
  node : Nat

namespace Client

def ensureAvailable (c : Config) : Session (Except Failure Unit) :=
  Availability.ensure c

-- The version that the parser reports now.
def version (c : Config) : Session (Option String) :=
  Availability.probe c

def parseCall (c : Config) (source : String) (cancel : Option CancelToken) : Invocation :=
  { Invocation.plain c.binary [] with
    stdin := Utf8.encode source
    timeout := c.timeout
    cancel := cancel }

-- The record of a finished run.
def record (c : Config) (answer : Answer) : Except Failure ParseRecord := do
  let stdout ← Report.classify c.toolName (← answer)
  (ParseRecord.decode stdout).mapError (.undecodable c.toolName · (Utf8.lossy stdout))

-- Runs the parser on a source, if the parser is there.
def attempt (c : Config) (source : String) (cancel : Option CancelToken) :
    Except Failure Unit → Dialogue (Except Failure ParseRecord)
  | .error failure => return .error failure
  | .ok () => return record c (← Dialogue.run .parse (parseCall c source cancel))

def invoke (c : Config) (source : String) (cancel : Option CancelToken) :
    Session (Except Failure ParseRecord) := do
  attempt c source cancel (← ensureAvailable c)

def run (c : Config) (source : String) : Session (Except Failure ParseRecord) :=
  invoke c source none

def treeOf (c : Config) (source : String) (r : ParseRecord) : Except Failure Tree :=
  (Tree.ofRecord c.grammar source r).mapError (.malformedTree ·.message)

-- Parses a source; the token, if there is one, can stop the parser.
def parseWith (c : Config) (source : String) (cancel : Option CancelToken) :
    Session (Except Failure Tree) := do
  return (← invoke c source cancel).bind (treeOf c source)

def parse (c : Config) (source : String) : Session (Except Failure Tree) :=
  parseWith c source none

def parseCancellable (c : Config) (source : String) (cancel : CancelToken) :
    Session (Except Failure Tree) :=
  parseWith c source (some cancel)

-- Parses sources one after the other. A failure does not touch the others.
def parseMany (c : Config) (sources : List String) : Session (List (Except Failure Tree)) :=
  sources.mapM (parse c)

-- The statements below the root.
def statements (t : Tree) : List Nat :=
  t.selectKind 0 t.grammar.statementKind

-- The statement of a tree that has exactly one.
def statementOf (t : Tree) : Except Failure Statement :=
  match statements t with
  | [node] => .ok ⟨t, node⟩
  | found =>
      let count := found.length
      .error (.unexpected s!"fragment does not parse into exactly one statement (found {count})")

-- Parses a fragment, which has to be exactly one statement.
def parseStatement (c : Config) (fragment : String) : Session (Except Failure Statement) := do
  return (← parse c (c.grammar.wrap fragment)).bind statementOf

-- How diagnostics show a client.
def describe (c : Config) : String :=
  let tool := Text.quoted c.toolName
  let binary := Text.quoted c.binary
  let grammar := Text.quoted c.grammar.name
  s!"ParserClient \x7b tool: {tool}, binary: {binary}, grammar: {grammar}, .. \x7d"

end Client

end ExternalParser
