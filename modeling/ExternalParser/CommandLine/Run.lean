import ExternalParser.Client
import ExternalParser.CommandLine.Arguments
import ExternalParser.CommandLine.Drawing
import ExternalParser.CommandLine.Export
import ExternalParser.CommandLine.Preview

namespace ExternalParser.CommandLine

-- What went wrong, and what lies behind it, the nearest first.
structure Trouble where
  message : String
  causes : List String
deriving DecidableEq

def Trouble.ofFailure (f : Failure) : Trouble := ⟨f.message, f.causes⟩

-- The same trouble, seen from further away.
def Trouble.within (t : Trouble) (message : String) : Trouble :=
  ⟨message, t.message :: t.causes⟩

-- What a command prints, and how it ends.
structure Printed where
  lines : List String
  trouble : Option Trouble

def Printed.ofLines (lines : List String) : Printed := ⟨lines, none⟩

def Printed.ofTrouble (t : Trouble) : Printed := ⟨[], some t⟩

-- What a command works with.
structure Setting where
  read : TextReader
  env : Environment

def loadConfig (s : Setting) (path : String) : Except Trouble Config :=
  (Config.load s.read path (s.env.get? Config.binaryVariable)).mapError fun f =>
    (Trouble.ofFailure f).within s!"failed to load configuration '{path}'"

def readSource (s : Setting) (file : String) : Except Trouble String :=
  (s.read file).mapError fun e => ⟨s!"failed to read '{file}'", [e.message]⟩

-- The tree of a source file.
def parseFile (s : Setting) (config : Config) (file : String) : Session (Except Trouble Tree) := do
  match readSource s file with
  | .error t => return .error t
  | .ok source => return (← Client.parse config source).mapError Trouble.ofFailure

def printTree (s : Setting) (json : Bool) (t : Tree) : List String :=
  if json then [(treeExport t).pretty] else drawing t (Style.ofEnvironment s.env)

def runTree (s : Setting) (config : Config) (file : String) (json : Bool) : Session Printed := do
  match ← parseFile s config file with
  | .error t => return .ofTrouble t
  | .ok tree => return .ofLines (printTree s json tree)

def previewLength : Nat := 60

def selectionLine (t : Tree) (style : Style) (id : Nat) : String :=
  let line := match t.nodeLine? id with
    | some n => toString n
    | none => "-"
  let number := padLeft 5 (style.muted line)
  let text := String.ofList (preview (t.nodeText id).toList previewLength)
  s!"  {number}  {text}"

def printSelection (s : Setting) (kind : String) (t : Tree) : List String :=
  let style := Style.ofEnvironment s.env
  match t.selectNamed 0 kind with
  | [] => [style.muted s!"No {kind} nodes found"]
  | found =>
      let count := found.length
      found.map (selectionLine t style) ++ ["", s!"{count} {kind} node(s)"]

-- The kind is looked up before the source is read.
def runSelect (s : Setting) (config : Config) (file kind : String) : Session Printed := do
  if (config.grammar.nodeKind? kind).isNone then
    let grammar := config.grammar.name
    return .ofTrouble
      ⟨s!"'{kind}' is not a node kind of grammar '{grammar}' (see `astbridge kinds`)", []⟩
  match ← parseFile s config file with
  | .error t => return .ofTrouble t
  | .ok tree => return .ofLines (printSelection s kind tree)

-- A line with a name and a value.
def statusLine (shown : Bool) (name value : String) : String :=
  let name := Paint.strong.apply shown name
  s!"  {name}: {value}"

def printStatus (shown : Bool) (config : Config) (version : Option String) : List String :=
  let line := statusLine shown
  [Paint.heading.apply shown "Astbridge Parser Status", "",
    line "Tool" config.toolName, line "Binary" config.binary,
    line "Grammar" config.grammar.name,
    line "Expected" (config.expectedVersion.getD "any"),
    line "Reported" (version.getD (Paint.bad.apply shown "not runnable")), ""]

-- The status is printed whatever comes of the check.
def runCheck (s : Setting) (config : Config) : Session Printed := do
  let shown := showsColours s.env
  let status := printStatus shown config (← Client.version config)
  match ← Client.ensureAvailable config with
  | .error f => return ⟨status, some (.ofFailure f)⟩
  | .ok () =>
      let ready := Paint.good.apply shown "Parser is ready"
      return .ofLines (status ++ [s!"  {ready}"])

-- The lines of a kind table, of which some entries are marked.
def kindLines (shown : Bool) (table : KindTable) (mark : String) (isMarked : Nat → Bool) :
    List String :=
  table.entries.map fun (id, name) =>
    let number := padLeft 6 (toString id)
    let marker := if isMarked id then Paint.dim.apply shown s!" ({mark})" else ""
    s!"    {number}  {name}{marker}"

def printKinds (shown : Bool) (g : Grammar) : List String :=
  let name := g.name
  let title := Paint.heading.apply shown s!"Grammar {name}"
  let nodes := g.nodeKinds.size
  let tokens := g.tokenKinds.size
  let nodeTitle := Paint.strong.apply shown "Node kinds"
  let tokenTitle := Paint.strong.apply shown "Token kinds"
  [s!"{title} ({nodes} node kinds, {tokens} token kinds)", "", s!"  {nodeTitle}"] ++
    kindLines shown g.nodeKinds "statement" (g.statementKind = ·) ++
    ["", s!"  {tokenTitle}"] ++ kindLines shown g.tokenKinds "trivia" g.isTrivia

-- Runs a command on a configuration file.
def runCommand (s : Setting) (path : String) (command : Command) : Session Printed := do
  match loadConfig s path with
  | .error t => return .ofTrouble t
  | .ok config => match command with
    | .tree file json => runTree s config file json
    | .select file kind => runSelect s config file kind
    | .check => runCheck s config
    | .kinds => return .ofLines (printKinds (showsColours s.env) config.grammar)

-- What the program leaves behind.
structure Outcome where
  exitCode : Nat
  stdout : String
  stderr : String
deriving DecidableEq

def unlines (lines : List String) : String :=
  String.join (lines.map (· ++ "\n"))

def Trouble.lines (t : Trouble) (shown : Bool) : List String :=
  let alarm := Paint.alarm.apply shown "error"
  let behind := Paint.dim.apply shown "caused by"
  let message := t.message
  s!"{alarm}: {message}" :: t.causes.map fun cause => s!"  {behind}: {cause}"

def Printed.outcome (p : Printed) (shown : Bool) : Outcome :=
  match p.trouble with
  | none => ⟨0, unlines p.lines, ""⟩
  | some t => ⟨1, unlines p.lines, unlines (t.lines shown)⟩

def programVersion : String := "0.1.0"

def usage : String :=
  "Usage: astbridge [-c FILE] [-v] tree [--json] FILE | select -k KIND FILE | check | kinds"

-- The exit code of a call that is not understood.
def usageExitCode : Nat := 2

-- The whole program, from its arguments to what it leaves behind.
def run (s : Setting) (arguments : List String) : Dialogue Outcome := do
  match readArguments arguments with
  | .version name => return ⟨0, unlines [name ++ " " ++ programVersion], ""⟩
  | .help => return ⟨0, unlines [usage], ""⟩
  | .unclear => return ⟨usageExitCode, "", unlines [usage]⟩
  | .run config command =>
      let (printed, _) ← (runCommand s config command).run Cache.empty
      return printed.outcome (showsColours s.env)

end ExternalParser.CommandLine
