import ExternalParser.Simulation.Program

namespace ExternalParser.Simulation.Shell

-- A piece of a word. Inside quotes a parameter is not split.
inductive Piece where
  | char (c : Char)
  -- Quotes, which make a word even if nothing is in them.
  | quotes
  | parameter (name : Char) (quoted : Bool)
deriving DecidableEq

inductive Token where
  | word (pieces : List Piece)
  -- The mark of a list, a pipeline or a redirection.
  | mark (text : String)
deriving DecidableEq

inductive Mode where
  | bare
  | single
  | double
deriving DecidableEq

structure Lexer where
  -- In reverse.
  tokens : List Token
  -- In reverse; none between words.
  word : Option (List Piece)
  mode : Mode

namespace Lexer

def endWord (s : Lexer) : Lexer :=
  match s.word with
  | some pieces => { s with tokens := .word pieces.reverse :: s.tokens, word := none }
  | none => s

def add (s : Lexer) (p : Piece) : Lexer :=
  { s with word := some (p :: s.word.getD []) }

def mark (s : Lexer) (text : String) : Lexer :=
  let s := s.endWord
  { s with tokens := .mark text :: s.tokens }

end Lexer

def isParameter (c : Char) : Bool :=
  c.isDigit || "$@*#?".toList.contains c

-- The next character, or the mark or escape that begins with it, and what follows.
def lexStep (s : Lexer) : List Char → Lexer × List Char
  | [] => (s, [])
  | c :: cs => match s.mode with
    | .single =>
        if c = '\'' then ({ s with mode := .bare }, cs) else (s.add (.char c), cs)
    | .double => match c, cs with
      | '"', cs => ({ s with mode := .bare }, cs)
      | '\\', d :: rest =>
          if "$`\"\\".toList.contains d then (s.add (.char d), rest)
          else (s.add (.char '\\'), cs)
      | '$', d :: rest =>
          if isParameter d then (s.add (.parameter d true), rest) else (s.add (.char c), cs)
      | c, cs => (s.add (.char c), cs)
    | .bare => match c, cs with
      | '\'', cs => ({ s.add .quotes with mode := .single }, cs)
      | '"', cs => ({ s.add .quotes with mode := .double }, cs)
      | '\\', d :: rest => (s.add (.char d), rest)
      | '$', d :: rest =>
          if isParameter d then (s.add (.parameter d false), rest) else (s.add (.char c), cs)
      | '&', '&' :: rest => (s.mark "&&", rest)
      | '|', '|' :: rest => (s.mark "||", rest)
      | '>', '&' :: d :: rest => (s.mark s!">&{d}", rest)
      | '1', '>' :: '&' :: d :: rest =>
          if s.word.isNone then (s.mark s!">&{d}", rest) else (s.add (.char c), cs)
      | '2', '>' :: '&' :: d :: rest =>
          if s.word.isNone then (s.mark s!"2>&{d}", rest) else (s.add (.char c), cs)
      | '2', '>' :: rest =>
          if s.word.isNone then (s.mark "2>", rest) else (s.add (.char c), cs)
      | '>', rest => (s.mark ">", rest)
      | '<', '&' :: '-' :: rest => (s.mark "<&-", rest)
      | '0', '<' :: rest =>
          if s.word.isNone then (s, '<' :: rest) else (s.add (.char c), cs)
      | '<', rest => (s.mark "<", rest)
      | '|', rest => (s.mark "|", rest)
      | '&', rest => (s.mark "&", rest)
      | ';', rest => (s.mark ";", rest)
      | '\n', rest => (s.mark ";", rest)
      | c, cs => if c = ' ' ∨ c = '\t' then (s.endWord, cs) else (s.add (.char c), cs)

def lex : Nat → Lexer → List Char → List Token
  | 0, s, _ => s.endWord.tokens.reverse
  | _, s, [] => s.endWord.tokens.reverse
  | fuel + 1, s, cs =>
      let (s, rest) := lexStep s cs
      lex fuel s rest

def tokens (script : List Char) : List Token :=
  lex script.length ⟨[], none, .bare⟩ script

-- What a script is called with.
structure Parameters where
  name : String
  arguments : List String

-- The number that stands for the process itself.
def processNumber : String := "4242"

def Parameters.value (p : Parameters) (status : Nat) (c : Char) : String :=
  match c with
  | '$' => processNumber
  | '#' => toString p.arguments.length
  | '?' => toString status
  | '0' => p.name
  | '@' | '*' => " ".intercalate p.arguments
  | c => (p.arguments.drop (c.toNat - '1'.toNat)).headD ""

-- The fields of a word so far: those that are done, in reverse, and the one that is being made, in
-- reverse as well.
structure Fields where
  finished : List String
  current : Option (List Char)

namespace Fields

def push (f : Fields) (c : Char) : Fields := { f with current := some (c :: f.current.getD []) }

def touch (f : Fields) : Fields := { f with current := some (f.current.getD []) }

def split (f : Fields) : Fields :=
  match f.current with
  | some cs => ⟨String.ofList cs.reverse :: f.finished, none⟩
  | none => f

-- Every argument is a field of its own; the first and the last one join what is around them.
def pushArguments (f : Fields) : List String → Fields
  | [] => f
  | [last] => last.toList.foldl push f.touch
  | first :: rest => (first.toList.foldl push f.touch).split.pushArguments rest

def pushPiece (p : Parameters) (status : Nat) (f : Fields) : Piece → Fields
  | .char c => f.push c
  | .quotes => f.touch
  | .parameter '@' true =>
      if p.arguments = [] ∧ f.current = some [] then { f with current := none }
      else f.pushArguments p.arguments
  | .parameter c true => (p.value status c).toList.foldl push f
  | .parameter c false => (p.value status c).toList.foldl
      (fun f x => if x = ' ' ∨ x = '\t' ∨ x = '\n' then f.split else f.push x) f

end Fields

def expand (p : Parameters) (status : Nat) (pieces : List Piece) : List String :=
  (pieces.foldl (Fields.pushPiece p status) ⟨[], none⟩).split.finished.reverse

inductive Redirection where
  | outToErr
  | errToOut
  | outToNowhere
  | errToNowhere
  | inFromNowhere
deriving DecidableEq

structure Command where
  words : List (List Piece)
  redirections : List Redirection

-- When a pipeline is run.
inductive Condition where
  | always
  | afterSuccess
  | afterFailure
deriving DecidableEq

structure Pipeline where
  condition : Condition
  commands : List Command
  -- It runs beside what follows, which does not wait for it.
  isBackground : Bool

def redirection? : List Token → Option (Redirection × List Token)
  | .mark ">&2" :: ts => some (.outToErr, ts)
  | .mark "2>&1" :: ts => some (.errToOut, ts)
  | .mark ">" :: .word _ :: ts => some (.outToNowhere, ts)
  | .mark "2>" :: .word _ :: ts => some (.errToNowhere, ts)
  | .mark "<" :: .word _ :: ts | .mark "<&-" :: ts => some (.inFromNowhere, ts)
  | _ => none

-- Reads a command up to a mark that ends it.
def readCommand : Nat → Command → List Token → Command × List Token
  | 0, c, ts => (c, ts)
  | fuel + 1, c, ts => match redirection? ts, ts with
    | some (r, rest), _ => readCommand fuel { c with redirections := c.redirections ++ [r] } rest
    | none, .word pieces :: rest => readCommand fuel { c with words := c.words ++ [pieces] } rest
    | none, ts => (c, ts)

def readPipeline : Nat → List Token → List Command × List Token
  | 0, ts => ([], ts)
  | fuel + 1, ts =>
      let (command, rest) := readCommand (ts.length + 1) ⟨[], []⟩ ts
      match rest with
      | .mark "|" :: rest =>
          let (commands, rest) := readPipeline fuel rest
          (command :: commands, rest)
      | rest => ([command], rest)

def readList : Nat → Condition → List Token → List Pipeline
  | 0, _, _ | _, _, [] => []
  | fuel + 1, condition, ts =>
      let (commands, rest) := readPipeline (ts.length + 1) ts
      let next (following : Condition) (background : Bool) (rest : List Token) :=
        ⟨condition, commands, background⟩ :: readList fuel following rest
      match rest with
      | .mark "&&" :: rest => next .afterSuccess false rest
      | .mark "||" :: rest => next .afterFailure false rest
      | .mark "&" :: rest => next .always true rest
      | _ :: rest => next .always false rest
      | [] => [⟨condition, commands, false⟩]

def pipelines (script : List Char) : List Pipeline :=
  let ts := tokens script
  readList (ts.length + 1) .always ts

-- Ends the shell by a signal, unless it is the one that only asks.
def kill (c : Console) : List String → Console
  | [] => c.withStatus 2
  | "-0" :: _ => c.withStatus 0
  | arguments =>
      if arguments.getLast? = some processNumber then { c with ended := some none }
      else c.withStatus 1

-- Ends the shell with a code, or with the status of the last command.
def leave (c : Console) : Option String → Console
  | none => c.exit c.status
  | some text => match number? text.toList with
    | some code => c.exit code
    | none => (c.complain s!"sh: 1: exit: Illegal number: {text}\n").exit 2

def runWords (c : Console) : Nat → List String → Console
  | 0, _ => c
  | _, [] => c.withStatus 0
  | fuel + 1, name :: arguments =>
      if name = "exit" then leave c arguments.head?
      else if name = ":" then c.withStatus 0
      else if name = "kill" then kill c arguments
      else if name = "exec" then
        if arguments = [] then c.withStatus 0
        else
          let c := runWords c fuel arguments
          if c.ended.isSome then c else c.exit c.status
      else if programNames.contains name ∧ name ≠ "sh" then runSimple c name arguments
      else (c.complain s!"sh: 1: {name}: not found\n").withStatus 127

-- Where each output goes in the end.
inductive Target where
  | stdout
  | stderr
  | nowhere
deriving DecidableEq

structure Targets where
  out : Target
  err : Target

def Targets.redirect (t : Targets) : Redirection → Targets
  | .outToErr => { t with out := t.err }
  | .errToOut => { t with err := t.out }
  | .outToNowhere => { t with out := .nowhere }
  | .errToNowhere => { t with err := .nowhere }
  | .inFromNowhere => t

-- The bytes, in reverse, that reach a target.
def reaching (target : Target) (t : Targets) (stdout stderr : Bytes) : Bytes :=
  (if t.err = target then stderr else []) ++ (if t.out = target then stdout else [])

def runCommand (p : Parameters) (c : Console) (command : Command) : Console :=
  let words := command.words.flatMap (expand p c.status)
  let input := if command.redirections.contains .inFromNowhere then [] else c.input
  let d := runWords { c with input := input, stdout := [], stderr := [] } (words.length + 1) words
  let targets := command.redirections.foldl Targets.redirect ⟨.stdout, .stderr⟩
  { d with
    input := if command.redirections.contains .inFromNowhere then c.input else d.input
    stdout := reaching .stdout targets d.stdout d.stderr ++ c.stdout
    stderr := reaching .stderr targets d.stdout d.stderr ++ c.stderr }

-- In a pipeline every command but the last runs in a shell of its own, and feeds the next.
def runCommands (p : Parameters) (c : Console) : List Command → Console
  | [] => c
  | [command] => runCommand p c command
  | command :: rest =>
      let d := runCommand p { c with stdout := [] } command
      let e := runCommands p
        { d with input := d.stdout.reverse, stdout := [], ended := none } rest
      { e with input := [], stdout := e.stdout ++ c.stdout, ended := c.ended }

def Condition.holds (status : Nat) : Condition → Bool
  | .always => true
  | .afterSuccess => status = 0
  | .afterFailure => status ≠ 0

def runPipeline (p : Parameters) (c : Console) (l : Pipeline) : Console :=
  if c.ended.isSome || !l.condition.holds c.status then c
  else if l.commands.all (fun command => command.words.isEmpty && command.redirections.isEmpty) then c
  else
    let d := runCommands p c l.commands
    if l.isBackground then { d with time := c.time, status := 0, ended := c.ended } else d

def runScript (p : Parameters) (c : Console) (script : List Char) : Console :=
  (pipelines script).foldl (runPipeline p) c

-- The shell as a program: a script as an argument, or as its input.
def run (input : Bytes) : List String → Console
  | "-c" :: script :: arguments =>
      runScript ⟨arguments.headD "sh", arguments.drop 1⟩ (Console.start input) script.toList
  | [] => runScript ⟨"sh", []⟩ (Console.start []) (Utf8.lossy input).toList
  | ["-c"] => ((Console.start input).complain "sh: 0: -c requires an argument\n").exit 2
  | file :: _ =>
      ((Console.start input).complain s!"sh: 0: cannot open {file}: No such file\n").exit 2

end ExternalParser.Simulation.Shell
