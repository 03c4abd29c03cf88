import ExternalParser.Config.Load

namespace ExternalParser.CommandLine

inductive Command where
  | tree (file : String) (json : Bool)
  | select (file kind : String)
  | check
  | kinds
deriving DecidableEq

-- What the arguments ask for.
inductive Wish where
  | run (config : String) (command : Command)
  -- The version, under the name of the program or of one of its commands.
  | version (name : String)
  | help
  | unclear
deriving DecidableEq

inductive Key where
  | config
  | verbose
  | help
  | version
  | json
  | kind
  | file
deriving DecidableEq

structure Choice where
  key : Key
  short : Option Char
  long : String
  takesValue : Bool

-- The options that are understood everywhere.
def commonChoices : List Choice :=
  [⟨.config, some 'c', "config", true⟩, ⟨.verbose, some 'v', "verbose", false⟩,
    ⟨.help, some 'h', "help", false⟩, ⟨.version, some 'V', "version", false⟩]

-- What is understood at one level. At most one position is named by a level.
structure Level where
  choices : List Choice
  commands : List String
  position : Option Key

def commandNames : List String := ["tree", "select", "check", "kinds"]

def Level.top : Level := ⟨commonChoices, "help" :: commandNames, none⟩

def Level.ofCommand (name : String) : Level :=
  if name = "tree" then ⟨⟨.json, none, "json", false⟩ :: commonChoices, [], some .file⟩
  else if name = "select" then
    ⟨⟨.kind, some 'k', "kind", true⟩ :: commonChoices, [], some .file⟩
  else ⟨commonChoices, [], none⟩

def Level.short? (l : Level) (c : Char) : Option Choice :=
  l.choices.find? (·.short = some c)

def Level.long? (l : Level) (name : String) : Option Choice :=
  l.choices.find? (·.long = name)

structure Reading where
  settled : List (Key × String)
  -- A choice that waits for its value, or whose value was not looked at.
  pending : Option (Key × Option String)
  -- Only positions follow.
  trailing : Bool

def Reading.start : Reading := ⟨[], none, false⟩

-- How the reading of a level ends.
inductive Ending where
  | all (r : Reading)
  | command (name : String) (rest : List String) (r : Reading)
  | version
  | help
  | unclear

namespace Reading

-- Only a path must not be empty.
def allows (key : Key) (value : String) : Bool :=
  value ≠ "" || key ≠ .config && key ≠ .file

def has (r : Reading) (key : Key) : Bool :=
  r.settled.any (·.1 = key)

def value? (r : Reading) (key : Key) : Option String :=
  r.settled.lookup key

-- Settles a choice, which is made at most once.
def settle (r : Reading) (key : Key) (value : String) : Option Reading :=
  if r.has key || !allows key value then none
  else some { r with settled := (key, value) :: r.settled }

-- Settles what is pending.
def flush (r : Reading) : Option Reading :=
  match r.pending with
  | none => some r
  | some (_, none) => none
  | some (key, some value) => { r with pending := none }.settle key value

def isWaiting (r : Reading) : Bool :=
  r.pending.any (·.2.isNone)

end Reading

-- What a choice leads to: more to be read, or an end.
abbrev Progress := Except Ending Reading

def orUnclear : Option Reading → Progress
  | some r => .ok r
  | none => .error .unclear

-- Makes a choice that has no value. Being talkative may be asked for again and again.
def flag (r : Reading) (key : Key) : Progress := do
  let r ← orUnclear r.flush
  match key with
  | .version => throw .version
  | .help => throw .help
  | .verbose => return r
  | key => orUnclear (r.settle key "")

-- Makes a choice that has its value with it.
def attached (r : Reading) (key : Key) (value : String) : Progress := do
  orUnclear ((← orUnclear r.flush).settle key value)

-- Makes a choice whose value comes next.
def awaiting (r : Reading) (key : Key) : Progress := do
  return { ← orUnclear r.flush with pending := some (key, none) }

def long (l : Level) (r : Reading) (body : List Char) : Progress :=
  let name := String.ofList (body.takeWhile (· ≠ '='))
  let value := match body.dropWhile (· ≠ '=') with
    | _ :: value => some (String.ofList value)
    | [] => none
  match l.long? name, value with
  | none, _ => .error .unclear
  | some choice, some value =>
      if choice.takesValue then attached r choice.key value else .error .unclear
  | some choice, none =>
      if choice.takesValue then awaiting r choice.key else flag r choice.key

-- A cluster of letters. The first one that takes a value takes the rest, without an equals sign.
def shorts (l : Level) (r : Reading) : List Char → Progress
  | [] => .ok r
  | c :: rest => match l.short? c with
    | none => .error .unclear
    | some choice =>
        if choice.takesValue then
          match rest with
          | [] => awaiting r choice.key
          | '=' :: value => attached r choice.key (String.ofList value)
          | value => attached r choice.key (String.ofList value)
        else do shorts l (← flag r choice.key) rest

def position (l : Level) (r : Reading) (argument : String) : Progress := do
  let r ← orUnclear r.flush
  match l.position with
  | none => throw .unclear
  | some key =>
      if r.has key then throw .unclear
      return { r with pending := some (key, some argument) }

-- Reads one argument.
def argument (l : Level) (r : Reading) (a : String) : Progress :=
  if r.trailing then position l r a
  else match a.toList, r.pending with
    | ['-', '-'], _ => .ok { r with trailing := true }
    | '-' :: '-' :: body, _ => long l r body
    | '-' :: c :: rest, _ => shorts l r (c :: rest)
    | _, some (key, none) => .ok { r with pending := some (key, some a) }
    | _, _ => position l r a

-- Reads the arguments of a level up to the name of a command.
def readLevel (l : Level) (r : Reading) : List String → Ending
  | [] => .all r
  | a :: rest =>
      if !r.trailing && !r.isWaiting && l.commands.contains a then .command a rest r
      else match argument l r a with
        | .ok r => readLevel l r rest
        | .error ending => ending

def programName : String := "astbridge"

def commandOf (name : String) (r : Reading) : Option Command :=
  if name = "tree" then (r.value? .file).map (.tree · (r.has .json))
  else if name = "select" then do return .select (← r.value? .file) (← r.value? .kind)
  else if name = "check" then some .check
  else some .kinds

-- A command, after the options in front of it. An option of the command wins over one in front.
def readCommand (outer : Reading) (name : String) (arguments : List String) : Wish :=
  match readLevel (Level.ofCommand name) Reading.start arguments with
  | .version => .version (programName ++ "-" ++ name)
  | .help => .help
  | .unclear | .command _ _ _ => .unclear
  | .all r => match r.flush, outer.flush with
    | some r, some outer => match commandOf name r with
      | some command =>
          .run (((r.value? .config).or (outer.value? .config)).getD Config.defaultFile) command
      | none => .unclear
    | _, _ => .unclear

-- Help may be asked for about one command.
def readHelp : List String → Wish
  | [] => .help
  | [name] => if Level.top.commands.contains name then .help else .unclear
  | _ => .unclear

def readArguments (arguments : List String) : Wish :=
  match readLevel Level.top Reading.start arguments with
  | .command name rest r => if name = "help" then readHelp rest else readCommand r name rest
  | .version => .version programName
  | .help => .help
  | .unclear | .all _ => .unclear

end ExternalParser.CommandLine
