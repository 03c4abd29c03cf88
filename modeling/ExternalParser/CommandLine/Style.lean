namespace ExternalParser.CommandLine

-- The variables of the environment.
abbrev Environment := List (String × String)

def Environment.get? (env : Environment) (name : String) : Option String :=
  env.lookup name

-- The output is no terminal, so colours are shown only where they are forced.
def showsColours (env : Environment) : Bool :=
  (env.get? "CLICOLOR_FORCE").any (· ≠ "0")

inductive Paint where
  | heading
  | strong
  | alarm
  | good
  | bad
  | dim
deriving DecidableEq

def Paint.codes : Paint → String
  | .heading => "1;36"
  | .strong => "1;37"
  | .alarm => "1;31"
  | .good => "32"
  | .bad => "31"
  | .dim => "2"

def Paint.start (p : Paint) : List Char :=
  '\x1B' :: '[' :: (p.codes.toList ++ ['m'])

-- What ends every paint.
def unpaint : List Char := ['\x1B', '[', '0', 'm']

-- Begins anew after every place where the text itself ends a paint.
def renew (start : List Char) : List Char → List Char
  | '\x1B' :: '[' :: '0' :: 'm' :: rest => unpaint ++ start ++ renew start rest
  | c :: rest => c :: renew start rest
  | [] => []

-- A painted text where colours are shown.
def Paint.apply (p : Paint) (shown : Bool) (text : String) : String :=
  if shown then String.ofList (p.start ++ renew p.start text.toList ++ unpaint) else text

-- The segments that a line of a drawing begins with.
structure Connectors where
  branch : String
  corner : String
  pipe : String
  blank : String
deriving DecidableEq

def Connectors.boxes : Connectors := ⟨"├── ", "└── ", "│   ", "    "⟩

def Connectors.ascii : Connectors := ⟨"|-- ", "`-- ", "|   ", "    "⟩

structure Style where
  connectors : Connectors
  colours : Bool
deriving DecidableEq

def lowerText (s : String) : String :=
  String.ofList (s.toList.map Char.toLower)

-- Drawings are in plain characters if the environment says so, and have no colours if it says so.
def Style.ofEnvironment (env : Environment) : Style :=
  let plain := (env.get? "ASTBRIDGE_ASCII").any fun v => v = "1" || lowerText v = "true"
  ⟨if plain then .ascii else .boxes, showsColours env && (env.get? "NO_COLOR").isNone⟩

namespace Style

def nodeKind (s : Style) (text : String) : String :=
  Paint.heading.apply s.colours text

def tokenKind (s : Style) (text : String) : String :=
  Paint.good.apply s.colours text

def muted (s : Style) (text : String) : String :=
  Paint.dim.apply s.colours text

end Style

-- Fills a text with blanks on its left.
def padLeft (width : Nat) (text : String) : String :=
  String.ofList (List.replicate (width - text.length) ' ') ++ text

end ExternalParser.CommandLine
