import ExternalParser.Kind
import ExternalParser.Text.Blank

namespace ExternalParser

-- Why a description is no grammar.
inductive GrammarFlaw where
  | unknownStatement (kind grammar : String)
  | unknownTrivia (token grammar : String)
  | emptyTerminator (grammar : String)
deriving DecidableEq

def GrammarFlaw.message : GrammarFlaw → String
  | .unknownStatement kind grammar =>
      s!"statement kind '{kind}' is not a node kind of grammar '{grammar}'"
  | .unknownTrivia token grammar =>
      s!"trivia token '{token}' is not a token kind of grammar '{grammar}'"
  | .emptyTerminator grammar => s!"grammar '{grammar}' has an empty statement terminator"

-- The kinds that a parser can report, what a statement is, and what makes a fragment a text that parses
-- by itself.
structure Grammar where
  name : String
  nodeKinds : KindTable
  tokenKinds : KindTable
  statementKind : Nat
  -- What is put before a fragment.
  opening : String
  -- What ends a statement.
  terminator : String
  -- Token kinds, each at most once.
  trivia : List Nat
deriving DecidableEq

-- A grammar as a document describes it, with names where the grammar has kinds.
structure GrammarSketch where
  name : String
  nodeKinds : KindTable
  tokenKinds : KindTable
  statement : String
  opening : String
  terminator : String
  trivia : List String
deriving DecidableEq

namespace Grammar

def defaultTerminator : String := ";\n"

def nodeKindName? (g : Grammar) (kind : Nat) : Option String :=
  g.nodeKinds.name? kind

def tokenKindName? (g : Grammar) (kind : Nat) : Option String :=
  g.tokenKinds.name? kind

def nodeKind? (g : Grammar) (name : String) : Option Nat :=
  g.nodeKinds.id? name

def tokenKind? (g : Grammar) (name : String) : Option Nat :=
  g.tokenKinds.id? name

def isTrivia (g : Grammar) (kind : Nat) : Bool :=
  g.trivia.contains kind

-- The token kinds of a list of names, or the first name that is none.
def triviaKinds (grammar : String) (kinds : KindTable) (names : List String) :
    Except GrammarFlaw (List Nat) :=
  names.mapM fun name => match kinds.id? name with
    | some kind => .ok kind
    | none => .error (.unknownTrivia name grammar)

-- The grammar of a sketch. The statement is looked up first, then the trivia, and the terminator is
-- checked last.
def ofSketch (s : GrammarSketch) : Except GrammarFlaw Grammar := do
  let statement ← match s.nodeKinds.id? s.statement with
    | some kind => .ok kind
    | none => .error (.unknownStatement s.statement s.name)
  let trivia ← triviaKinds s.name s.tokenKinds s.trivia
  if s.terminator = "" then throw (.emptyTerminator s.name)
  return ⟨s.name, s.nodeKinds, s.tokenKinds, statement, s.opening, s.terminator, trivia.eraseDups⟩

-- A grammar with nothing before a fragment, the usual terminator and no trivia.
def new (name : String) (nodeKinds tokenKinds : KindTable) (statement : String) :
    Except GrammarFlaw Grammar :=
  ofSketch ⟨name, nodeKinds, tokenKinds, statement, "", defaultTerminator, []⟩

def withOpening (g : Grammar) (opening : String) : Grammar :=
  { g with opening := opening }

def withTerminator (g : Grammar) (terminator : String) : Except GrammarFlaw Grammar :=
  if terminator = "" then .error (.emptyTerminator g.name)
  else .ok { g with terminator := terminator }

-- Marks one more token kind.
def addTrivia (g : Grammar) (name : String) : Except GrammarFlaw Grammar :=
  match g.tokenKind? name with
  | some kind => .ok { g with trivia := if g.isTrivia kind then g.trivia else g.trivia ++ [kind] }
  | none => .error (.unknownTrivia name g.name)

def withTrivia (g : Grammar) (names : List String) : Except GrammarFlaw Grammar :=
  names.foldlM addTrivia g

-- The part of the terminator that shows.
def visibleTerminator (g : Grammar) : List Char :=
  Text.trim g.terminator.toList

-- Turns a fragment into a text that parses by itself: the blanks at its end go, then the copies of
-- the visible terminator before them, and one opening and one terminator are put around it.
def wrap (g : Grammar) (fragment : String) : String :=
  let body := Text.dropEndCopies g.visibleTerminator (Text.trimEnd fragment.toList)
  g.opening ++ String.ofList body ++ g.terminator

end Grammar

end ExternalParser
