import ExternalParser.Yaml.Block
import ExternalParser.Yaml.Plain
import ExternalParser.Yaml.Property
import ExternalParser.Yaml.Quoted

namespace ExternalParser.Yaml

-- A place where a key may have begun.
structure PendingKey where
  -- Nothing but a key may stand here.
  required : Bool
  -- How many tokens come before it.
  position : Nat
  index : Nat
  line : Nat
  column : Nat
deriving DecidableEq

-- A margin is one more than the column that a block begins in, and 0 outside of all blocks.
structure Lexer where
  cursor : Cursor
  -- In reverse.
  tokens : List Token
  count : Nat
  margin : Nat
  margins : List Nat
  keyAllowed : Bool
  pending : Option PendingKey
  -- Those of the collections around this one, the innermost first.
  outer : List (Option PendingKey)

namespace Lexer

def start (text : List Char) : Lexer :=
  ⟨Cursor.start text, [], 0, 0, [], true, none, []⟩

def inFlow (s : Lexer) : Bool := !s.outer.isEmpty

def push (s : Lexer) (t : Token) : Lexer :=
  { s with tokens := t :: s.tokens, count := s.count + 1 }

-- Puts a token at a place that was passed.
def insert (s : Lexer) (position : Nat) (t : Token) : Lexer :=
  let after := s.count - position
  { s with tokens := s.tokens.take after ++ t :: s.tokens.drop after, count := s.count + 1 }

def skip (s : Lexer) (n : Nat) : Lexer :=
  { s with cursor := s.cursor.skip n }

-- Gives up a place where a key may have begun, unless it has to be one.
def PendingKey.drop? : Option PendingKey → Option (Option PendingKey)
  | some key => if key.required then none else some none
  | none => some none

def dropKey (s : Lexer) : Option Lexer := do
  return { s with pending := ← PendingKey.drop? s.pending }

-- A key ends on its line and has at most 1024 characters.
def isStale (c : Cursor) (key : PendingKey) : Bool :=
  key.line < c.line || key.index + 1024 < c.index

def dropIfStale (c : Cursor) (key : Option PendingKey) : Option (Option PendingKey) :=
  if key.any (isStale c) then PendingKey.drop? key else some key

def dropStaleKeys (s : Lexer) : Option Lexer := do
  return { s with
    pending := ← dropIfStale s.cursor s.pending
    outer := ← s.outer.mapM (dropIfStale s.cursor) }

-- Notes that a key may begin here.
def noteKey (s : Lexer) : Option Lexer := do
  if !s.keyAllowed then return s
  let c := s.cursor
  let key : PendingKey :=
    ⟨!s.inFlow && s.margin = c.column + 1, s.count, c.index, c.line, c.column⟩
  return { ← s.dropKey with pending := some key }

-- Opens a block at a column that is not left of the margin. The token goes to the end, or to the
-- given place.
def openBlock (s : Lexer) (column : Nat) (position : Nat) (t : Token) : Lexer :=
  if s.inFlow || column < s.margin then s
  else { s.insert position t with margin := column + 1, margins := s.margin :: s.margins }

-- Closes the blocks to the right of a margin.
def closeBlocks (s : Lexer) (margin : Nat) : Lexer :=
  if s.inFlow then s else close s s.margins
where
  close (s : Lexer) : List Nat → Lexer
    | [] => s
    | previous :: rest =>
        if s.margin ≤ margin then s
        else close { s.push .blockEnd with margin := previous, margins := rest } rest

-- Passes blanks, comments and line breaks. Where a key may begin outside of the flow collections,
-- tabs are no blanks.
def skipBlanks : Nat → Lexer → Lexer
  | 0, s => s
  | fuel + 1, s =>
      let c := if s.cursor.index = 0 ∧ s.cursor.head? = some '\uFEFF' then s.cursor.skip 1
        else s.cursor
      let tabs := s.inFlow || !s.keyAllowed
      let c := (c.skipWhile fun x => x = ' ' || tabs && x = '\t').skipComment
      match c.newline? with
      | some (_, d) =>
          skipBlanks fuel { s with cursor := d, keyAllowed := s.keyAllowed || !s.inFlow }
      | none => { s with cursor := c }

-- The beginning or end of a document, or the end of the text, closes all blocks.
def closeDocument (s : Lexer) : Option Lexer := do
  return { ← (s.closeBlocks 0).dropKey with keyAllowed := false }

def readDirective (fuel : Nat) (s : Lexer) : Option Lexer := do
  let s ← s.closeDocument
  let (token, c) ← Property.readDirective fuel s.cursor
  return { s.push token with cursor := c }

def readDocumentMark (s : Lexer) (t : Token) : Option Lexer := do
  return ((← s.closeDocument).push t).skip 3

def openFlow (s : Lexer) (t : Token) : Option Lexer := do
  let s ← s.noteKey
  return { (s.push t).skip 1 with
    keyAllowed := true
    pending := none
    outer := s.pending :: s.outer }

def closeFlow (s : Lexer) (t : Token) : Option Lexer := do
  let s ← s.dropKey
  return { (s.push t).skip 1 with
    keyAllowed := false
    pending := s.outer.headD s.pending
    outer := s.outer.drop 1 }

def readComma (s : Lexer) : Option Lexer := do
  return { ((← s.dropKey).push .comma).skip 1 with keyAllowed := true }

-- Outside of the flow collections, a mark opens a block, and needs a place where one may begin.
def openMarkedBlock (s : Lexer) (t : Token) : Option Lexer :=
  if s.inFlow then some s
  else if s.keyAllowed then some (s.openBlock s.cursor.column s.count t)
  else none

def readEntry (s : Lexer) : Option Lexer := do
  let s ← (← s.openMarkedBlock .blockSequence).dropKey
  return { (s.push .entry).skip 1 with keyAllowed := true }

def readKey (s : Lexer) : Option Lexer := do
  let s ← (← s.openMarkedBlock .blockMapping).dropKey
  return { (s.push .key).skip 1 with keyAllowed := !s.inFlow }

-- A colon after a place where a key may have begun says that one did.
def readValue (s : Lexer) : Option Lexer := do
  match s.pending with
  | some key =>
      let s := (s.insert key.position .key).openBlock key.column key.position .blockMapping
      return { (s.push .value).skip 1 with keyAllowed := false, pending := none }
  | none =>
      let s ← s.openMarkedBlock .blockMapping
      return { (s.push .value).skip 1 with keyAllowed := !s.inFlow }

def readAnchor (s : Lexer) (make : String → Token) : Option Lexer := do
  let s ← s.noteKey
  let (name, c) ← Property.readAnchor s.cursor
  return { s.push (make name) with cursor := c, keyAllowed := false }

def readTag (fuel : Nat) (s : Lexer) : Option Lexer := do
  let s ← s.noteKey
  let (token, c) ← Property.readTag s.inFlow fuel s.cursor
  return { s.push token with cursor := c, keyAllowed := false }

def readBlockScalar (fuel : Nat) (s : Lexer) (style : Style) : Option Lexer := do
  let s ← s.dropKey
  let (text, c) ← Block.read s.margin fuel s.cursor
  return { s.push (.scalar text style) with cursor := c, keyAllowed := true }

def readQuoted (fuel : Nat) (s : Lexer) (quote : Char) (style : Style) : Option Lexer := do
  let s ← s.noteKey
  let (text, c) ← Quoted.read quote fuel s.cursor
  return { s.push (.scalar text style) with cursor := c, keyAllowed := false }

-- A plain scalar that ends with a line leaves a place where a key may begin.
def readPlain (fuel : Nat) (s : Lexer) : Option Lexer := do
  let s ← s.noteKey
  let (text, broken, c) ← Plain.read s.inFlow s.margin fuel s.cursor
  return { s.push (.scalar text .plain) with cursor := c, keyAllowed := broken }

-- Reads the token that begins with `x`, the next character.
def readToken (fuel : Nat) (s : Lexer) (x : Char) : Option Lexer :=
  let apart := endsWord (s.cursor.rest.drop 1)
  if s.cursor.column = 0 && x = '%' then s.readDirective fuel
  else if s.cursor.atMarks '-' then s.readDocumentMark .documentStart
  else if s.cursor.atMarks '.' then s.readDocumentMark .documentEnd
  else if x = '[' then s.openFlow .flowSequence
  else if x = '\x7b' then s.openFlow .flowMapping
  else if x = ']' then s.closeFlow .flowSequenceEnd
  else if x = '\x7d' then s.closeFlow .flowMappingEnd
  else if x = ',' then s.readComma
  else if x = '-' && apart then s.readEntry
  else if x = '?' && (s.inFlow || apart) then s.readKey
  else if x = ':' && (s.inFlow || apart) then s.readValue
  else if x = '*' then s.readAnchor .alias
  else if x = '&' then s.readAnchor .anchor
  else if x = '!' then s.readTag fuel
  else if x = '|' && !s.inFlow then s.readBlockScalar fuel .literal
  else if x = '>' && !s.inFlow then s.readBlockScalar fuel .folded
  else if x = '\'' then s.readQuoted fuel x .singleQuoted
  else if x = '"' then s.readQuoted fuel x .doubleQuoted
  else if Plain.begins s.inFlow s.cursor then s.readPlain fuel
  else none

-- Reads all tokens. `size` is more than any part of the text is long.
def readAll (size : Nat) : Nat → Lexer → Option (List Token)
  | 0, _ => none
  | fuel + 1, s => do
      let s ← (skipBlanks size s).dropStaleKeys
      let s := s.closeBlocks (s.cursor.column + 1)
      match s.cursor.head? with
      | some x => readAll size fuel (← readToken size s x)
      | none => return (← s.closeDocument).tokens.reverse

end Lexer

-- The tokens of a text, unless a character or a token of it is not allowed. One byte order mark may
-- come first.
def tokens? (text : String) : Option (List Token) :=
  let cs := text.toList
  let cs := if cs.head? = some '\uFEFF' then cs.drop 1 else cs
  if cs.all isAllowed then Lexer.readAll (cs.length + 2) (cs.length + 2) (Lexer.start cs) else none

end ExternalParser.Yaml
