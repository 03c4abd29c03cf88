import ExternalParser.Yaml.Character

namespace ExternalParser.Yaml

structure Cursor where
  rest : List Char
  index : Nat
  line : Nat
  column : Nat
deriving DecidableEq

namespace Cursor

def start (text : List Char) : Cursor := ⟨text, 0, 0, 0⟩

def head? (c : Cursor) : Option Char := c.rest.head?

def at? (c : Cursor) (p : Char → Bool) : Bool := c.rest.head?.any p

-- Passes `n` characters of a line.
def skip (c : Cursor) (n : Nat) : Cursor :=
  ⟨c.rest.drop n, c.index + n, c.line, c.column + n⟩

-- Passes the characters of a line that satisfy `p`.
def skipWhile (c : Cursor) (p : Char → Bool) : Cursor :=
  c.skip (c.rest.takeWhile p).length

-- Passes a line break, a carriage return and a line feed being one, and gives what it reads as.
def newline? (c : Cursor) : Option (Char × Cursor) :=
  match c.rest with
  | [] => none
  | '\r' :: '\n' :: rest => some ('\n', ⟨rest, c.index + 2, c.line + 1, 0⟩)
  | b :: rest =>
      if isBreak b then
        some (if isSeparator b then b else '\n', ⟨rest, c.index + 1, c.line + 1, 0⟩)
      else none

def skipNewline (c : Cursor) : Cursor :=
  (c.newline?.map (·.2)).getD c

-- Passes a comment, up to the end of its line.
def skipComment (c : Cursor) : Cursor :=
  if c.head? = some '#' then c.skipWhile (!isBreak ·) else c

-- Passes the rest of a line, on which nothing but a comment may stand.
def endLine? (c : Cursor) : Option Cursor :=
  let d := (c.skipWhile isSpace).skipComment
  if d.rest = [] ∨ d.at? isBreak then some d.skipNewline else none

-- Three marks at the beginning of a line, and nothing else in their word.
def atMarks (c : Cursor) (mark : Char) : Bool :=
  c.column = 0 && c.rest.take 3 = [mark, mark, mark] && endsWord (c.rest.drop 3)

-- The line begins or ends a document.
def atDocumentMark (c : Cursor) : Bool :=
  c.atMarks '-' || c.atMarks '.'

end Cursor

end ExternalParser.Yaml
