import ExternalParser.Yaml.Gap

namespace ExternalParser.Yaml.Quoted

-- The character that a letter after a backslash stands for.
def escaped? : Char → Option Char
  | '0' => some '\x00'
  | 'a' => some '\x07'
  | 'b' => some '\x08'
  | 't' => some '\t'
  | '\t' => some '\t'
  | 'n' => some '\n'
  | 'v' => some '\x0B'
  | 'f' => some '\x0C'
  | 'r' => some '\r'
  | 'e' => some '\x1B'
  | ' ' => some ' '
  | '"' => some '"'
  | '/' => some '/'
  | '\\' => some '\\'
  | 'N' => some '\u0085'
  | '_' => some '\u00A0'
  | 'L' => some '\u2028'
  | 'P' => some '\u2029'
  | _ => none

-- How many digits follow a letter that begins a numeric escape.
def digits? : Char → Option Nat
  | 'x' => some 2
  | 'u' => some 4
  | 'U' => some 8
  | _ => none

-- The character of a code point.
def scalarValue? (n : Nat) : Option Char :=
  if h : n.isValidChar then some (Char.ofNatAux n h) else none

-- Reads what follows a backslash.
def readEscape (c : Cursor) : Option (Char × Cursor) := do
  let letter ← c.head?
  match escaped? letter with
  | some x => return (x, c.skip 1)
  | none =>
      let count ← digits? letter
      let digits := (c.rest.drop 1).take count
      if digits.length < count then none
      let x ← scalarValue? (← hexValue? digits)
      return (x, c.skip (count + 1))

-- Reads the characters up to the next gap or the closing quote, and adds them to the text, which is
-- in reverse. The answer also says whether an escaped line break was passed.
def readWord (quote : Char) : Nat → List Char → Cursor → Option (List Char × Bool × Cursor)
  | 0, _, _ => none
  | fuel + 1, text, c => match c.rest with
    | [] => some (text, false, c)
    | x :: rest =>
        if isSpace x || isBreak x then some (text, false, c)
        else if quote = '\'' && x = quote && rest.head? = some quote then
          readWord quote fuel (x :: text) (c.skip 2)
        else if x = quote then some (text, false, c)
        else if quote = '"' && x = '\\' then
          if rest.head?.any isBreak then some (text, true, (c.skip 1).skipNewline)
          else do
            let (y, d) ← readEscape (c.skip 1)
            readWord quote fuel (y :: text) d
        else readWord quote fuel (x :: text) (c.skip 1)

def readFrom (quote : Char) : Nat → List Char → Cursor → Option (List Char × Cursor)
  | 0, _, _ => none
  | fuel + 1, text, c =>
      if c.atDocumentMark || c.rest = [] then none
      else do
        let (text, brokenOff, d) ← readWord quote (fuel + 1) text c
        if d.head? = some quote then return (text, d.skip 1)
        let (gap, e) ← (if brokenOff then Gap.escaped else Gap.empty).read 0 (fuel + 1) d
        readFrom quote fuel (gap.reversed ++ text) e

-- Reads a scalar from its first quote on.
def read (quote : Char) (fuel : Nat) (c : Cursor) : Option (String × Cursor) := do
  let (text, d) ← readFrom quote fuel [] (c.skip 1)
  return (String.ofList text.reverse, d)

end ExternalParser.Yaml.Quoted
