import ExternalParser.Yaml.Cursor
import ExternalParser.Yaml.Token

namespace ExternalParser.Yaml.Property

-- The word that begins here.
def readName (c : Cursor) : String × Cursor :=
  let name := c.rest.takeWhile isWord
  (String.ofList name, c.skip name.length)

-- What may stand right after an anchor.
def endsAnchor (rest : List Char) : Bool :=
  endsWord rest || rest.head?.any "?:,]\x7d%@`".toList.contains

-- Reads the name of an anchor or alias from its mark on.
def readAnchor (c : Cursor) : Option (String × Cursor) :=
  let (name, d) := readName (c.skip 1)
  if name ≠ "" ∧ endsAnchor d.rest then some (name, d) else none

-- The characters of a tag. Flow marks are among them where the end of the tag is marked.
def isTagCharacter (marked : Bool) (c : Char) : Bool :=
  isWord c || ";/?:@&=+$.%!~*'()".toList.contains c || marked && ",[]".toList.contains c

def readOctet (c : Cursor) : Option (Nat × Cursor) :=
  match c.rest with
  | '%' :: a :: b :: _ => (hexValue? [a, b]).map (·, c.skip 3)
  | _ => none

-- How many octets a character has whose first one this is.
def octetCount? (first : Nat) : Option Nat :=
  if first < 0x80 then some 1
  else if first / 0x20 = 0x6 then some 2
  else if first / 0x10 = 0xE then some 3
  else if first / 0x8 = 0x1E then some 4
  else none

-- Reads `count` more octets of a character.
def readTrailing : Nat → Cursor → Option (Bytes × Cursor)
  | 0, c => some ([], c)
  | count + 1, c => do
      let (octet, c) ← readOctet c
      if octet / 0x40 ≠ 2 then none
      let (octets, c) ← readTrailing count c
      return (octet.toUInt8 :: octets, c)

-- Reads the escapes of one character.
def readEscape (c : Cursor) : Option (Bytes × Cursor) := do
  let (first, c) ← readOctet c
  let count ← octetCount? first
  let (octets, c) ← readTrailing (count - 1) c
  return (first.toUInt8 :: octets, c)

-- Reads tag characters, and adds them to those read, which are in reverse.
def readTagText (marked : Bool) : Nat → Bytes → Cursor → Option (Bytes × Cursor)
  | 0, _, _ => none
  | fuel + 1, read, c => match c.head? with
    | some x =>
        if x = '%' then do
          let (octets, d) ← readEscape c
          readTagText marked fuel (octets.reverse ++ read) d
        else if isTagCharacter marked x then
          readTagText marked fuel (x.toNat.toUInt8 :: read) (c.skip 1)
        else some (read.reverse, c)
    | none => some (read.reverse, c)

-- The same where at least one character is wanted.
def readTagName (marked : Bool) (fuel : Nat) (c : Cursor) : Option (Bytes × Cursor) := do
  let (text, d) ← readTagText marked fuel [] c
  if text = [] then none else return (text, d)

-- Reads a handle: a mark, and then a word and a second mark if there is one after the word.
def readHandle (c : Cursor) : Option (String × Cursor) :=
  if c.head? = some '!' then
    let (word, d) := readName (c.skip 1)
    if d.head? = some '!' then some ("!" ++ word ++ "!", d.skip 1) else some ("!" ++ word, d)
  else none

-- Reads a tag from its mark on: a whole one between angle brackets, or a handle and a suffix. A
-- word that no second mark follows is the beginning of a suffix, and the mark alone is a tag of its
-- own.
def readTagToken (fuel : Nat) (c : Cursor) : Option (Token × Cursor) := do
  if c.rest.take 2 = ['!', '<'] then
    let (name, d) ← readTagName true fuel (c.skip 2)
    if d.head? = some '>' then return (.tag "" name, d.skip 1) else none
  else
    let (handle, d) ← readHandle c
    if handle ≠ "!" ∧ handle.toList.getLast? = some '!' then
      let (suffix, e) ← readTagName false fuel d
      return (.tag handle suffix, e)
    else
      let word := Utf8.encode (String.ofList (handle.toList.drop 1))
      let (suffix, e) ← readTagText false fuel word.reverse d
      return (if suffix = [] then .tag "" [0x21] else .tag "!" suffix, e)

-- A tag ends where its word does, or at a comma inside a flow collection.
def readTag (inFlow : Bool) (fuel : Nat) (c : Cursor) : Option (Token × Cursor) := do
  let (token, d) ← readTagToken fuel c
  if inFlow && d.head? = some ',' || endsWord d.rest then return (token, d) else none

-- Reads a number of at most nine digits.
def readNumber (c : Cursor) : Option (Nat × Cursor) :=
  let digits := c.rest.takeWhile Char.isDigit
  if digits = [] ∨ 9 < digits.length then none
  else some (digits.foldl (fun n d => n * 10 + (d.toNat - '0'.toNat)) 0, c.skip digits.length)

def readVersion (c : Cursor) : Option (Token × Cursor) := do
  let (major, c) ← readNumber (c.skipWhile isSpace)
  if c.head? ≠ some '.' then none
  let (minor, c) ← readNumber (c.skip 1)
  return (.version major minor, c)

def readHandleDirective (fuel : Nat) (c : Cursor) : Option (Token × Cursor) := do
  let (handle, c) ← readHandle (c.skipWhile isSpace)
  if handle ≠ "!" ∧ handle.toList.getLast? ≠ some '!' then none
  if !c.at? isSpace then none
  let (expansion, c) ← readTagName true fuel (c.skipWhile isSpace)
  if !endsWord c.rest then none
  return (.handle handle expansion, c)

-- Reads a directive from its mark to the end of its line.
def readDirective (fuel : Nat) (c : Cursor) : Option (Token × Cursor) := do
  let (name, c) := readName (c.skip 1)
  if !endsWord c.rest then none
  let (token, c) ←
    if name = "YAML" then readVersion c
    else if name = "TAG" then readHandleDirective fuel c
    else none
  return (token, ← c.endLine?)

end ExternalParser.Yaml.Property
