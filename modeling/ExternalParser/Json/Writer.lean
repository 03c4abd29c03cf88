import ExternalParser.Json.Value

namespace ExternalParser.Json

def hexPad (n : Nat) : List Char :=
  let ds := Nat.toDigits 16 n
  List.replicate (4 - ds.length) '0' ++ ds

-- Quote, backslash and the characters below the space are escaped, the common ones by a letter.
def escapedChar (c : Char) : List Char :=
  if c = '"' then ['\\', '"']
  else if c = '\\' then ['\\', '\\']
  else if c = '\n' then ['\\', 'n']
  else if c = '\r' then ['\\', 'r']
  else if c = '\t' then ['\\', 't']
  else if c = '\x08' then ['\\', 'b']
  else if c = '\x0c' then ['\\', 'f']
  else if c.toNat < 0x20 then '\\' :: 'u' :: hexPad c.toNat
  else [c]

def writeString (s : String) : List Char :=
  '"' :: (s.toList.flatMap escapedChar ++ ['"'])

def Number.write : Number → List Char
  | .natural n => Nat.toDigits 10 n
  | .negative n => '-' :: Nat.toDigits 10 n
  | .real x => (Decimal.Layout.json.render x).toList

mutual

-- The compact text of a value, in front of `rest`.
def Value.write (rest : List Char) : Value → List Char
  | .null => 'n' :: 'u' :: 'l' :: 'l' :: rest
  | .bool true => 't' :: 'r' :: 'u' :: 'e' :: rest
  | .bool false => 'f' :: 'a' :: 'l' :: 's' :: 'e' :: rest
  | .num n => n.write ++ rest
  | .str s => writeString s ++ rest
  | .arr items => '[' :: writeItems (']' :: rest) items
  | .obj fields => '\x7b' :: writeFields ('\x7d' :: rest) fields

-- Items with commas between them.
def writeItems (rest : List Char) : List Value → List Char
  | [] => rest
  | v :: vs => v.write (writeMoreItems rest vs)

def writeMoreItems (rest : List Char) : List Value → List Char
  | [] => rest
  | v :: vs => ',' :: v.write (writeMoreItems rest vs)

def writeFields (rest : List Char) : List (String × Value) → List Char
  | [] => rest
  | (k, v) :: fs => writeString k ++ ':' :: v.write (writeMoreFields rest fs)

def writeMoreFields (rest : List Char) : List (String × Value) → List Char
  | [] => rest
  | (k, v) :: fs => ',' :: (writeString k ++ ':' :: v.write (writeMoreFields rest fs))

end

def Value.compact (v : Value) : String :=
  String.ofList (v.write [])

def newline (depth : Nat) (rest : List Char) : List Char :=
  '\n' :: (List.replicate (2 * depth) ' ' ++ rest)

mutual

-- The text of a value with each item on a line of its own, two spaces deeper than its container.
def Value.writePretty (depth : Nat) (rest : List Char) : Value → List Char
  | .null => 'n' :: 'u' :: 'l' :: 'l' :: rest
  | .bool true => 't' :: 'r' :: 'u' :: 'e' :: rest
  | .bool false => 'f' :: 'a' :: 'l' :: 's' :: 'e' :: rest
  | .num n => n.write ++ rest
  | .str s => writeString s ++ rest
  | .arr [] => '[' :: ']' :: rest
  | .arr (v :: vs) =>
      '[' :: newline (depth + 1)
        (v.writePretty (depth + 1) (prettyItems (depth + 1) (newline depth (']' :: rest)) vs))
  | .obj [] => '\x7b' :: '\x7d' :: rest
  | .obj ((k, v) :: fs) =>
      '\x7b' :: newline (depth + 1) (writeString k ++ ':' :: ' ' ::
        v.writePretty (depth + 1) (prettyFields (depth + 1) (newline depth ('\x7d' :: rest)) fs))

def prettyItems (depth : Nat) (rest : List Char) : List Value → List Char
  | [] => rest
  | v :: vs => ',' :: newline depth (v.writePretty depth (prettyItems depth rest vs))

def prettyFields (depth : Nat) (rest : List Char) : List (String × Value) → List Char
  | [] => rest
  | (k, v) :: fs =>
      ',' :: newline depth (writeString k ++ ':' :: ' ' ::
        v.writePretty depth (prettyFields depth rest fs))

end

def Value.pretty (v : Value) : String :=
  String.ofList (v.writePretty 0 [])

end ExternalParser.Json
