import ExternalParser.Json.Lexer
import ExternalParser.Json.Reader
import ExternalParser.Record.Basic

namespace ExternalParser

open Json

namespace TokenRecord

def structName : String := "struct TokenRecord"

def tupleName : String := "struct TokenRecord with 3 elements"

def readKind (e : Ending) (ts : List Token) : Except Fault (Nat × List Token) :=
  readNatural maxHalfWord "u32" e ts

def readOffset (e : Ending) (ts : List Token) : Except Fault (Nat × List Token) :=
  readNatural maxWord "usize" e ts

-- The fields read so far.
structure Draft where
  kind : Option Nat
  value : Option String
  offset : Option Nat

def readField (e : Ending) (d : Draft) (name : String) (ts : List Token) :
    Except Fault (Draft × List Token) := do
  if name = "kind" then
    let (kind, ts) ← readOnce d.kind name (readKind e) e ts
    return ({ d with kind := kind }, ts)
  else if name = "value" then
    let (value, ts) ← readOnce d.value name (readText e) e ts
    return ({ d with value := value }, ts)
  else if name = "offset" then
    let (offset, ts) ← readOnce d.offset name (readOffset e) e ts
    return ({ d with offset := offset }, ts)
  else
    return (d, ← skipField e ts)

-- The first missing field, in the order of declaration, is the one reported.
def ofDraft (d : Draft) : Except Fault TokenRecord := do
  return ⟨← required d.kind "kind", ← required d.value "value", ← required d.offset "offset"⟩

def read (e : Ending) : List Token → Except Fault (TokenRecord × List Token)
  | [] => .error (e.atValue .keep)
  | .openBrace :: ts => do
      let (d, ts) ← readFields (readField e) e (ts.length + 1) true ⟨none, none, none⟩ ts
      return (← ofDraft d, ts)
  | .openBracket :: ts => do
      let (kind, ts) ← readPosition (readKind e) 0 tupleName e ts
      let (value, ts) ← readPosition (readText e) 1 tupleName e ts
      let (offset, ts) ← readPosition (readOffset e) 2 tupleName e ts
      return (⟨kind, value, offset⟩, ← endItems e ts)
  | t :: _ => .error (t.refuse structName)

end TokenRecord

namespace ParseRecord

def structName : String := "struct RawParseResult"

def tupleName : String := "struct RawParseResult with 2 elements"

def readStream (e : Ending) (ts : List Token) : Except Fault (List TokenRecord × List Token) :=
  readArray (TokenRecord.read e) e ts

-- The fields read so far. The tree is any value at first.
structure Draft where
  tree : Option Value
  stream : Option (List TokenRecord)

def readField (e : Ending) (d : Draft) (name : String) (ts : List Token) :
    Except Fault (Draft × List Token) := do
  if name = "tree" then
    let (tree, ts) ← readOnce d.tree name (readValue e) e ts
    return ({ d with tree := tree }, ts)
  else if name = "stream" then
    let (stream, ts) ← readOnce d.stream name (readStream e) e ts
    return ({ d with stream := stream }, ts)
  else
    return (d, ← skipField e ts)

-- The tree as it was reported, and the stream.
def readRaw (e : Ending) : List Token → Except Fault ((Value × List TokenRecord) × List Token)
  | [] => .error (e.atValue .keep)
  | .openBrace :: ts => do
      let (d, ts) ← readFields (readField e) e (ts.length + 1) true ⟨none, none⟩ ts
      return ((← required d.tree "tree", ← required d.stream "stream"), ts)
  | .openBracket :: ts => do
      let (tree, ts) ← readPosition (readValue e) 0 tupleName e ts
      let (stream, ts) ← readPosition (readStream e) 1 tupleName e ts
      return ((tree, stream), ← endItems e ts)
  | t :: _ => .error (t.refuse structName)

-- Decodes the parser's output. Whether the tree is a node is asked once the text has been read to
-- its end.
def decode (bs : Bytes) : Except Fault ParseRecord := do
  let (ts, e) := tokens bs
  let ((tree, stream), ts) ← readRaw e ts
  readEnd e ts
  match NodeRecord.ofValue? tree with
  | some root => return ⟨root, stream⟩
  | none => throw .noTree

end ParseRecord

namespace Json

def dialect : Dialect := ⟨"null", Decimal.Layout.json⟩

-- The wording of a fault. That of a text that is no JSON is free.
def Fault.message : Fault → String
  | .truncated => "EOF while parsing a value"
  | .malformed => "malformed JSON"
  | .mismatch m => m.message dialect
  | .noTree => "`tree` is not a node record with a numeric `kind`"

end Json

end ExternalParser
