namespace ExternalParser.Yaml

def isAllowed (c : Char) : Bool :=
  let n := c.toNat
  n = 0x9 || n = 0xA || n = 0xD || (0x20 ≤ n && n ≤ 0x7E) || n = 0x85 ||
    (0xA0 ≤ n && n ≤ 0xD7FF) || (0xE000 ≤ n && n ≤ 0xFFFD) || 0x10000 ≤ n

def isSpace (c : Char) : Bool :=
  c = ' ' || c = '\t'

-- The two separators of the Unicode standard. Where a line break is kept, they are kept as they
-- are, and every other break becomes a line feed.
def isSeparator (c : Char) : Bool :=
  c = '\u2028' || c = '\u2029'

def isBreak (c : Char) : Bool :=
  c = '\n' || c = '\r' || c = '\u0085' || isSeparator c

-- What anchors, directives and tag handles are made of.
def isWord (c : Char) : Bool :=
  c.isAlphanum || c = '_' || c = '-'

-- The text is over, or a space or a line break comes next.
def endsWord : List Char → Bool
  | [] => true
  | c :: _ => isSpace c || isBreak c

-- The marks that shape flow collections.
def isFlowMark (c : Char) : Bool :=
  c = ',' || c = '[' || c = ']' || c = '\x7b' || c = '\x7d'

-- Characters that begin something other than a plain scalar.
def isIndicator (c : Char) : Bool :=
  isFlowMark c || "-?:#&*!|>'\"%@`".toList.contains c

def hexDigit? (c : Char) : Option Nat :=
  if c.isDigit then some (c.toNat - '0'.toNat)
  else if 'a' ≤ c ∧ c ≤ 'f' then some (c.toNat - 'a'.toNat + 10)
  else if 'A' ≤ c ∧ c ≤ 'F' then some (c.toNat - 'A'.toNat + 10)
  else none

-- The value of a list of hexadecimal digits.
def hexValue? (cs : List Char) : Option Nat :=
  cs.foldlM (fun value c => (hexDigit? c).map (value * 16 + ·)) 0

end ExternalParser.Yaml
