import ExternalParser.Json.Token
import ExternalParser.Text.Utf8

namespace ExternalParser.Json

-- The part of a numeral that was read last.
inductive NumeralPart where
  | sign
  | zero
  | whole
  | point
  | fraction
  | mark
  | markSign
  | exponent
deriving DecidableEq

-- A string that has begun: its bytes in reverse, whether it has stopped being a text, and a leading
-- surrogate that waits for the other half.
structure OpenText where
  bytes : Bytes
  spoiled : Bool
  surrogate : Option Nat
deriving DecidableEq

def OpenText.start : OpenText := ⟨[], false, none⟩

-- A leading surrogate that is not followed by the other half spoils the text.
def OpenText.abandon (t : OpenText) : OpenText :=
  if t.surrogate.isSome then { t with spoiled := true, surrogate := none } else t

def OpenText.push (t : OpenText) (bs : Bytes) : OpenText :=
  { t with bytes := bs.reverse ++ t.bytes }

-- The text after an escape of a code unit. The second half of a pair joins the first; a half that
-- stands alone spoils the text.
def OpenText.unit (t : OpenText) (n : Nat) : OpenText :=
  let trailing := decide (0xDC00 ≤ n ∧ n ≤ 0xDFFF)
  match t.surrogate with
  | some high =>
      if trailing then
        { t with surrogate := none }.push
          (Utf8.encodeChar (Char.ofNat (0x10000 + (high - 0xD800) * 0x400 + (n - 0xDC00))))
      else { t with spoiled := true, surrogate := none }
  | none =>
      if trailing then { t with spoiled := true }
      else if 0xD800 ≤ n ∧ n ≤ 0xDBFF then { t with surrogate := some n }
      else t.push (Utf8.encodeChar (Char.ofNat n))

-- The token of a string that is over.
def OpenText.close (t : OpenText) : Token :=
  .str (if t.spoiled ∨ t.surrogate.isSome then none else Utf8.decode? t.bytes.reverse)

-- The byte that a one-letter escape stands for.
def escaped? (b : UInt8) : Option UInt8 :=
  match Char.ofNat b.toNat with
  | '"' => some 0x22
  | '\\' => some 0x5C
  | '/' => some 0x2F
  | 'b' => some 0x08
  | 'f' => some 0x0C
  | 'n' => some 0x0A
  | 'r' => some 0x0D
  | 't' => some 0x09
  | _ => none

-- The lexer takes one byte at a time: a token is settled as soon as the bytes after it say that it is
-- over.
inductive LexState where
  | between
  | word (left : Bytes) (token : Token)
  | numeral (part : NumeralPart) (n : Numeral)
  | text (t : OpenText)
  | escape (t : OpenText)
  | hex (t : OpenText) (read : Bytes)
  | broken (ending : Ending)
deriving DecidableEq

def nowhere : Ending := .broken false .malformed .malformed

-- A string that ends in an illegal byte.
def badText : Ending := .broken true .malformed .malformed

def isSpace (b : UInt8) : Bool :=
  b = 0x20 || b = 0x09 || b = 0x0A || b = 0x0D

def digit? (b : UInt8) : Option Nat :=
  if 0x30 ≤ b ∧ b ≤ 0x39 then some (b.toNat - 0x30) else none

def hexDigit? (b : UInt8) : Option Nat :=
  if 0x30 ≤ b ∧ b ≤ 0x39 then some (b.toNat - 0x30)
  else if 0x41 ≤ b ∧ b ≤ 0x46 then some (b.toNat - 0x37)
  else if 0x61 ≤ b ∧ b ≤ 0x66 then some (b.toNat - 0x57)
  else none

-- The value of four hexadecimal digits, of which the last comes first.
def hexValue? (read : Bytes) : Option Nat :=
  read.foldr (fun b value => do
    let v ← value
    let d ← hexDigit? b
    return v * 16 + d) (some 0)

structure Lexer where
  state : LexState
  -- In reverse.
  tokens : List Token
deriving DecidableEq

namespace Lexer

def start : Lexer := ⟨.between, []⟩

-- A byte that begins a token, is one, or stands between two.
def begin (tokens : List Token) (b : UInt8) : Lexer :=
  if isSpace b then ⟨.between, tokens⟩
  else match Char.ofNat b.toNat with
    | '\x7b' => ⟨.between, .openBrace :: tokens⟩
    | '\x7d' => ⟨.between, .closeBrace :: tokens⟩
    | '[' => ⟨.between, .openBracket :: tokens⟩
    | ']' => ⟨.between, .closeBracket :: tokens⟩
    | ',' => ⟨.between, .comma :: tokens⟩
    | ':' => ⟨.between, .colon :: tokens⟩
    | '"' => ⟨.text .start, tokens⟩
    | 'n' => ⟨.word [0x75, 0x6C, 0x6C] .null, tokens⟩
    | 't' => ⟨.word [0x72, 0x75, 0x65] (.bool true), tokens⟩
    | 'f' => ⟨.word [0x61, 0x6C, 0x73, 0x65] (.bool false), tokens⟩
    | '-' => ⟨.numeral .sign ⟨true, [], none, none⟩, tokens⟩
    | _ => match digit? b with
      | some 0 => ⟨.numeral .zero ⟨false, [0], none, none⟩, tokens⟩
      | some d => ⟨.numeral .whole ⟨false, [d], none, none⟩, tokens⟩
      | none => ⟨.broken nowhere, tokens⟩

def isPoint (b : UInt8) : Bool := b = 0x2E

def isMark (b : UInt8) : Bool := b = 0x65 || b = 0x45

-- What one more byte makes of a numeral: a longer one, nothing legal, or the end of a whole one.
inductive Growth where
  | grows (part : NumeralPart) (n : Numeral)
  | breaks
  | ends

-- The digits of the part that grows are in reverse until the numeral is over.
def grow (part : NumeralPart) (n : Numeral) (b : UInt8) : Growth :=
  match part, digit? b with
  | .sign, some 0 => .grows .zero { n with whole := [0] }
  | .sign, some d => .grows .whole { n with whole := [d] }
  | .sign, none => .breaks
  | .zero, some _ => .breaks
  | .whole, some d => .grows .whole { n with whole := d :: n.whole }
  | .zero, none | .whole, none =>
      if isPoint b then .grows .point { n with fraction := some [] }
      else if isMark b then .grows .mark { n with exponent := some (false, []) }
      else .ends
  | .point, some d | .fraction, some d =>
      .grows .fraction { n with fraction := some (d :: n.fraction.getD []) }
  | .point, none => .breaks
  | .fraction, none =>
      if isMark b then .grows .mark { n with exponent := some (false, []) } else .ends
  | .mark, none =>
      if b = 0x2B then .grows .markSign { n with exponent := some (false, []) }
      else if b = 0x2D then .grows .markSign { n with exponent := some (true, []) }
      else .breaks
  | .markSign, none => .breaks
  | .mark, some d | .markSign, some d | .exponent, some d =>
      let (down, ds) := n.exponent.getD (false, [])
      .grows .exponent { n with exponent := some (down, d :: ds) }
  | .exponent, none => .ends

-- The numeral with the digits of each part in the order of writing.
def settle (n : Numeral) : Token :=
  .num { n with
    whole := n.whole.reverse
    fraction := n.fraction.map (·.reverse)
    exponent := n.exponent.map fun (down, ds) => (down, ds.reverse) }

def step (l : Lexer) (b : UInt8) : Lexer :=
  match l.state with
  | .between => begin l.tokens b
  | .word [] token => begin (token :: l.tokens) b
  | .word (w :: left) token =>
      if b ≠ w then ⟨.broken nowhere, l.tokens⟩
      else if left = [] then ⟨.between, token :: l.tokens⟩
      else ⟨.word left token, l.tokens⟩
  | .numeral part n =>
      match grow part n b with
      | .grows part n => ⟨.numeral part n, l.tokens⟩
      | .breaks => ⟨.broken nowhere, l.tokens⟩
      | .ends => begin (settle n :: l.tokens) b
  | .text t =>
      if b = 0x5C then ⟨.escape t, l.tokens⟩
      else if b = 0x22 then ⟨.between, t.close :: l.tokens⟩
      else if b < 0x20 then ⟨.broken badText, l.tokens⟩
      else ⟨.text (t.abandon.push [b]), l.tokens⟩
  | .escape t =>
      if b = 0x75 then ⟨.hex t [], l.tokens⟩
      else match escaped? b with
        | some c => ⟨.text (t.abandon.push [c]), l.tokens⟩
        | none => ⟨.broken badText, l.tokens⟩
  | .hex t read =>
      if read.length < 3 then ⟨.hex t (b :: read), l.tokens⟩
      else match hexValue? (b :: read) with
        | some n => ⟨.text (t.unit n), l.tokens⟩
        | none => ⟨.broken badText, l.tokens⟩
  | .broken _ => l

-- A string that the input cuts off. A reader who wants the text noticed first what had spoiled it.
def cutText (t : OpenText) : Ending :=
  .broken true (if t.spoiled then .malformed else .truncated) .truncated

-- The tokens, and what follows them.
def finish (l : Lexer) : List Token × Ending :=
  match l.state with
  | .between => (l.tokens.reverse, .finished)
  | .word [] token => ((token :: l.tokens).reverse, .finished)
  | .word _ _ => (l.tokens.reverse, .broken false .truncated .truncated)
  | .numeral part n =>
      match part with
      | .zero | .whole | .fraction | .exponent => ((settle n :: l.tokens).reverse, .finished)
      | .sign | .point | .mark | .markSign =>
          (l.tokens.reverse, .broken false .truncated .malformed)
  | .text t | .escape t | .hex t _ => (l.tokens.reverse, cutText t)
  | .broken ending => (l.tokens.reverse, ending)

end Lexer

-- The tokens of a text.
def tokens (bs : Bytes) : List Token × Ending :=
  (bs.foldl Lexer.step Lexer.start).finish

end ExternalParser.Json
