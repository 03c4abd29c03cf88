namespace ExternalParser

abbrev Bytes := List UInt8

namespace Utf8

-- A sequence that has begun: how many bytes it still needs, the bits read so far, and the range
-- that the next byte has to lie in.
structure Pending where
  need : Nat
  bits : Nat
  low : UInt8
  high : UInt8
deriving DecidableEq, Repr

-- What one byte says where a character begins.
inductive Lead where
  | single (c : Char)
  | opens (p : Pending)
  | stray
deriving DecidableEq, Repr

def lead (b : UInt8) : Lead :=
  if b < 0x80 then .single (Char.ofNat b.toNat)
  else if b < 0xC2 then .stray
  else if b < 0xE0 then .opens ⟨1, b.toNat - 0xC0, 0x80, 0xBF⟩
  else if b = 0xE0 then .opens ⟨2, 0, 0xA0, 0xBF⟩
  else if b = 0xED then .opens ⟨2, 0xD, 0x80, 0x9F⟩
  else if b < 0xF0 then .opens ⟨2, b.toNat - 0xE0, 0x80, 0xBF⟩
  else if b = 0xF0 then .opens ⟨3, 0, 0x90, 0xBF⟩
  else if b < 0xF4 then .opens ⟨3, b.toNat - 0xF0, 0x80, 0xBF⟩
  else if b = 0xF4 then .opens ⟨3, 4, 0x80, 0x8F⟩
  else .stray

-- The decoder between two bytes. `none` in the output, which is kept in reverse, stands for an
-- ill-formed subpart.
structure Decoder where
  pending : Option Pending
  output : List (Option Char)
deriving DecidableEq, Repr

def Decoder.start : Decoder := ⟨none, []⟩

-- A byte where a character begins.
def Decoder.begin (output : List (Option Char)) (b : UInt8) : Decoder :=
  match lead b with
  | .single c => ⟨none, some c :: output⟩
  | .opens p => ⟨some p, output⟩
  | .stray => ⟨none, none :: output⟩

def Decoder.step (d : Decoder) (b : UInt8) : Decoder :=
  match d.pending with
  | none => Decoder.begin d.output b
  | some p =>
      if p.low ≤ b ∧ b ≤ p.high then
        let bits := p.bits * 64 + (b.toNat - 0x80)
        if p.need ≤ 1 then ⟨none, some (Char.ofNat bits) :: d.output⟩
        else ⟨some ⟨p.need - 1, bits, 0x80, 0xBF⟩, d.output⟩
      else Decoder.begin (none :: d.output) b

-- A sequence that the input cuts off is one ill-formed subpart.
def Decoder.finish (d : Decoder) : List (Option Char) :=
  (if d.pending.isSome then none :: d.output else d.output).reverse

-- The characters of a byte string, with `none` for each ill-formed subpart.
def pieces (bs : Bytes) : List (Option Char) :=
  (bs.foldl Decoder.step Decoder.start).finish

def replacement : Char := '\uFFFD'

-- The forgiving reading.
def lossy (bs : Bytes) : String :=
  String.ofList ((pieces bs).map (·.getD replacement))

-- The strict reading.
def decode? (bs : Bytes) : Option String :=
  let ps := pieces bs
  if ps.all (·.isSome) then some (String.ofList (ps.filterMap id)) else none

-- The bytes of one character.
def encodeChar (c : Char) : Bytes :=
  let n := c.toNat
  if n < 0x80 then [n.toUInt8]
  else if n < 0x800 then [(0xC0 + n / 64).toUInt8, (0x80 + n % 64).toUInt8]
  else if n < 0x10000 then
    [(0xE0 + n / 4096).toUInt8, (0x80 + n / 64 % 64).toUInt8, (0x80 + n % 64).toUInt8]
  else
    [(0xF0 + n / 262144).toUInt8, (0x80 + n / 4096 % 64).toUInt8, (0x80 + n / 64 % 64).toUInt8,
      (0x80 + n % 64).toUInt8]

def encode (s : String) : Bytes :=
  s.toList.flatMap encodeChar

end Utf8

end ExternalParser
