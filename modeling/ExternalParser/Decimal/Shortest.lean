import ExternalParser.Decimal.Binary64

namespace ExternalParser.Decimal

-- The value `digits · 10 ^ exponent`.
structure Scaled where
  digits : Nat
  exponent : Int
deriving DecidableEq

-- A positive double and the ends of its rounding interval over one denominator.
structure Interval where
  low : Nat
  value : Nat
  high : Nat
  den : Nat
  closed : Bool

-- The neighbours of `mantissa · 2 ^ exponent` are half a unit away, but only a quarter below a
-- power of two.
def Interval.of (mantissa : Nat) (exponent : Int) : Interval :=
  let up := Nat.pow 2 exponent.toNat
  let tight := mantissa = Nat.pow 2 52 ∧ -1074 < exponent
  { low := (4 * mantissa - if tight then 1 else 2) * up
    value := 4 * mantissa * up
    high := (4 * mantissa + 2) * up
    den := 4 * Nat.pow 2 (-exponent).toNat
    closed := mantissa % 2 = 0 }

-- Whether `digits · 10 ^ exponent` lies in the interval.
def Interval.holds (i : Interval) (d : Scaled) : Bool :=
  let x := d.digits * Nat.pow 10 d.exponent.toNat * i.den
  let s := Nat.pow 10 (-d.exponent).toNat
  if i.closed then i.low * s ≤ x ∧ x ≤ i.high * s else i.low * s < x ∧ x < i.high * s

-- Twice the numerator of the distance from `digits · 10 ^ exponent` to the value.
def Interval.distance (i : Interval) (d : Scaled) : Nat :=
  let x := d.digits * Nat.pow 10 d.exponent.toNat * i.den
  let v := i.value * Nat.pow 10 (-d.exponent).toNat
  if x ≤ v then v - x else x - v

-- The multiple of `10 ^ exponent` to take for the value, if one of its two neighbours reads back.
def Interval.on? (i : Interval) (exponent : Int) : Option Scaled :=
  let below := i.value * Nat.pow 10 (-exponent).toNat / (i.den * Nat.pow 10 exponent.toNat)
  let a : Scaled := ⟨below, exponent⟩
  let b : Scaled := ⟨below + 1, exponent⟩
  match 0 < below && i.holds a, i.holds b with
  | false, false => none
  | true, false => some a
  | false, true => some b
  | true, true =>
      let da := i.distance a
      let db := i.distance b
      if da < db ∨ (da = db ∧ below % 2 = 0) then some a else some b

-- The number of decimal digits of a positive number.
def digitCount (n : Nat) : Nat :=
  (Nat.toDigits 10 n).length

-- The power of ten at which the value has one digit before the point, or one too high.
def Interval.magnitude (i : Interval) : Int :=
  Int.ofNat (digitCount i.value) - Int.ofNat (digitCount i.den)

-- The coarsest of `fuel` grids below `exponent` that has a decimal which reads back.
def Interval.search (i : Interval) : Nat → Int → Scaled
  | 0, exponent => ⟨i.value * Nat.pow 10 (-exponent).toNat / i.den, exponent⟩
  | fuel + 1, exponent =>
      match i.on? exponent with
      | some d => d
      | none => i.search fuel (exponent - 1)

-- The shortest decimal of a positive double. Seventeen digits always suffice, and the first grid
-- tried lies above them all.
def shortest (mantissa : Nat) (exponent : Int) : Scaled :=
  let i := Interval.of mantissa exponent
  i.search 20 (i.magnitude + 1)

end ExternalParser.Decimal
