namespace ExternalParser.Decimal

-- The number ± mantissa · 2 ^ exponent. The mantissa has at most 53 bits and the exponent is at
-- least -1074; below 2 ^ 52 the mantissa stands only at that least exponent.
structure Binary64 where
  negative : Bool
  mantissa : Nat
  exponent : Int
deriving DecidableEq

namespace Binary64

def zero (negative : Bool) : Binary64 := ⟨negative, 0, -1074⟩

-- `num / den` rounded to a natural number, halves to the even one.
def roundDiv (num den : Nat) : Nat :=
  let q := num / den
  let r := num % den
  if 2 * r < den then q
  else if den < 2 * r then q + 1
  else if q % 2 = 0 then q else q + 1

-- The exponent at which `num / den` has a mantissa of 53 bits, or the least one.
def scaleOf (num den : Nat) : Int :=
  let guess : Int := Int.ofNat num.log2 - Int.ofNat den.log2 - 52
  -- The guess is right or one too high.
  let low :=
    if num * Nat.pow 2 (-guess).toNat < den * Nat.pow 2 guess.toNat * Nat.pow 2 52 then guess - 1
    else guess
  max low (-1074)

-- The number nearest to ± num / den; none if it lies beyond the largest finite number.
def ofRatio? (negative : Bool) (num den : Nat) : Option Binary64 :=
  if num = 0 then some (zero negative)
  else
    let e := scaleOf num den
    let m := roundDiv (num * Nat.pow 2 (-e).toNat) (den * Nat.pow 2 e.toNat)
    -- Rounding up may have reached the next power of two.
    let (m, e) := if m = Nat.pow 2 53 then (Nat.pow 2 52, e + 1) else (m, e)
    if 971 < e then none else some ⟨negative, m, e⟩

-- The number nearest to ± digits · 10 ^ exponent.
def ofDecimal? (negative : Bool) (digits : Nat) (exponent : Int) : Option Binary64 :=
  ofRatio? negative (digits * Nat.pow 10 exponent.toNat) (Nat.pow 10 (-exponent).toNat)

-- The same for a numeral that may be far out of range: beyond 10 ^ 400 there is no number, and below
-- 10 ^ -400 only zero is near.
def ofScientific? (negative : Bool) (digits : Nat) (exponent : Int) : Option Binary64 :=
  let power := Int.ofNat (Nat.toDigits 10 digits).length + exponent
  if digits = 0 ∨ power < -400 then some (zero negative)
  else if 400 < power then none
  else ofDecimal? negative digits exponent

def mul? (a b : Binary64) : Option Binary64 :=
  let e := a.exponent + b.exponent
  ofRatio? (a.negative != b.negative) (a.mantissa * b.mantissa * Nat.pow 2 e.toNat)
    (Nat.pow 2 (-e).toNat)

def div? (a b : Binary64) : Option Binary64 :=
  let e := a.exponent - b.exponent
  ofRatio? (a.negative != b.negative) (a.mantissa * Nat.pow 2 e.toNat)
    (b.mantissa * Nat.pow 2 (-e).toNat)

end Binary64

end ExternalParser.Decimal
