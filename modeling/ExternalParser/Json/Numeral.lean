import ExternalParser.Json.Value

namespace ExternalParser.Json

open Decimal

-- The digits of each part; the exponent comes with its sign.
structure Numeral where
  negative : Bool
  whole : List Nat
  fraction : Option (List Nat)
  exponent : Option (Bool × List Nat)
deriving DecidableEq

namespace Numeral

def ofDigits (ds : List Nat) : Nat :=
  ds.foldl (fun n d => n * 10 + d) 0

-- Appends digits to a word as long as it stays one. The second part counts the digits left over.
def appendDigits (word : Nat) : List Nat → Nat × Nat
  | [] => (word, 0)
  | d :: ds => if word * 10 + d ≤ maxWord then appendDigits (word * 10 + d) ds else (word, ds.length + 1)

def powerOfTen (n : Nat) : Binary64 :=
  (Binary64.ofRatio? false (Nat.pow 10 n) 1).getD (.zero false)

-- Multiplies by a power of ten in double arithmetic: one multiplication or division, after
-- dividing by the largest power while the exponent is below the table of powers.
def scale? (x : Binary64) (exponent : Int) : Option Binary64 :=
  if exponent.natAbs ≤ 308 then
    if 0 ≤ exponent then x.mul? (powerOfTen exponent.toNat) else x.div? (powerOfTen (-exponent).toNat)
  else if x.mantissa = 0 then some x
  else if 0 ≤ exponent then none
  else match x.div? (powerOfTen 308) with
    | none => none
    | some y => scale? y (exponent + 308)
termination_by (-exponent).toNat

-- Exponents are kept within 32 bits.
def clamp (e : Int) : Int :=
  max (-2147483648) (min 2147483647 e)

def double? (negative : Bool) (word : Nat) (exponent : Int) : Option Binary64 := do
  let start ← Binary64.ofRatio? negative word 1
  scale? start exponent

-- The double of a word with a written exponent on top of a starting one. An exponent beyond 32 bits
-- leaves zero or nothing.
def withExponent? (negative : Bool) (word : Nat) (start : Int) (down : Bool) (ds : List Nat) :
    Option Binary64 :=
  let e := ofDigits ds
  if 2147483647 < e then
    if word ≠ 0 ∧ ¬ down then none else some (.zero negative)
  else double? negative word (clamp (if down then start - e else start + e))

-- The number that a numeral stands for; none if it is beyond the doubles.
def number? (n : Numeral) : Option Number :=
  let (word, dropped) := appendDigits 0 n.whole
  match n.fraction, n.exponent with
  | none, none =>
      if dropped ≠ 0 then (double? n.negative word dropped).map .real
      else if ¬ n.negative then some (.natural word)
      else if word = 0 ∨ Nat.pow 2 63 < word then (Binary64.ofRatio? true word 1).map .real
      else some (.negative word)
  | fraction, exponent =>
      let ds := fraction.getD []
      let (word, left) := appendDigits word ds
      let start : Int := dropped - (ds.length - left : Nat)
      match exponent with
      | none => (double? n.negative word start).map .real
      | some (down, es) => (withExponent? n.negative word start down es).map .real

end Numeral

end ExternalParser.Json
