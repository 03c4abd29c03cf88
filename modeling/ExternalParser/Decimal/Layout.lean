import ExternalParser.Decimal.Shortest

namespace ExternalParser.Decimal

-- Powers of ten `least ≤ p < most` of the leading digit are written positionally.
structure Layout where
  least : Option Int
  most : Option Int

-- JSON numbers: positional from 0.00001 up to below 10 ^ 16.
def Layout.json : Layout := ⟨some (-5), some 16⟩

-- Always positional.
def Layout.plain : Layout := ⟨none, none⟩

def Layout.isPositional (l : Layout) (power : Int) : Bool :=
  l.least.all (· ≤ power) && l.most.all (power < ·)

-- The digits with a point after the first `point` of them, filled with zeros on either side.
def positional (digits : List Char) (point : Int) : List Char :=
  let n := digits.length
  if point ≤ 0 then '0' :: '.' :: (List.replicate (-point).toNat '0' ++ digits)
  else if n ≤ point.toNat then digits ++ List.replicate (point.toNat - n) '0' ++ ['.', '0']
  else digits.take point.toNat ++ '.' :: digits.drop point.toNat

-- One digit, the point and the others if there are any, and the signed exponent.
def withExponent (digits : List Char) (power : Int) : List Char :=
  let mantissa := match digits with
    | d :: e :: rest => d :: '.' :: e :: rest
    | few => few
  let sign := if power < 0 then '-' else '+'
  mantissa ++ 'e' :: sign :: Nat.toDigits 10 power.natAbs

def Layout.render (l : Layout) (x : Binary64) : String :=
  let sign := if x.negative then ['-'] else []
  if x.mantissa = 0 then String.ofList (sign ++ ['0', '.', '0'])
  else
    let d := shortest x.mantissa x.exponent
    let digits := Nat.toDigits 10 d.digits
    let power := d.exponent + Int.ofNat digits.length - 1
    let body := if l.isPositional power then positional digits (power + 1) else withExponent digits power
    String.ofList (sign ++ body)

end ExternalParser.Decimal
