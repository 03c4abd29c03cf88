namespace ExternalParser

structure Duration where
  nanos : Nat
deriving DecidableEq

namespace Duration

def perSecond : Nat := 1000000000

def ofSeconds (secs : Nat) : Duration := ⟨secs * perSecond⟩

def ofMillis (millis : Nat) : Duration := ⟨millis * 1000000⟩

def ofParts (secs nanos : Nat) : Duration := ⟨secs * perSecond + nanos⟩

def seconds (d : Duration) : Nat := d.nanos / perSecond

-- The part below one second.
def subseconds (d : Duration) : Nat := d.nanos % perSecond

-- The digits of `part / 10 ^ width` behind the point, without zeros at the end.
def fractionDigits (part width : Nat) : List Char :=
  let ds := Nat.toDigits 10 part
  let padded := List.replicate (width - ds.length) '0' ++ ds
  (padded.reverse.dropWhile (· = '0')).reverse

-- `nanos` in units of `10 ^ width` nanoseconds.
def inUnits (nanos width : Nat) (unit : String) : String :=
  let whole := nanos / Nat.pow 10 width
  let fraction := if width = 0 then [] else fractionDigits (nanos % Nat.pow 10 width) width
  let tail := if fraction = [] then "" else "." ++ String.ofList fraction
  toString whole ++ tail ++ unit

-- The duration in the largest unit of which it has at least one.
def text (d : Duration) : String :=
  if perSecond ≤ d.nanos then inUnits d.nanos 9 "s"
  else if 1000000 ≤ d.nanos then inUnits d.nanos 6 "ms"
  else if 1000 ≤ d.nanos then inUnits d.nanos 3 "µs"
  else inUnits d.nanos 0 "ns"

end Duration

end ExternalParser
