import ExternalParser.Decimal.Binary64
import ExternalParser.Mismatch

namespace ExternalParser.Json

-- An integer is one that fits 64 bits, without sign or with one; every other number is a double.
inductive Number where
  | natural (n : Nat)
  | negative (n : Nat)
  | real (x : Decimal.Binary64)
deriving DecidableEq

-- The names of an object ascend, and a repeated name keeps the last value.
inductive Value where
  | null
  | bool (b : Bool)
  | num (n : Number)
  | str (s : String)
  | arr (items : List Value)
  | obj (fields : List (String × Value))

abbrev Fields := List (String × Value)

-- Puts a field at its place, over one of the same name.
def Fields.insert (name : String) (v : Value) : Fields → Fields
  | [] => [(name, v)]
  | (other, w) :: rest =>
      if name = other then (name, v) :: rest
      else if name < other then (name, v) :: (other, w) :: rest
      else (other, w) :: Fields.insert name v rest

def Fields.get? (fields : Fields) (name : String) : Option Value :=
  fields.lookup name

-- Takes out the field of a name.
def Fields.without (fields : Fields) (name : String) : Fields :=
  fields.filter (·.1 ≠ name)

-- The largest number that a 64-bit word holds.
def maxWord : Nat := Nat.pow 2 64 - 1

-- The largest number that a 32-bit word holds.
def maxHalfWord : Nat := Nat.pow 2 32 - 1

def Number.found : Number → Found
  | .natural n => .integer n
  | .negative n => .integer (-Int.ofNat n)
  | .real x => .real (.finite x)

end ExternalParser.Json
