import ExternalParser.Mismatch
import ExternalParser.Yaml.Character
import ExternalParser.Yaml.Node

namespace ExternalParser.Yaml

-- The number that digits of a base stand for.
def digitsValue? (base : Nat) (cs : List Char) : Option Nat :=
  if cs = [] then none
  else cs.foldlM (fun value c => do
    let d ← hexDigit? c
    if d < base then return value * base + d else none) 0

-- Digits that begin with a zero, and are more than that, are no number.
def isPadded (cs : List Char) : Bool :=
  let digits := match cs with
    | '-' :: rest | '+' :: rest => rest
    | _ => cs
  match digits with
  | '0' :: d :: rest => (d :: rest).all Char.isDigit
  | _ => false

-- The magnitude of an integer without its sign.
def magnitude? : List Char → Option Nat
  | '0' :: 'x' :: digits => digitsValue? 16 digits
  | '0' :: 'o' :: digits => digitsValue? 8 digits
  | '0' :: 'b' :: digits => digitsValue? 2 digits
  | digits => if isPadded digits then none else digitsValue? 10 digits

def natural? : List Char → Option Nat
  | '+' :: cs => magnitude? cs
  | cs => magnitude? cs

-- The magnitude of an integer with a minus sign.
def negative? : List Char → Option Nat
  | '-' :: cs => magnitude? cs
  | _ => none

-- Integers up to 128 bits.
def integer? (cs : List Char) : Option Found :=
  match natural? cs with
  | some n =>
      if n < Nat.pow 2 64 then some (.integer n)
      else if n < Nat.pow 2 128 then some (.wide n "u128")
      else none
  | none => match negative? cs with
    | some n =>
        if n ≤ Nat.pow 2 63 then some (.integer (-n))
        else if n ≤ Nat.pow 2 127 then some (.wide (-n) "i128")
        else none
    | none => none

def bool? (text : String) : Option Bool :=
  if ["true", "True", "TRUE"].contains text then some true
  else if ["false", "False", "FALSE"].contains text then some false
  else none

def isNull (text : String) : Bool :=
  ["null", "Null", "NULL", "~"].contains text

-- The exponent of a decimal numeral, which is absent or begins with its mark.
def exponent? : List Char → Option Int
  | [] => some 0
  | mark :: cs =>
      if mark ≠ 'e' ∧ mark ≠ 'E' then none
      else match cs with
        | '-' :: digits => (digitsValue? 10 digits).map (-Int.ofNat ·)
        | '+' :: digits => (digitsValue? 10 digits).map Int.ofNat
        | digits => (digitsValue? 10 digits).map Int.ofNat

-- The double of a decimal numeral without a sign. Digits may be missing on one side of the point.
def decimal? (negative : Bool) (cs : List Char) : Option Decimal.Binary64 := do
  let whole := cs.takeWhile Char.isDigit
  let rest := cs.dropWhile Char.isDigit
  let (fraction, rest) := match rest with
    | '.' :: after => (after.takeWhile Char.isDigit, after.dropWhile Char.isDigit)
    | _ => ([], rest)
  let digits ← digitsValue? 10 (whole ++ fraction)
  let exponent ← exponent? rest
  Decimal.Binary64.ofScientific? negative digits (exponent - fraction.length)

-- The number of a text, also one that is infinite or undefined.
def real? (text : String) : Option Real :=
  if [".nan", ".NaN", ".NAN"].contains text then some .undefined
  else if ["-.inf", "-.Inf", "-.INF"].contains text then some (.infinite true)
  else if [".inf", ".Inf", ".INF", "+.inf", "+.Inf", "+.INF"].contains text then
    some (.infinite false)
  else (match text.toList with
    | '-' :: cs => decimal? true cs
    | '+' :: cs => decimal? false cs
    | cs => decimal? false cs).map .finite

-- What a plain scalar without a tag stands for.
def meaning (text : String) : Found :=
  if text = "" ∨ isNull text then .nothing
  else match bool? text with
    | some b => .boolean b
    | none => match integer? text.toList with
      | some found => found
      | none =>
          if isPadded text.toList then .text text
          else match real? text with
            | some x => .real x
            | none => .text text

def coreTag (name : String) : Bytes :=
  Utf8.encode ("tag:yaml.org,2002:" ++ name)

-- A tag that does not belong to the format.
def isLocalTag (tag : Bytes) : Bool :=
  tag.head? = some 0x21

namespace Scalar

-- How a tagged scalar is refused: as what its text stands for, or for not being of its tag.
def refuseAs (s : Scalar) (found : Option Found) (named wanted : String) : Mismatch :=
  match found with
  | some f => .wrongType f wanted
  | none => .wrongValue (.text s.text) named

-- How a scalar is refused where something else is wanted.
def refuse (s : Scalar) (wanted : String) : Mismatch :=
  match s.tag with
  | none =>
      .wrongType (if s.style = .plain then meaning s.text else .text s.text) wanted
  | some tag =>
      if tag = coreTag "bool" then
        s.refuseAs ((bool? s.text).map .boolean) "a boolean" wanted
      else if tag = coreTag "int" then
        s.refuseAs (integer? s.text.toList) "an integer" wanted
      else if tag = coreTag "float" then
        s.refuseAs ((real? s.text).map .real) "a float" wanted
      else if tag = coreTag "null" then
        s.refuseAs (if isNull s.text then some .nothing else none) "null" wanted
      else
        .wrongType (if isLocalTag tag && s.style = .plain then meaning s.text else .text s.text)
          wanted

-- Only a plain scalar can be more than a text, or a literal one that its tag says to be.
def isOpen (s : Scalar) (tag : Bytes) : Bool :=
  s.style = .plain || s.style = .literal && s.tag = some tag

-- Nothing is written where the scalar stands.
def isEmpty (s : Scalar) : Bool :=
  s.style = .plain && s.text = ""

end Scalar

def Node.refuse (wanted : String) : Node Nat → Mismatch
  | .alias _ => .wrongType .nothing wanted
  | .scalar _ s => s.refuse wanted
  | .sequence _ _ => .wrongType .sequence wanted
  | .mapping _ _ => .wrongType .mapping wanted

end ExternalParser.Yaml
