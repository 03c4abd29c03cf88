import ExternalParser.Decimal.Layout
import ExternalParser.Text.Quoted

namespace ExternalParser

-- A number that a document may write.
inductive Real where
  | finite (x : Decimal.Binary64)
  | infinite (negative : Bool)
  | undefined
deriving DecidableEq

-- What stands in the document where something else was wanted. An integer beyond 64 bits names the
-- width that it was read with.
inductive Found where
  | nothing
  | boolean (b : Bool)
  | integer (n : Int)
  | wide (n : Int) (width : String)
  | real (x : Real)
  | text (s : String)
  | sequence
  | mapping
deriving DecidableEq

inductive Mismatch where
  | wrongType (found : Found) (wanted : String)
  | wrongValue (found : Found) (wanted : String)
  | tooShort (length : Nat) (wanted : String)
  | missingField (name : String)
  | duplicateField (name : String)
  | unknownField (name : String) (known : List String)
deriving DecidableEq

-- How a format calls the absent value, and how it writes doubles.
structure Dialect where
  nothing : String
  layout : Decimal.Layout

def Real.text (layout : Decimal.Layout) : Real → String
  | .finite x => layout.render x
  | .infinite false => "inf"
  | .infinite true => "-inf"
  | .undefined => "NaN"

def Found.describe (d : Dialect) : Found → String
  | .nothing => d.nothing
  | .boolean b => s!"boolean `{b}`"
  | .integer n => s!"integer `{n}`"
  | .wide n width => s!"integer `{n}` as {width}"
  | .real x => s!"floating point `{x.text d.layout}`"
  | .text s => s!"string {Text.quoted s}"
  | .sequence => "sequence"
  | .mapping => "map"

def backquoted (name : String) : String :=
  s!"`{name}`"

def alternatives (names : List String) : String :=
  ", ".intercalate (names.map backquoted)

def Mismatch.message (d : Dialect) : Mismatch → String
  | .wrongType found wanted => s!"invalid type: {found.describe d}, expected {wanted}"
  | .wrongValue found wanted => s!"invalid value: {found.describe d}, expected {wanted}"
  | .tooShort length wanted => s!"invalid length {length}, expected {wanted}"
  | .missingField name => s!"missing field {backquoted name}"
  | .duplicateField name => s!"duplicate field {backquoted name}"
  | .unknownField name known =>
      s!"unknown field {backquoted name}, expected one of {alternatives known}"

end ExternalParser
