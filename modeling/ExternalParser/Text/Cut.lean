namespace ExternalParser.Text

def byteLength (cs : List Char) : Nat :=
  cs.foldl (fun n c => n + c.utf8Size) 0

-- The two parts of a text on either side of byte offset `n`, the first one in reverse before `done`.
def splitBytesFrom (done : List Char) : List Char → Nat → Option (List Char × List Char)
  | cs, 0 => some (done.reverse, cs)
  | [], _ + 1 => none
  | c :: cs, n + 1 =>
      if c.utf8Size ≤ n + 1 then splitBytesFrom (c :: done) cs (n + 1 - c.utf8Size) else none

-- The two parts of a text on either side of byte offset `n`, if `n` is a boundary.
def splitBytes? (cs : List Char) (n : Nat) : Option (List Char × List Char) :=
  splitBytesFrom [] cs n

def isBoundary (s : String) (n : Nat) : Bool :=
  String.Pos.Raw.isValid s ⟨n⟩

-- The text between two byte offsets, if both are boundaries and in order.
def slice? (s : String) (start stop : Nat) : Option String :=
  if start ≤ stop then do
    let (_, tail) ← splitBytes? s.toList start
    let (part, _) ← splitBytes? tail (stop - start)
    return String.ofList part
  else none

end ExternalParser.Text
