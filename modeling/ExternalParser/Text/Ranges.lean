namespace ExternalParser.Text

abbrev Ranges := List (Nat × Nat)

-- Whether a code point lies in one of the ranges; the list is ascending, so the search stops at
-- the first range that begins above it.
def Ranges.has : Ranges → Nat → Bool
  | [], _ => false
  | (low, high) :: rest, n =>
      if n < low then false
      else if n ≤ high then true
      else Ranges.has rest n

end ExternalParser.Text
