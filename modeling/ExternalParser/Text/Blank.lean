import ExternalParser.Text.Ranges

namespace ExternalParser.Text

-- The property White_Space.
def blanks : Ranges := [
  (0x9, 0xD), (0x20, 0x20), (0x85, 0x85), (0xA0, 0xA0), (0x1680, 0x1680), (0x2000, 0x200A),
  (0x2028, 0x2029), (0x202F, 0x202F), (0x205F, 0x205F), (0x3000, 0x3000)]

def isBlank (c : Char) : Bool :=
  blanks.has c.toNat

-- The text without the blanks at its end.
def trimEnd (cs : List Char) : List Char :=
  (cs.reverse.dropWhile isBlank).reverse

-- The text without the blanks at either end.
def trim (cs : List Char) : List Char :=
  trimEnd (cs.dropWhile isBlank)

def trimmed (s : String) : String :=
  String.ofList (trim s.toList)

-- The list without the copies of `v` that it begins with.
def dropCopies (v cs : List Char) : List Char :=
  if v ≠ [] ∧ v.isPrefixOf cs then dropCopies v (cs.drop v.length) else cs
termination_by cs.length
decreasing_by
  rename_i h
  obtain ⟨t, rfl⟩ := List.isPrefixOf_iff_prefix.mp h.2
  have : 0 < v.length := List.length_pos_iff.mpr h.1
  simp only [List.length_drop, List.length_append]
  omega

-- The text without the copies of `v` that it ends with.
def dropEndCopies (v cs : List Char) : List Char :=
  (dropCopies v.reverse cs.reverse).reverse

end ExternalParser.Text
