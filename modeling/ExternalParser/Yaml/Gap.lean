import ExternalParser.Yaml.Cursor

namespace ExternalParser.Yaml

structure Gap where
  -- In reverse.
  spaces : List Char
  -- A line has ended.
  broken : Bool
  first : Option Char
  -- In reverse.
  others : List Char
deriving DecidableEq

namespace Gap

def empty : Gap := ⟨[], false, none, []⟩

-- The gap after a line break that stands for nothing.
def escaped : Gap := ⟨[], true, none, []⟩

-- The spaces around a line break stand for nothing.
def addSpace (g : Gap) (c : Char) : Gap :=
  if g.broken then g else { g with spaces := c :: g.spaces }

def addBreak (g : Gap) (c : Char) : Gap :=
  if g.broken then { g with others := c :: g.others } else ⟨[], true, some c, g.others⟩

-- What the gap stands for, in reverse.
def reversed (g : Gap) : List Char :=
  if !g.broken then g.spaces
  else match g.first with
    | some b =>
        if b ≠ '\n' then g.others ++ [b]
        else if g.others = [] then [' ']
        else g.others
    | none => g.others

-- Reads the rest of a gap. At the beginning of a line no tab may stand left of the margin.
def read (margin : Nat) : Nat → Gap → Cursor → Option (Gap × Cursor)
  | 0, _, _ => none
  | fuel + 1, g, c => match c.newline? with
    | some (b, d) => read margin fuel (g.addBreak b) d
    | none => match c.head? with
      | none => some (g, c)
      | some s =>
          if !isSpace s then some (g, c)
          else if g.broken && c.column < margin && s = '\t' then none
          else read margin fuel (g.addSpace s) (c.skip 1)

end Gap

end ExternalParser.Yaml
