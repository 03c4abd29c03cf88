import ExternalParser.Yaml.Cursor

namespace ExternalParser.Yaml.Block

-- What becomes of the line breaks at the end.
inductive Chomping where
  | strip
  | clip
  | keep
deriving DecidableEq

def chomping? : Char → Option Chomping
  | '+' => some .keep
  | '-' => some .strip
  | _ => none

-- Reads a chomping indicator if there is one.
def readChomping (c : Cursor) : Option Chomping × Cursor :=
  match c.head?.bind chomping? with
  | some chomping => (some chomping, c.skip 1)
  | none => (none, c)

-- Reads an indentation indicator if there is one; zero is refused.
def readIndentation (c : Cursor) : Option (Option Nat × Cursor) :=
  match c.head? with
  | some d =>
      if d = '0' then none
      else if d.isDigit then some (some (d.toNat - '0'.toNat), c.skip 1)
      else some (none, c)
  | none => some (none, c)

-- Reads the header after the first mark. The two indicators come in either order.
def readHeader (c : Cursor) : Option (Chomping × Option Nat × Cursor) := do
  let (first, c) := readChomping c
  let (indentation, c) ← readIndentation c
  let (second, c) := if first.isNone && indentation.isSome then readChomping c else (none, c)
  return ((first.or second).getD .clip, indentation, ← c.endLine?)

-- Passes empty lines and the indentation of the first line that is not empty. The answer has the
-- deepest column, the line breaks in reverse, and the place. An indentation that is not yet known
-- takes all spaces; no tab may be part of it.
def readBreaks (indentation : Option Nat) :
    Nat → Nat → List Char → Cursor → Option (Nat × List Char × Cursor)
  | 0, _, _, _ => none
  | fuel + 1, deepest, breaks, c =>
      let spaces := (c.rest.takeWhile (· = ' ')).length
      let d := c.skip (match indentation with
        | some n => min spaces (n - c.column)
        | none => spaces)
      let deepest := max deepest d.column
      if indentation.all (d.column < ·) && d.head? = some '\t' then none
      else match d.newline? with
        | some (b, e) => readBreaks indentation fuel deepest (b :: breaks) e
        | none => some (deepest, breaks, d)

-- The line breaks before a line, all in reverse: the one that ended the text before it, if any, and
-- those of the empty lines since. Folding turns a single one into a space and drops the first of
-- several, unless the line before it or after it begins with a space.
def separation (folds : Bool) (last : Option Char) (breaks : List Char) : List Char :=
  if folds && last = some '\n' then if breaks = [] then [' '] else breaks
  else breaks ++ last.toList

-- The lines from here on. The text is in reverse, `last` is the line break that ended it, `breaks`
-- are those of the empty lines since, and `indented` says that its last line began with a space.
def readLines (folds : Bool) (indentation : Nat) :
    Nat → List Char → Option Char → List Char → Bool → Cursor →
      Option (List Char × Option Char × List Char × Cursor)
  | 0, _, _, _, _, _ => none
  | fuel + 1, text, last, breaks, indented, c =>
      if c.column ≠ indentation ∨ c.rest = [] then some (text, last, breaks, c)
      else do
        let blank := c.at? isSpace
        let gap := separation (folds && !indented && !blank) last breaks
        let line := c.rest.takeWhile (!isBreak ·)
        let d := c.skip line.length
        let (ending, e) := match d.newline? with
          | some (b, e) => (some b, e)
          | none => (none, d)
        let (_, breaks, e) ← readBreaks (some indentation) (fuel + 1) 0 [] e
        readLines folds indentation fuel (line.reverse ++ gap ++ text) ending breaks blank e

-- Reads a block scalar from its first mark on, inside a block that is indented up to the margin.
def read (margin fuel : Nat) (c : Cursor) : Option (String × Cursor) := do
  let folds := c.head? = some '>'
  let (chomping, indicator, c) ← readHeader (c.skip 1)
  let wanted := indicator.map (margin - 1 + ·)
  let (deepest, breaks, c) ← readBreaks wanted fuel 0 [] c
  let indentation := wanted.getD (max deepest (max margin 1))
  let (text, last, breaks, c) ← readLines folds indentation fuel [] none breaks false c
  let tail := match chomping with
    | .strip => []
    | .clip => last.toList
    | .keep => breaks ++ last.toList
  return (String.ofList (tail ++ text).reverse, c)

end ExternalParser.Yaml.Block
