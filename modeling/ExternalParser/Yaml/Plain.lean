import ExternalParser.Yaml.Gap

namespace ExternalParser.Yaml.Plain

-- A plain scalar may begin here.
def begins (inFlow : Bool) (c : Cursor) : Bool :=
  match c.rest with
  | [] => false
  | '-' :: rest => !rest.head?.any isSpace
  | first :: rest =>
      if first = '?' ∨ first = ':' then !inFlow && !endsWord rest
      else !isSpace first && !isBreak first && !isIndicator first

-- Reads the characters up to the next gap or the end of the scalar, in reverse. Inside a flow
-- collection a colon is refused before one of the marks and before a question mark.
def readWord (inFlow : Bool) : Nat → List Char → Cursor → Option (List Char × Cursor)
  | 0, _, _ => none
  | fuel + 1, word, c => match c.rest with
    | [] => some (word, c)
    | x :: rest =>
        if isSpace x || isBreak x then some (word, c)
        else if inFlow && x = ':' && rest.head?.any (fun y => isFlowMark y || y = '?') then none
        else if x = ':' && endsWord rest || inFlow && isFlowMark x then some (word, c)
        else readWord inFlow fuel (x :: word) (c.skip 1)

-- Reads on after the text that was read, in reverse, and a gap. The answer says whether the scalar
-- is followed by a line break.
def readFrom (inFlow : Bool) (margin : Nat) :
    Nat → List Char → Gap → Cursor → Option (List Char × Bool × Cursor)
  | 0, _, _, _ => none
  | fuel + 1, text, gap, c =>
      if c.atDocumentMark || c.head? = some '#' then some (text, gap.broken, c)
      else do
        let (word, d) ← readWord inFlow (fuel + 1) [] c
        let joined := if word = [] then text else word ++ gap.reversed ++ text
        let left := if word = [] then gap else Gap.empty
        if d.at? (fun x => isSpace x || isBreak x) then
          let (next, e) ← left.read margin (fuel + 1) d
          if !inFlow && e.column < margin then return (joined, next.broken, e)
          readFrom inFlow margin fuel joined next e
        else return (joined, left.broken, d)

-- Reads a plain scalar in a block that is indented up to the margin.
def read (inFlow : Bool) (margin fuel : Nat) (c : Cursor) : Option (String × Bool × Cursor) := do
  let (text, broken, d) ← readFrom inFlow margin fuel [] Gap.empty c
  return (String.ofList text.reverse, broken, d)

end ExternalParser.Yaml.Plain
