import ExternalParser.CommandLine.Style
import ExternalParser.Tree.Query

namespace ExternalParser.CommandLine

-- What a drawing is made on: the lines so far, and for every level around the next line, the outermost
-- first, whether more follows there.
structure Canvas where
  lines : Array String
  levels : List Bool
deriving DecidableEq

namespace Canvas

def blank : Canvas := ⟨#[], []⟩

def write (c : Canvas) (line : String) : Canvas :=
  { c with lines := c.lines.push line }

-- Begins a level in which more follows, or not.
def enter (c : Canvas) (more : Bool) : Canvas :=
  { c with levels := c.levels ++ [more] }

def leave (c : Canvas) : Canvas :=
  { c with levels := c.levels.dropLast }

end Canvas

def nodeLabel (t : Tree) (s : Style) (id : Nat) : String :=
  let span := t.nodeSpan id
  let start := span.start
  let stop := span.stop
  let kind := s.nodeKind (t.nodeName id)
  let range := s.muted s!"[{start}..{stop}]"
  s!"{kind} {range}"

def tokenLabel (t : Tree) (s : Style) (id : Nat) : String :=
  let kind := s.tokenKind (t.tokenName id)
  let value := Text.quoted (t.tokenValue id)
  s!"{kind} {value}"

def elementLabel (t : Tree) (s : Style) : ChildId → String
  | .node id => nodeLabel t s id
  | .token id => tokenLabel t s id

-- The segment of a level that belongs to an ancestor.
def Connectors.passing (c : Connectors) (more : Bool) : String :=
  if more then c.pipe else c.blank

-- The segment right before an element.
def Connectors.leading (c : Connectors) (more : Bool) : String :=
  if more then c.branch else c.corner

-- The segments of a line: one for every level around the element, and one for the element itself.
def segments (c : Connectors) (levels : List Bool) (more : Bool) : List String :=
  levels.map c.passing ++ [c.leading more]

-- The line of an element that more siblings follow, or none.
def elementLine (t : Tree) (s : Style) (levels : List Bool) (more : Bool) (e : ChildId) : String :=
  String.join ((segments s.connectors levels more).map s.muted) ++ elementLabel t s e

-- Draws a list of siblings with all that is below them. The fuel bounds the elements on the way to one.
def drawChildren (t : Tree) (s : Style) : Nat → List ChildId → Canvas → Canvas
  | 0, _, c => c
  | _, [], c => c
  | fuel + 1, child :: rest, c =>
      let more := !rest.isEmpty
      let written := c.write (elementLine t s c.levels more child)
      let drawn := match child with
        | .node id => (drawChildren t s fuel (t.children id) (written.enter more)).leave
        | .token _ => written
      drawChildren t s fuel rest drawn

-- Draws the root, and then what is below it.
def draw (t : Tree) (s : Style) : Canvas :=
  drawChildren t s (t.nodeCount + t.tokenCount + 1) (t.children 0)
    (Canvas.blank.write (nodeLabel t s 0))

-- The lines of a drawing.
def drawing (t : Tree) (s : Style) : List String :=
  (draw t s).lines.toList

end ExternalParser.CommandLine
