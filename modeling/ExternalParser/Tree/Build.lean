import ExternalParser.Tree.Check

namespace ExternalParser

mutual

-- The span from the first to the last byte of the tokens below a child.
def ChildRecord.span? (spans : Array Span) : ChildRecord → Option Span
  | .token index => spans[index]?
  | .node _ children => spansOf spans children
  | .invalid _ => none

def spansOf (spans : Array Span) : List ChildRecord → Option Span
  | [] => none
  | c :: cs => Span.cover? [c.span? spans, spansOf spans cs]

end

-- The children of a node, of which the first nested one stands at `next`.
def childIds (next : Nat) : List ChildRecord → List ChildId
  | [] => []
  | .token index :: cs => .token index :: childIds next cs
  | .node kind children :: cs =>
      .node next :: childIds (next + (ChildRecord.node kind children).nodeCount) cs
  | .invalid _ :: cs => childIds next cs

mutual

-- The nodes of a child of `parent`, of which the first stands at `next`.
def ChildRecord.nodes (spans : Array Span) (parent next : Nat) : ChildRecord → List NodeData
  | .node kind children =>
      ⟨kind, some parent, childIds (next + 1) children, spansOf spans children⟩ ::
        nodesOf spans next (next + 1) children
  | .token _ | .invalid _ => []

def nodesOf (spans : Array Span) (parent next : Nat) : List ChildRecord → List NodeData
  | [] => []
  | c :: cs => c.nodes spans parent next ++ nodesOf spans parent (next + c.nodeCount) cs

end

def NodeRecord.nodes (spans : Array Span) (r : NodeRecord) : List NodeData :=
  ⟨r.kind, none, childIds 1 r.children, spansOf spans r.children⟩ :: nodesOf spans 0 1 r.children

def TokenRecord.span (t : TokenRecord) : Span :=
  ⟨t.offset, t.stop⟩

-- The offsets after the newlines of a text that begins at `offset`.
def lineStartsFrom (offset : Nat) : List Char → List Nat
  | [] => []
  | c :: cs =>
      let next := offset + c.utf8Size
      if c = '\n' then next :: lineStartsFrom next cs else lineStartsFrom next cs

namespace Tree

def layout (g : Grammar) (source : String) (r : ParseRecord) (owners : Owners) : Tree :=
  { source := source
    grammar := g
    tokens := (List.zipWith (fun (t : TokenRecord) owner => ⟨t.kind, t.value, t.span, owner⟩)
      r.stream owners.toList).toArray
    nodes := (r.tree.nodes (r.stream.map TokenRecord.span).toArray).toArray
    lineStarts := 0 :: lineStartsFrom 0 source.toList }

-- The tree of a record, if it agrees with itself, the source and the grammar.
def ofRecord (g : Grammar) (source : String) (r : ParseRecord) : Except Defect Tree :=
  (r.check g source).map (layout g source r)

end Tree

end ExternalParser
