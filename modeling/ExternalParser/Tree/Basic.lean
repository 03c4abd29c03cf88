import ExternalParser.Grammar
import ExternalParser.Span

namespace ExternalParser

-- A child of a node, by its position.
inductive ChildId where
  | node (id : Nat)
  | token (id : Nat)
deriving DecidableEq

def ChildId.node? : ChildId → Option Nat
  | .node id => some id
  | .token _ => none

def ChildId.token? : ChildId → Option Nat
  | .node _ => none
  | .token id => some id

structure NodeData where
  kind : Nat
  parent : Option Nat
  children : List ChildId
  -- Missing when no token lies below the node.
  span : Option Span
deriving DecidableEq

structure TokenData where
  kind : Nat
  value : String
  span : Span
  -- Missing when no node has the token as a child.
  parent : Option Nat
deriving DecidableEq

-- Nodes and tokens refer to each other by position. The nodes stand in document order, the root first,
-- and the tokens in the order of the stream.
structure Tree where
  source : String
  grammar : Grammar
  tokens : Array TokenData
  nodes : Array NodeData
  -- The offsets where lines begin, ascending.
  lineStarts : List Nat

end ExternalParser
