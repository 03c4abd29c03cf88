import ExternalParser.Text.Cut
import ExternalParser.Text.Quoted
import ExternalParser.Tree.Basic

namespace ExternalParser

namespace Tree

-- The source text between the ends of a span, unless it runs out of the source or splits a
-- character.
def slice? (t : Tree) (s : Span) : Option String :=
  Text.slice? t.source s.start s.stop

-- The line, counted from one, of a byte offset.
def lineOf (t : Tree) (offset : Nat) : Nat :=
  (t.lineStarts.takeWhile (· ≤ offset)).length

def nodeCount (t : Tree) : Nat := t.nodes.size

def tokenCount (t : Tree) : Nat := t.tokens.size

def nodeKind? (t : Tree) (id : Nat) : Option Nat :=
  t.nodes[id]?.map (·.kind)

def nodeName (t : Tree) (id : Nat) : String :=
  ((t.nodeKind? id).bind t.grammar.nodeKindName?).getD ""

def nodeSpan? (t : Tree) (id : Nat) : Option Span :=
  t.nodes[id]?.bind (·.span)

def nodeSpan (t : Tree) (id : Nat) : Span :=
  (t.nodeSpan? id).getD .empty

def hasTokens (t : Tree) (id : Nat) : Bool :=
  (t.nodeSpan? id).isSome

def nodeText (t : Tree) (id : Nat) : String :=
  (t.slice? (t.nodeSpan id)).getD ""

def nodeLine? (t : Tree) (id : Nat) : Option Nat :=
  (t.nodeSpan? id).map (t.lineOf ·.start)

def nodeParent? (t : Tree) (id : Nat) : Option Nat :=
  t.nodes[id]?.bind (·.parent)

def children (t : Tree) (id : Nat) : List ChildId :=
  (t.nodes[id]?.map (·.children)).getD []

def childNodes (t : Tree) (id : Nat) : List Nat :=
  (t.children id).filterMap ChildId.node?

def nodeIs (t : Tree) (kind id : Nat) : Bool :=
  t.nodeKind? id = some kind

def childOfKind? (t : Tree) (id kind : Nat) : Option Nat :=
  (t.childNodes id).find? (t.nodeIs kind)

-- The nodes on a stack and below them, depth first. The fuel bounds their number.
def walkNodes (t : Tree) : Nat → List Nat → List Nat
  | 0, _ => []
  | _, [] => []
  | fuel + 1, id :: stack => id :: t.walkNodes fuel (t.childNodes id ++ stack)

-- All nodes below a node, in document order.
def descendants (t : Tree) (id : Nat) : List Nat :=
  t.walkNodes t.nodes.size (t.childNodes id)

def selectKind (t : Tree) (id kind : Nat) : List Nat :=
  (t.descendants id).filter (t.nodeIs kind)

def selectKinds (t : Tree) (id : Nat) (kinds : List Nat) : List Nat :=
  (t.descendants id).filter fun d => (t.nodeKind? d).any kinds.contains

-- A name that the grammar does not have selects nothing.
def selectNamed (t : Tree) (id : Nat) (name : String) : List Nat :=
  match t.grammar.nodeKind? name with
  | some kind => t.selectKind id kind
  | none => []

-- The nodes above a node, the nearest first. The fuel bounds their number.
def ancestorsFrom (t : Tree) : Nat → Nat → List Nat
  | 0, _ => []
  | fuel + 1, id => match t.nodeParent? id with
    | none => []
    | some parent => parent :: t.ancestorsFrom fuel parent

def ancestors (t : Tree) (id : Nat) : List Nat :=
  t.ancestorsFrom t.nodes.size id

def depth (t : Tree) (id : Nat) : Nat :=
  (t.ancestors id).length

def tokenKind? (t : Tree) (id : Nat) : Option Nat :=
  t.tokens[id]?.map (·.kind)

def tokenName (t : Tree) (id : Nat) : String :=
  ((t.tokenKind? id).bind t.grammar.tokenKindName?).getD ""

def tokenValue (t : Tree) (id : Nat) : String :=
  (t.tokens[id]?.map (·.value)).getD ""

def tokenSpan (t : Tree) (id : Nat) : Span :=
  (t.tokens[id]?.map (·.span)).getD .empty

def tokenOffset (t : Tree) (id : Nat) : Nat :=
  (t.tokenSpan id).start

def tokenLine (t : Tree) (id : Nat) : Nat :=
  t.lineOf (t.tokenOffset id)

def isTrivia (t : Tree) (id : Nat) : Bool :=
  (t.tokenKind? id).any t.grammar.isTrivia

def tokenParent? (t : Tree) (id : Nat) : Option Nat :=
  t.tokens[id]?.bind (·.parent)

-- The tokens on a stack of children and below them, depth first. The fuel bounds the number of
-- nodes and tokens.
def walkTokens (t : Tree) : Nat → List ChildId → List Nat
  | 0, _ => []
  | _, [] => []
  | fuel + 1, .token id :: stack => id :: t.walkTokens fuel stack
  | fuel + 1, .node id :: stack => t.walkTokens fuel (t.children id ++ stack)

-- All tokens below a node, in the order of the tree.
def tokensOf (t : Tree) (id : Nat) : List Nat :=
  t.walkTokens (t.nodes.size + t.tokens.size) (t.children id)

def firstToken? (t : Tree) (id : Nat) : Option Nat :=
  (t.tokensOf id).head?

-- The text of a node without trivia.
def semanticText (t : Tree) (id : Nat) : String :=
  String.join (((t.tokensOf id).filter (!t.isTrivia ·)).map t.tokenValue)

-- The token that covers an offset. Of the tokens that begin at or before it only the last is
-- looked at.
def tokenAt? (t : Tree) (offset : Nat) : Option Nat :=
  match (t.tokens.toList.takeWhile (·.span.start ≤ offset)).length with
  | 0 => none
  | id + 1 => if (t.tokenSpan id).contains offset then some id else none

def childSpan (t : Tree) : ChildId → Span
  | .node id => t.nodeSpan id
  | .token id => t.tokenSpan id

def childText (t : Tree) : ChildId → String
  | .node id => t.nodeText id
  | .token id => t.tokenValue id

def describeNode (t : Tree) (id : Nat) : String :=
  s!"Node \x7b id: {id}, kind: {Text.quoted (t.nodeName id)}, span: {(t.nodeSpan id).describe} \x7d"

def describeToken (t : Tree) (id : Nat) : String :=
  s!"Token \x7b id: {id}, kind: {Text.quoted (t.tokenName id)}, value: {Text.quoted (t.tokenValue id)}, offset: {t.tokenOffset id} \x7d"

-- The name, span and depth of every node in document order.
def outline (t : Tree) : List (String × Span × Nat) :=
  (List.range t.nodes.size).map fun id => (t.nodeName id, t.nodeSpan id, t.depth id)

end Tree

end ExternalParser
