import ExternalParser.Tree.Build

namespace ExternalParser

-- A tree while it is being built: the nodes met so far, and all tokens.
structure Arena where
  nodes : Array NodeData
  tokens : Array TokenData

-- A node whose children are still to come.
structure OpenNode where
  id : Nat
  rest : List ChildRecord

namespace Arena

-- The children and the span of a new node come later.
def pushNode (g : Grammar) (kind : Nat) (parent : Option Nat) (a : Arena) : Except Defect Arena :=
  if g.nodeKinds.contains kind then .ok { a with nodes := a.nodes.push ⟨kind, parent, [], none⟩ }
  else .error (.unknownNodeKind a.nodes.size kind g.name)

-- Appends a child to those of a node.
def adopt (parent : Nat) (child : ChildId) (a : Arena) : Arena :=
  { a with nodes := a.nodes.modify parent fun d => { d with children := d.children ++ [child] } }

-- Marks a token with its parent. A mark that it has already is a defect.
def claim (parent index : Nat) (a : Arena) : Except Defect Arena :=
  match a.tokens[index]? with
  | none => .error (.danglingToken parent index a.tokens.size)
  | some token => match token.parent with
    | some owner => .error (.sharedToken index owner parent)
    | none =>
        .ok { a with tokens := a.tokens.setIfInBounds index { token with parent := some parent } }

-- One turn for the innermost open node: the arena after its next child, and the nodes that are open then
-- in its place. A node without further children is closed.
def turn (g : Grammar) (a : Arena) (o : OpenNode) : Except Defect (Arena × List OpenNode) :=
  match o.rest with
  | [] => .ok (a, [])
  | .token index :: rest => do
      let a ← a.claim o.id index
      return (a.adopt o.id (.token index), [⟨o.id, rest⟩])
  | .node kind children :: rest => do
      let id := a.nodes.size
      let a ← a.pushNode g kind (some o.id)
      return (a.adopt o.id (.node id), [⟨id, children⟩, ⟨o.id, rest⟩])
  | .invalid value :: _ => .error (.invalidChild o.id value)

-- The size of what is still to come.
noncomputable def pending : List OpenNode → Nat
  | [] => 0
  | o :: stack => sizeOf o.rest + pending stack

theorem pending_turn_lt {g : Grammar} {a b : Arena} {o : OpenNode} {inner : List OpenNode}
    (h : turn g a o = .ok (b, inner)) (stack : List OpenNode) :
    pending (inner ++ stack) < pending (o :: stack) := by
  obtain ⟨id, rest⟩ := o
  cases rest with
  | nil =>
      cases h
      simp [pending]
  | cons c rest =>
      cases c with
      | token index =>
          simp only [turn, bind, Except.bind] at h
          split at h
          · cases h
          · cases h
            simp only [List.singleton_append, pending, List.cons.sizeOf_spec]
            omega
      | node kind children =>
          simp only [turn, bind, Except.bind] at h
          split at h
          · cases h
          · cases h
            simp only [List.cons_append, List.nil_append, pending, List.cons.sizeOf_spec,
              ChildRecord.node.sizeOf_spec]
            omega
      | invalid value => cases h

-- Takes turns until no node is open. The innermost node is on top of the stack.
def materialize (g : Grammar) (a : Arena) (stack : List OpenNode) : Except Defect Arena :=
  match stack with
  | [] => .ok a
  | o :: others =>
      match _h : turn g a o with
      | .error d => .error d
      | .ok (b, inner) => materialize g b (inner ++ others)
termination_by pending stack
decreasing_by exact pending_turn_lt _h others

end Arena

-- The span that is stored for a child.
def ChildId.span? (tokens : Array TokenData) (nodes : Array NodeData) : ChildId → Option Span
  | .node id => nodes[id]?.bind NodeData.span
  | .token id => tokens[id]?.map TokenData.span

-- Stores the span of a node, given those of its children.
def storeSpan (tokens : Array TokenData) (nodes : Array NodeData) (id : Nat) : Array NodeData :=
  nodes.modify id fun d =>
    { d with span := Span.cover? (d.children.map (ChildId.span? tokens nodes)) }

-- Children stand behind their parent, so that a pass from the end finds their spans.
def sweepSpans (tokens : Array TokenData) (nodes : Array NodeData) : Array NodeData :=
  (List.range nodes.size).reverse.foldl (storeSpan tokens) nodes

-- A token that no node has as a child yet.
def TokenRecord.data (t : TokenRecord) : TokenData :=
  ⟨t.kind, t.value, t.span, none⟩

namespace Tree

-- The tree of a record, node by node.
def build (g : Grammar) (source : String) (r : ParseRecord) : Except Defect Tree := do
  if let some d := streamDefect? g source 0 0 r.stream then throw d
  let tokens := (r.stream.map TokenRecord.data).toArray
  let a ← Arena.pushNode g r.tree.kind none ⟨#[], tokens⟩
  let a ← a.materialize g [⟨0, r.tree.children⟩]
  return {
    source := source
    grammar := g
    tokens := a.tokens
    nodes := sweepSpans a.tokens a.nodes
    lineStarts := 0 :: lineStartsFrom 0 source.toList }

end Tree

end ExternalParser
