import ExternalParser.Json.Writer
import ExternalParser.Record.Basic
import ExternalParser.Text.Cut
import ExternalParser.Tree.Basic

namespace ExternalParser

-- What is wrong with a record.
inductive Defect where
  | unknownTokenKind (index kind : Nat) (grammar : String)
  | pastEnd (index length offset sourceLength : Nat)
  | splitCharacter (index start stop : Nat)
  | outOfOrder (index offset previous : Nat)
  | unknownNodeKind (id kind : Nat) (grammar : String)
  | danglingToken (parent index count : Nat)
  | sharedToken (index first second : Nat)
  | invalidChild (parent : Nat) (value : Json.Value)

def Defect.message : Defect → String
  | .unknownTokenKind index kind grammar =>
      s!"token {index} has kind {kind} which grammar '{grammar}' does not define"
  | .pastEnd index length offset sourceLength =>
      s!"token {index} ({length} bytes at offset {offset}) extends past the end of the {sourceLength}-byte source"
  | .splitCharacter index start stop =>
      s!"token {index} ({start}..{stop}) splits a character of the source"
  | .outOfOrder index offset previous =>
      s!"token {index} at offset {offset} precedes the previous token at offset {previous}"
  | .unknownNodeKind id kind grammar =>
      s!"node {id} has kind {kind} which grammar '{grammar}' does not define"
  | .danglingToken parent index count =>
      s!"node {parent} references token {index}, but the stream has {count} tokens"
  | .sharedToken index first second =>
      s!"token {index} is a child of both node {first} and node {second}"
  | .invalidChild parent value =>
      s!"child of node {parent} is neither a token index nor a node record: {value.compact}"

namespace TokenRecord

def stop (t : TokenRecord) : Nat :=
  t.offset + t.value.utf8ByteSize

-- The first defect of the token at `index`, whose predecessor begins at `previous`.
def defect? (g : Grammar) (source : String) (index previous : Nat) (t : TokenRecord) :
    Option Defect :=
  if ¬ g.tokenKinds.contains t.kind then some (.unknownTokenKind index t.kind g.name)
  else if source.utf8ByteSize < t.stop then
    some (.pastEnd index t.value.utf8ByteSize t.offset source.utf8ByteSize)
  else if ¬ (Text.isBoundary source t.offset ∧ Text.isBoundary source t.stop) then
    some (.splitCharacter index t.offset t.stop)
  else if t.offset < previous then some (.outOfOrder index t.offset previous)
  else none

end TokenRecord

-- The first defect of a stream, from the token at `index` on.
def streamDefect? (g : Grammar) (source : String) : Nat → Nat → List TokenRecord → Option Defect
  | _, _, [] => none
  | index, previous, t :: ts =>
      match t.defect? g source index previous with
      | some d => some d
      | none => streamDefect? g source (index + 1) t.offset ts

-- One stop of the walk through a nested description. Nodes are numbered in the order in which the
-- walk meets them.
inductive Visit where
  | node (id kind : Nat)
  | token (parent index : Nat)
  | invalid (parent : Nat) (value : Json.Value)

mutual

-- The number of nodes in a child.
def ChildRecord.nodeCount : ChildRecord → Nat
  | .node _ children => 1 + nodeCounts children
  | .token _ | .invalid _ => 0

def nodeCounts : List ChildRecord → Nat
  | [] => 0
  | c :: cs => c.nodeCount + nodeCounts cs

end

mutual

-- The walk through a child of `parent`, whose first node gets the number `next`.
def ChildRecord.visits (parent next : Nat) : ChildRecord → List Visit
  | .token index => [.token parent index]
  | .node kind children => .node next kind :: visitsOf next (next + 1) children
  | .invalid value => [.invalid parent value]

def visitsOf (parent next : Nat) : List ChildRecord → List Visit
  | [] => []
  | c :: cs => c.visits parent next ++ visitsOf parent (next + c.nodeCount) cs

end

def NodeRecord.visits (r : NodeRecord) : List Visit :=
  .node 0 r.kind :: visitsOf 0 1 r.children

-- The nodes that own the tokens so far.
abbrev Owners := Array (Option Nat)

def Visit.check (g : Grammar) (owners : Owners) : Visit → Except Defect Owners
  | .node id kind =>
      if g.nodeKinds.contains kind then .ok owners else .error (.unknownNodeKind id kind g.name)
  | .token parent index =>
      match owners[index]? with
      | none => .error (.danglingToken parent index owners.size)
      | some (some first) => .error (.sharedToken index first parent)
      | some none => .ok (owners.setIfInBounds index (some parent))
  | .invalid parent value => .error (.invalidChild parent value)

-- The owners of the tokens of a record without defects.
def ParseRecord.check (g : Grammar) (source : String) (r : ParseRecord) : Except Defect Owners :=
  match streamDefect? g source 0 0 r.stream with
  | some d => .error d
  | none => r.tree.visits.foldlM (Visit.check g) (Array.replicate r.stream.length none)

end ExternalParser
