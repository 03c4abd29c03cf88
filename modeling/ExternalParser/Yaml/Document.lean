import ExternalParser.Yaml.Lexer
import ExternalParser.Yaml.Node

namespace ExternalParser.Yaml

-- Adds a handle unless the document has given it a meaning already.
def Handles.add (handles : Handles) (name : String) (expansion : Bytes) : Handles :=
  if (handles.lookup name).isSome then handles else handles ++ [(name, expansion)]

-- The handles that every document has.
def Handles.withDefaults (handles : Handles) : Handles :=
  (handles.add "!" [0x21]).add "!!" (Utf8.encode "tag:yaml.org,2002:")

-- Reads the directives before a document. Nothing is said twice, and the version is one that is
-- known.
def readDirectives (versionSeen : Bool) (handles : Handles) :
    List Token → Option (Handles × List Token)
  | .version major minor :: ts =>
      if versionSeen ∨ major ≠ 1 ∨ (minor ≠ 1 ∧ minor ≠ 2) then none
      else readDirectives true handles ts
  | .handle name expansion :: ts =>
      if (handles.lookup name).isSome then none
      else readDirectives versionSeen (handles ++ [(name, expansion)]) ts
  | ts => some (handles.withDefaults, ts)

-- The numbers of the anchors so far, the latest first.
abbrev Labels := List (String × Nat)

-- A new anchor gets the number of different names before it, also one whose name was used before.
def Labels.add (labels : Labels) (name : String) : Nat × Labels :=
  let id := (labels.map (·.1)).eraseDups.length
  (id, (name, id) :: labels)

def Labels.addAnchor (labels : Labels) : Option String → Option Nat × Labels
  | some name => let (id, labels) := labels.add name; (some id, labels)
  | none => (none, labels)

namespace Node

mutual

-- Numbers the anchors in the order of the text. Every alias has to name one before it.
def number (labels : Labels) : Node String → Option (Node Nat × Labels)
  | .alias name => do return (.alias (← labels.lookup name), labels)
  | .scalar anchor s =>
      let (id, labels) := labels.addAnchor anchor
      some (.scalar id s, labels)
  | .sequence anchor items => do
      let (id, labels) := labels.addAnchor anchor
      let (items, labels) ← numberItems labels items
      return (.sequence id items, labels)
  | .mapping anchor entries => do
      let (id, labels) := labels.addAnchor anchor
      let (entries, labels) ← numberEntries labels entries
      return (.mapping id entries, labels)

def numberItems (labels : Labels) : List (Node String) → Option (List (Node Nat) × Labels)
  | [] => some ([], labels)
  | item :: items => do
      let (item, labels) ← number labels item
      let (items, labels) ← numberItems labels items
      return (item :: items, labels)

def numberEntries (labels : Labels) :
    List (Node String × Node String) → Option (List (Node Nat × Node Nat) × Labels)
  | [] => some ([], labels)
  | (key, value) :: entries => do
      let (key, labels) ← number labels key
      let (value, labels) ← number labels value
      let (entries, labels) ← numberEntries labels entries
      return ((key, value) :: entries, labels)

end

-- A node under its number, if it has one.
def labelled (id : Option Nat) (n : Node Nat) : List (Nat × Node Nat) :=
  (id.map (·, n)).toList

mutual

-- The nodes with a number, in the order of the text.
def anchored (n : Node Nat) : List (Nat × Node Nat) :=
  match n with
  | .alias _ => []
  | .scalar id s => labelled id (.scalar id s)
  | .sequence id items => labelled id (.sequence id items) ++ anchoredItems items
  | .mapping id entries => labelled id (.mapping id entries) ++ anchoredEntries entries

def anchoredItems : List (Node Nat) → List (Nat × Node Nat)
  | [] => []
  | item :: items => anchored item ++ anchoredItems items

def anchoredEntries : List (Node Nat × Node Nat) → List (Nat × Node Nat)
  | [] => []
  | (key, value) :: entries => anchored key ++ anchored value ++ anchoredEntries entries

end

end Node

structure Document where
  -- A text without a document has no root.
  root : Option (Node Nat)
  -- What the aliases stand for, the last node first.
  targets : List (Nat × Node Nat)

namespace Document

def empty : Document := ⟨none, []⟩

-- What an alias stands for; any other node stands for itself.
def follow (d : Document) (n : Node Nat) : Node Nat :=
  match n with
  | .alias id => (d.targets.lookup id).getD n
  | n => n

def ofNode? (n : Node String) : Option Document := do
  let (root, _) ← n.number []
  return ⟨some root, root.anchored.reverse⟩

-- A document whose first token shows that it is empty.
def atDocumentGap : List Token → Bool
  | [] | .version _ _ :: _ | .handle _ _ :: _ | .documentStart :: _ | .documentEnd :: _ => true
  | _ => false

-- Reads a node, which is the whole document.
def readRoot (handles : Handles) (ts : List Token) : Option (Node String × List Token) :=
  Node.read handles (4 * (ts.length + 1)) .block ts

-- Reads a document. The first one of a text needs no mark unless directives come before it.
def read (ts : List Token) : Option (Document × List Token) := do
  match ts with
  | .version _ _ :: _ | .handle _ _ :: _ | .documentStart :: _ =>
      let (handles, ts) ← readDirectives false [] ts
      match ts with
      | .documentStart :: ts =>
          let (node, ts) ← if atDocumentGap ts then pure (Node.empty, ts) else readRoot handles ts
          return (← ofNode? node, ts)
      | _ => none
  | [] => return (empty, [])
  | ts =>
      let (node, ts) ← readRoot (Handles.withDefaults []) ts
      return (← ofNode? node, ts)

-- The document of a text that holds one, or none.
def parse? (text : String) : Option Document := do
  let (document, ts) ← read (← tokens? text)
  if ts.all (· = .documentEnd) then return document else none

end Document

end ExternalParser.Yaml
