import ExternalParser.Yaml.Token

namespace ExternalParser.Yaml

structure Scalar where
  text : String
  style : Style
  tag : Option Bytes
deriving DecidableEq

inductive Node (ι : Type) where
  | alias (label : ι)
  | scalar (anchor : Option ι) (s : Scalar)
  | sequence (anchor : Option ι) (items : List (Node ι))
  | mapping (anchor : Option ι) (entries : List (Node ι × Node ι))

-- The handles that a document may use, with what they stand for.
abbrev Handles := List (String × Bytes)

-- What an empty place stands for.
def Node.empty {ι : Type} : Node ι := .scalar none ⟨"", .plain, none⟩

-- The anchor and the tag of a node.
structure Properties where
  anchor : Option String
  tag : Option Bytes

namespace Properties

-- The tag of a handle and a suffix.
def expand (handles : Handles) (handle : String) (suffix : Bytes) : Option Bytes :=
  if handle = "" then some suffix else (handles.lookup handle).map (· ++ suffix)

-- Reads the properties before a node, which come in either order.
def read (handles : Handles) : List Token → Option (Properties × List Token)
  | .anchor name :: .tag handle suffix :: ts
  | .tag handle suffix :: .anchor name :: ts => do
      return (⟨some name, some (← expand handles handle suffix)⟩, ts)
  | .anchor name :: ts => some (⟨some name, none⟩, ts)
  | .tag handle suffix :: ts => do
      return (⟨none, some (← expand handles handle suffix)⟩, ts)
  | ts => some (⟨none, none⟩, ts)

-- The tag of a scalar that is written out. A lone mark leaves it without one.
def scalarTag (p : Properties) : Option Bytes :=
  if p.tag = some [0x21] then none else p.tag

end Properties

-- Where a node stands. Blocks stand outside of the flow collections, and the entries of a sequence
-- need no indentation inside a mapping.
inductive Place where
  | flow
  | block
  | entryOfMapping
deriving DecidableEq

namespace Node

-- The next token shows that nothing stands in an entry of a sequence without indentation, or in a
-- key or value of a block.
def atBlockGap : List Token → Bool
  | .key :: _ | .value :: _ | .blockEnd :: _ => true
  | _ => false

def atFlowGap (close : Token) : List Token → Bool
  | .comma :: _ => true
  | t :: _ => t = close
  | [] => false

mutual

-- Reads a node. The fuel bounds the steps.
def read (handles : Handles) : Nat → Place → List Token → Option (Node String × List Token)
  | 0, _, _ => none
  | fuel + 1, place, ts => match ts with
    | .alias name :: ts => some (.alias name, ts)
    | ts => do
        let (p, ts) ← Properties.read handles ts
        match ts with
        | .scalar text style :: ts => return (.scalar p.anchor ⟨text, style, p.scalarTag⟩, ts)
        | .flowSequence :: ts =>
            let (items, ts) ← readFlowItems handles fuel true ts
            return (.sequence p.anchor items, ts)
        | .flowMapping :: ts =>
            let (entries, ts) ← readFlowEntries handles fuel true ts
            return (.mapping p.anchor entries, ts)
        | ts => match place, ts with
          | .entryOfMapping, .entry :: _ =>
              let (items, ts) ← readLooseItems handles fuel ts
              return (.sequence p.anchor items, ts)
          | .block, .blockSequence :: ts | .entryOfMapping, .blockSequence :: ts =>
              let (items, ts) ← readItems handles fuel ts
              return (.sequence p.anchor items, ts)
          | .block, .blockMapping :: ts | .entryOfMapping, .blockMapping :: ts =>
              let (entries, ts) ← readEntries handles fuel ts
              return (.mapping p.anchor entries, ts)
          | _, ts =>
              if p.anchor.isSome ∨ p.tag.isSome then
                return (.scalar p.anchor ⟨"", .plain, p.tag⟩, ts)
              else none

-- The items of a block sequence, up to the end of the block.
def readItems (handles : Handles) : Nat → List Token → Option (List (Node String) × List Token)
  | 0, _ => none
  | fuel + 1, ts => match ts with
    | .blockEnd :: ts => some ([], ts)
    | .entry :: ts => do
        let missing := ts.head? = some .entry ∨ ts.head? = some .blockEnd
        let (item, ts) ← if missing then pure (empty, ts) else read handles fuel .block ts
        let (items, ts) ← readItems handles fuel ts
        return (item :: items, ts)
    | _ => none

-- The items of a sequence without indentation.
def readLooseItems (handles : Handles) : Nat → List Token →
    Option (List (Node String) × List Token)
  | 0, _ => none
  | fuel + 1, ts => match ts with
    | .entry :: ts => do
        let missing := ts.head? = some .entry ∨ atBlockGap ts
        let (item, ts) ← if missing then pure (empty, ts) else read handles fuel .block ts
        let (items, ts) ← readLooseItems handles fuel ts
        return (item :: items, ts)
    | ts => some ([], ts)

-- A key or a value of a block mapping.
def readBlockPart (handles : Handles) : Nat → List Token → Option (Node String × List Token)
  | 0, _ => none
  | fuel + 1, ts => if atBlockGap ts then some (empty, ts) else read handles fuel .entryOfMapping ts

-- The entries of a block mapping, up to the end of the block.
def readEntries (handles : Handles) : Nat → List Token →
    Option (List (Node String × Node String) × List Token)
  | 0, _ => none
  | fuel + 1, ts => match ts with
    | .blockEnd :: ts => some ([], ts)
    | .key :: ts => do
        let (key, ts) ← readBlockPart handles fuel ts
        let (value, ts) ← match ts with
          | .value :: ts => readBlockPart handles fuel ts
          | ts => pure (empty, ts)
        let (entries, ts) ← readEntries handles fuel ts
        return ((key, value) :: entries, ts)
    | _ => none

-- The value after a key in a flow collection, empty if there is none.
def readFlowValue (handles : Handles) (close : Token) : Nat → List Token →
    Option (Node String × List Token)
  | 0, _ => none
  | fuel + 1, ts => match ts with
    | .value :: ts => if atFlowGap close ts then some (empty, ts) else read handles fuel .flow ts
    | ts => some (empty, ts)

-- The items of a flow sequence, up to its end. An item that is marked as a key, or that a colon
-- follows, is a mapping with one entry; a token that stands where its key is missing is passed.
def readFlowItems (handles : Handles) : Nat → Bool → List Token →
    Option (List (Node String) × List Token)
  | 0, _, _ => none
  | fuel + 1, first, ts => match ts with
    | .flowSequenceEnd :: ts => some ([], ts)
    | ts => do
        let ts ← if first then pure ts else match ts with
          | .comma :: ts => pure ts
          | _ => none
        match ts with
        | .flowSequenceEnd :: ts => return ([], ts)
        | .key :: ts =>
            let (key, ts) ← match ts with
              | .value :: ts | .comma :: ts | .flowSequenceEnd :: ts => pure (empty, ts)
              | ts => read handles fuel .flow ts
            let (value, ts) ← readFlowValue handles .flowSequenceEnd fuel ts
            let (items, ts) ← readFlowItems handles fuel false ts
            return (.mapping none [(key, value)] :: items, ts)
        | ts =>
            let (item, ts) ← read handles fuel .flow ts
            let (items, ts) ← readFlowItems handles fuel false ts
            return (item :: items, ts)

-- The entries of a flow mapping, up to its end.
def readFlowEntries (handles : Handles) : Nat → Bool → List Token →
    Option (List (Node String × Node String) × List Token)
  | 0, _, _ => none
  | fuel + 1, first, ts => match ts with
    | .flowMappingEnd :: ts => some ([], ts)
    | ts => do
        let ts ← if first then pure ts else match ts with
          | .comma :: ts => pure ts
          | _ => none
        match ts with
        | .flowMappingEnd :: ts => return ([], ts)
        | .key :: ts =>
            let missing := ts.head? = some .value ∨ atFlowGap .flowMappingEnd ts
            let (key, ts) ← if missing then pure (empty, ts) else read handles fuel .flow ts
            let (value, ts) ← readFlowValue handles .flowMappingEnd fuel ts
            let (entries, ts) ← readFlowEntries handles fuel false ts
            return ((key, value) :: entries, ts)
        | ts =>
            let (key, ts) ← read handles fuel .flow ts
            let (entries, ts) ← readFlowEntries handles fuel false ts
            return ((key, empty) :: entries, ts)

end

end Node

end ExternalParser.Yaml
