import ExternalParser.Json.Token

namespace ExternalParser.Json

-- Whether the reader wants the value or skips it.
inductive Mode where
  | keep
  | skip
deriving DecidableEq

namespace Ending

-- The fault where a value was wanted.
def atValue (m : Mode) : Ending → Fault
  | .finished => .truncated
  | .broken _ kept skipped => if m = .keep then kept else skipped

-- The fault where a separator or a closing bracket was wanted.
def atMark : Ending → Fault
  | .finished => .truncated
  | .broken _ _ _ => .malformed

-- The fault where the name of a field was wanted.
def atName (m : Mode) : Ending → Fault
  | .finished => .truncated
  | .broken true kept skipped => if m = .keep then kept else skipped
  | .broken false _ _ => .malformed

end Ending

-- A container that is still open. The items are in reverse; the name is that of the field whose
-- value is being read.
inductive Frame where
  | items (done : List Value)
  | fields (done : Fields) (name : String)

-- What may come next.
inductive Want where
  | value
  | firstItem
  | nextItem
  | firstName
  | name
  | nextName
  | colon
deriving DecidableEq

-- What a token leads to: a whole value, or more to read.
inductive Progress where
  | whole (v : Value)
  | more (want : Want) (stack : List Frame)

-- A value is over: it is the whole one, or a part of the innermost open container.
def complete (v : Value) : List Frame → Progress
  | [] => .whole v
  | .items done :: stack => .more .nextItem (.items (v :: done) :: stack)
  | .fields done name :: stack => .more .nextName (.fields (done.insert name v) name :: stack)

-- The text of a string token. A skipping reader does not ask whether it has one.
def textOf (m : Mode) : Option String → Except Fault String
  | some s => .ok s
  | none => if m = .keep then .error .malformed else .ok ""

def numberOf (m : Mode) (n : Numeral) : Except Fault Number :=
  match m, n.number? with
  | .skip, _ => .ok (.natural 0)
  | .keep, some x => .ok x
  | .keep, none => .error .malformed

-- A token where a value is wanted.
def beginValue (m : Mode) (stack : List Frame) : Token → Except Fault Progress
  | .null => .ok (complete .null stack)
  | .bool b => .ok (complete (.bool b) stack)
  | .num n => do return complete (.num (← numberOf m n)) stack
  | .str text => do return complete (.str (← textOf m text)) stack
  | .openBracket => .ok (.more .firstItem (.items [] :: stack))
  | .openBrace => .ok (.more .firstName (.fields [] "" :: stack))
  | .closeBracket | .closeBrace | .comma | .colon => .error .malformed

-- The name of the next field.
def beginField (m : Mode) (text : Option String) : List Frame → Except Fault Progress
  | .fields done _ :: stack => do return .more .colon (.fields done (← textOf m text) :: stack)
  | _ => .error .malformed

-- The innermost open container is closed.
def closeItems : List Frame → Except Fault Progress
  | .items done :: stack => .ok (complete (.arr done.reverse) stack)
  | _ => .error .malformed

def closeFields : List Frame → Except Fault Progress
  | .fields done _ :: stack => .ok (complete (.obj done) stack)
  | _ => .error .malformed

def advance (m : Mode) (stack : List Frame) : Want → Token → Except Fault Progress
  | .value, t => beginValue m stack t
  | .firstItem, .closeBracket => closeItems stack
  | .firstItem, t => beginValue m stack t
  | .nextItem, .closeBracket => closeItems stack
  | .nextItem, .comma => .ok (.more .value stack)
  | .nextItem, _ => .error .malformed
  | .firstName, .closeBrace => closeFields stack
  | .firstName, .str text => beginField m text stack
  | .firstName, _ => .error .malformed
  | .name, .str text => beginField m text stack
  | .name, _ => .error .malformed
  | .nextName, .closeBrace => closeFields stack
  | .nextName, .comma => .ok (.more .name stack)
  | .nextName, _ => .error .malformed
  | .colon, .colon => .ok (.more .value stack)
  | .colon, _ => .error .malformed

-- The fault of a list of tokens that is over too early.
def Ending.fault (e : Ending) (m : Mode) : Want → Fault
  | .value | .firstItem => e.atValue m
  | .firstName | .name => e.atName m
  | .nextItem | .nextName | .colon => e.atMark

-- Goes on reading with the containers of `stack` open, up to the end of the outermost one.
def readFrom (m : Mode) (e : Ending) : Want → List Frame → List Token →
    Except Fault (Value × List Token)
  | want, _, [] => .error (e.fault m want)
  | want, stack, t :: ts =>
      match advance m stack want t with
      | .error f => .error f
      | .ok (.whole v) => .ok (v, ts)
      | .ok (.more want stack) => readFrom m e want stack ts

-- One value and the tokens after it.
def readValue (e : Ending) (ts : List Token) : Except Fault (Value × List Token) :=
  readFrom .keep e .value [] ts

-- The tokens after one value.
def skipValue (e : Ending) (ts : List Token) : Except Fault (List Token) := do
  let (_, rest) ← readFrom .skip e .value [] ts
  return rest

-- What stands where something else was wanted.
def Token.found : Token → Except Fault Found
  | .null => .ok .nothing
  | .bool b => .ok (.boolean b)
  | .num n => do return (← numberOf .keep n).found
  | .str text => do return .text (← textOf .keep text)
  | .openBracket => .ok .sequence
  | .openBrace => .ok .mapping
  | .closeBracket | .closeBrace | .comma | .colon => .error .malformed

-- The fault of a token of the wrong kind.
def Token.refuse (t : Token) (wanted : String) : Fault :=
  match t.found with
  | .ok found => .mismatch (.wrongType found wanted)
  | .error f => f

-- A natural number up to `limit`.
def readNatural (limit : Nat) (wanted : String) (e : Ending) :
    List Token → Except Fault (Nat × List Token)
  | [] => .error (e.atValue .keep)
  | .num n :: ts => do
      match ← numberOf .keep n with
      | .natural k =>
          if k ≤ limit then return (k, ts) else throw (.mismatch (.wrongValue (.integer k) wanted))
      | .negative k => throw (.mismatch (.wrongValue (.integer (-Int.ofNat k)) wanted))
      | .real x => throw (.mismatch (.wrongType (.real (.finite x)) wanted))
  | t :: _ => .error (t.refuse wanted)

def readText (e : Ending) : List Token → Except Fault (String × List Token)
  | [] => .error (e.atValue .keep)
  | .str text :: ts => do return (← textOf .keep text, ts)
  | t :: _ => .error (t.refuse "a string")

-- Whether an array goes on, and the tokens from its next item or its closing bracket on. A text
-- that is broken here leaves it to the reader of the item to say how.
def nextItem (e : Ending) (first : Bool) : List Token → Except Fault (Bool × List Token)
  | [] =>
      if first ∧ e ≠ .finished then .ok (true, []) else .error e.atMark
  | .closeBracket :: ts => .ok (false, .closeBracket :: ts)
  | t :: ts =>
      if first then .ok (true, t :: ts)
      else if t = .comma then
        match ts with
        | [] => if e = .finished then .error .truncated else .ok (true, [])
        | .closeBracket :: _ => .error .malformed
        | _ => .ok (true, ts)
      else .error .malformed

-- The tokens after the end of an array that has all its items.
def endItems (e : Ending) : List Token → Except Fault (List Token)
  | [] => .error e.atMark
  | .closeBracket :: ts => .ok ts
  | _ :: _ => .error .malformed

-- The name of the next field of an object, or none at its closing brace.
def nextName (e : Ending) (first : Bool) : List Token → Except Fault (Option String × List Token)
  | [] => .error (if first then e.atName .keep else e.atMark)
  | .closeBrace :: ts => .ok (none, ts)
  | .str text :: ts => do
      if first then return (some (← textOf .keep text), ts) else throw .malformed
  | .comma :: ts =>
      if first then .error .malformed
      else match ts with
        | [] => .error (e.atName .keep)
        | .str text :: ts => do return (some (← textOf .keep text), ts)
        | _ => .error .malformed
  | _ :: _ => .error .malformed

def readColon (e : Ending) : List Token → Except Fault (List Token)
  | [] => .error e.atMark
  | .colon :: ts => .ok ts
  | _ :: _ => .error .malformed

-- The items of an array from its opening bracket on. The fuel bounds the number of items.
def readItems (item : List Token → Except Fault (α × List Token)) (e : Ending) :
    Nat → Bool → List α → List Token → Except Fault (List α × List Token)
  | 0, _, _, _ => .error .truncated
  | fuel + 1, first, done, ts => do
      let (more, ts) ← nextItem e first ts
      if more then
        let (x, ts) ← item ts
        readItems item e fuel false (x :: done) ts
      else
        return (done.reverse, ← endItems e ts)

-- An array of any length.
def readArray (item : List Token → Except Fault (α × List Token)) (e : Ending) :
    List Token → Except Fault (List α × List Token)
  | [] => .error (e.atValue .keep)
  | .openBracket :: ts => readItems item e (ts.length + 1) true [] ts
  | t :: _ => .error (t.refuse "a sequence")

-- The fields of an object from its opening brace on, each handed to `field` with the tokens after
-- its name.
def readFields (field : σ → String → List Token → Except Fault (σ × List Token)) (e : Ending) :
    Nat → Bool → σ → List Token → Except Fault (σ × List Token)
  | 0, _, _, _ => .error .truncated
  | fuel + 1, first, s, ts => do
      match ← nextName e first ts with
      | (none, ts) => return (s, ts)
      | (some name, ts) =>
          let (s, ts) ← field s name ts
          readFields field e fuel false s ts

-- Sets a field that must not be set twice; the value stands behind a colon.
def readOnce (slot : Option α) (name : String) (value : List Token → Except Fault (α × List Token))
    (e : Ending) (ts : List Token) : Except Fault (Option α × List Token) := do
  if slot.isSome then throw (.mismatch (.duplicateField name))
  let (x, ts) ← value (← readColon e ts)
  return (some x, ts)

-- Passes over a field that is not known.
def skipField (e : Ending) (ts : List Token) : Except Fault (List Token) := do
  skipValue e (← readColon e ts)

-- A field that must have been set.
def required (slot : Option α) (name : String) : Except Fault α :=
  match slot with
  | some x => .ok x
  | none => .error (.mismatch (.missingField name))

-- One position of an array of fixed length, the `index`-th of those that `wanted` describes.
def readPosition (value : List Token → Except Fault (α × List Token)) (index : Nat) (wanted : String)
    (e : Ending) (ts : List Token) : Except Fault (α × List Token) := do
  let (more, ts) ← nextItem e (index = 0) ts
  if more then value ts else throw (.mismatch (.tooShort index wanted))

-- Nothing may follow a document.
def readEnd (e : Ending) : List Token → Except Fault Unit
  | [] => if e = .finished then .ok () else .error .malformed
  | _ :: _ => .error .malformed

end ExternalParser.Json
