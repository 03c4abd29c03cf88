import ExternalParser.Yaml.Document
import ExternalParser.Yaml.Meaning

namespace ExternalParser.Yaml

inductive Step where
  | field (name : String)
  -- The value of a key that is no scalar by itself.
  | unknown
  | index (i : Nat)
deriving DecidableEq

-- The way to a value, its last step first.
abbrev Trail := List Step

def Trail.text : Trail → String
  | [] => "."
  | .field name :: outer => (if outer = [] then "" else Trail.text outer ++ ".") ++ name
  | .unknown :: outer => (if outer = [] then "" else Trail.text outer ++ ".") ++ "?"
  | .index i :: outer => s!"{Trail.text outer}[{i}]"

-- A text that belongs to a place of the document.
def Trail.label (trail : Trail) (text : String) : String :=
  if trail = [] then text else s!"{Trail.text trail}: {text}"

-- What does not fit, and where.
structure Misfit where
  trail : Trail
  mismatch : Mismatch
deriving DecidableEq

def dialect : Dialect := ⟨"unit value", Decimal.Layout.plain⟩

def Misfit.message (m : Misfit) : String :=
  m.trail.label (m.mismatch.message dialect)

-- Any scalar has a text, whatever else it stands for.
def readText (d : Document) (wanted : String) (trail : Trail) (n : Node Nat) :
    Except Misfit String :=
  match d.follow n with
  | .scalar _ s => .ok s.text
  | other => .error ⟨trail, other.refuse wanted⟩

-- A natural number up to a limit, which is at most that of a 64-bit word.
def readNatural (d : Document) (limit : Nat) (wanted : String) (trail : Trail) (n : Node Nat) :
    Except Misfit Nat :=
  match d.follow n with
  | .scalar _ s =>
      match if s.isOpen (coreTag "int") then natural? s.text.toList else none with
      | some n =>
          if n ≤ limit then .ok n
          else if n < Nat.pow 2 64 then .error ⟨trail, .wrongValue (.integer n) wanted⟩
          else .error ⟨trail, s.refuse wanted⟩
      | none => .error ⟨trail, s.refuse wanted⟩
  | other => .error ⟨trail, other.refuse wanted⟩

def readBool (d : Document) (trail : Trail) (n : Node Nat) : Except Misfit Bool :=
  match d.follow n with
  | .scalar _ s =>
      match if s.isOpen (coreTag "bool") then bool? s.text else none with
      | some b => .ok b
      | none => .error ⟨trail, s.refuse "a boolean"⟩
  | other => .error ⟨trail, other.refuse "a boolean"⟩

-- Whether a plain scalar says that there is no value. A tag says so only if the text does, too, and
-- any other tag says that there is one.
def isAbsent (s : Scalar) : Except Mismatch Bool :=
  if s.style ≠ .plain then .ok false
  else match s.tag with
    | none => .ok (s.text = "" || isNull s.text)
    | some tag =>
        if tag ≠ coreTag "null" then .ok false
        else if isNull s.text then .ok true
        else .error (.wrongValue (.text s.text) "null")

-- A value that may be absent. A wrong tag is a problem of the mapping around it.
def readOptional (d : Document) (read : Trail → Node Nat → Except Misfit α) (trail : Trail)
    (n : Node Nat) : Except Misfit (Option α) :=
  match d.follow n with
  | .scalar anchor s => match isAbsent s with
    | .ok true => .ok none
    | .ok false => (read trail (.scalar anchor s)).map some
    | .error m => .error ⟨trail.drop 1, m⟩
  | other => (read trail other).map some

-- The items of a sequence. An empty place is an empty sequence.
def readSequence (d : Document) (read : Trail → Node Nat → Except Misfit α) (trail : Trail)
    (n : Node Nat) : Except Misfit (List α) :=
  match d.follow n with
  | .sequence _ items => items.zipIdx.mapM fun (item, i) => read (.index i :: trail) item
  | .scalar _ s => if s.isEmpty then .ok [] else .error ⟨trail, s.refuse "a sequence"⟩
  | other => .error ⟨trail, other.refuse "a sequence"⟩

-- The entries of a mapping. An empty place is an empty mapping.
def readMapping (d : Document) (wanted : String) (trail : Trail) (n : Node Nat) :
    Except Misfit (List (Node Nat × Node Nat)) :=
  match d.follow n with
  | .mapping _ entries => .ok entries
  | .scalar _ s => if s.isEmpty then .ok [] else .error ⟨trail, s.refuse wanted⟩
  | other => .error ⟨trail, other.refuse wanted⟩

-- The entries of the whole document, which may be missing.
def readRootMapping (d : Document) (wanted : String) :
    Except Misfit (List (Node Nat × Node Nat)) :=
  match d.root with
  | some n => readMapping d wanted [] n
  | none => .ok []

-- The step to the value of a key.
def stepTo : Node Nat → Step
  | .scalar _ s => .field s.text
  | _ => .unknown

-- Hands each entry to `read` with its name and the way to its value. Names that are not known or
-- that came before are problems of the mapping. What `read` reports may be more than a misfit.
def readFields (d : Document) (known : List String)
    (read : σ → String → Trail → Node Nat → Except ε σ) (misfit : Misfit → ε) (trail : Trail) :
    List String → σ → List (Node Nat × Node Nat) → Except ε σ
  | _, draft, [] => .ok draft
  | seen, draft, (key, value) :: entries => do
      let name ← (readText d "field identifier" trail key).mapError misfit
      if !known.contains name then throw (misfit ⟨trail, .unknownField name known⟩)
      if seen.contains name then throw (misfit ⟨trail, .duplicateField name⟩)
      let draft ← read draft name (stepTo key :: trail) value
      readFields d known read misfit trail (name :: seen) draft entries

-- A field that a mapping must have.
def required (trail : Trail) (name : String) (slot : Option α) : Except Misfit α :=
  match slot with
  | some x => .ok x
  | none => .error ⟨trail, .missingField name⟩

end ExternalParser.Yaml
