namespace ExternalParser

-- Why an entry cannot join a table.
inductive KindConflict where
  | emptyName (id : Nat)
  | idTwice (id : Nat) (old new : String)
  | nameTwice (name : String) (old new : Nat)
deriving DecidableEq

def KindConflict.message : KindConflict → String
  | .emptyName id => s!"kind {id} has an empty name"
  | .idTwice id old new => s!"kind {id} is named both '{old}' and '{new}'"
  | .nameTwice name old new => s!"kind name '{name}' is used by both {old} and {new}"

-- The entries ascend by number.
structure KindTable where
  entries : List (Nat × String)
deriving DecidableEq

namespace KindTable

def empty : KindTable := ⟨[]⟩

def name? (t : KindTable) (id : Nat) : Option String :=
  t.entries.lookup id

def id? (t : KindTable) (name : String) : Option Nat :=
  (t.entries.find? (·.2 = name)).map (·.1)

def contains (t : KindTable) (id : Nat) : Bool :=
  (t.name? id).isSome

def size (t : KindTable) : Nat :=
  t.entries.length

-- Puts an entry in front of the first one with a larger number.
def place (id : Nat) (name : String) : List (Nat × String) → List (Nat × String)
  | [] => [(id, name)]
  | (other, label) :: rest =>
      if id < other then (id, name) :: (other, label) :: rest
      else (other, label) :: place id name rest

-- Adds an entry. An empty name is reported before a repeated number, and that before a repeated
-- name.
def add (t : KindTable) (entry : Nat × String) : Except KindConflict KindTable :=
  let (id, name) := entry
  if name = "" then .error (.emptyName id)
  else match t.name? id with
    | some old => .error (.idTwice id old name)
    | none => match t.id? name with
      | some old => .error (.nameTwice name old id)
      | none => .ok ⟨place id name t.entries⟩

-- The table of a list of entries, unless one conflicts with those before it.
def ofEntries (entries : List (Nat × String)) : Except KindConflict KindTable :=
  entries.foldlM add empty

end KindTable

-- How messages call a kind.
def nodeKindText (id : Nat) : String := s!"node kind {id}"

def tokenKindText (id : Nat) : String := s!"token kind {id}"

end ExternalParser
