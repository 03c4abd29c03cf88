import ExternalParser.Path
import ExternalParser.Text.Cut
import ExternalParser.Text.Utf8

namespace ExternalParser

inductive FileError where
  | missing
  | denied
  | notDirectory
  | isDirectory
  | nameTooLong
  | nameWithNul
  | notText
  | other (reason : String)
deriving DecidableEq

def FileError.message : FileError → String
  | .missing => "No such file or directory (os error 2)"
  | .denied => "Permission denied (os error 13)"
  | .notDirectory => "Not a directory (os error 20)"
  | .isDirectory => "Is a directory (os error 21)"
  | .nameTooLong => "File name too long (os error 36)"
  | .nameWithNul => "file name contained an unexpected NUL byte"
  | .notText => "stream did not contain valid UTF-8"
  | .other reason => reason

-- A way to get at the text of files.
abbrev TextReader := String → Except FileError String

-- Files by the names that lead to them: those below the working directory, and those below the root.
-- Directories without files are listed apart.
structure Files (α : Type) where
  entries : List (List String × α)
  system : List (List String × α)
  systemFolders : List (List String)

-- A directory; of those around the working directory nothing is known.
inductive Folder where
  | work (names : List String)
  | root (names : List String)
  | around
deriving DecidableEq

-- What stands at the end of a path.
inductive Spot (α : Type) where
  | folder (f : Folder)
  | file (x : α)

namespace Files

-- The names in a path that only goes down.
def namesOf (path : String) : List String :=
  ((Path.parts path.toList).filter fun part => part ≠ [] && part ≠ ['.']).map String.ofList

-- The files of an empty working directory.
def ofList {α : Type} (files : List (String × α)) : Files α :=
  ⟨files.map fun (path, x) => (namesOf path, x), [], []⟩

-- What stands behind a list of names.
def find {α : Type} (entries : List (List String × α)) (folders : List (List String))
    (folder : List String → Folder) (names : List String) : Except FileError (Spot α) :=
  match entries.lookup names with
  | some x => .ok (.file x)
  | none =>
      if folders.contains names || entries.any (fun e => names.isPrefixOf e.1) then
        .ok (.folder (folder names))
      else .error .missing

-- One name further from a directory.
def enter {α : Type} (f : Files α) (name : String) : Folder → Except FileError (Spot α)
  | .work names => find f.entries [] .work (names ++ [name])
  | .root names => find f.system f.systemFolders .root (names ++ [name])
  | .around => .error .missing

def Folder.parent : Folder → Folder
  | .work [] => .around
  | .work names => .work names.dropLast
  | .root names => .root names.dropLast
  | .around => .around

def maxName : Nat := 255

def maxPath : Nat := 4095

-- One part further. Only a directory can be followed by anything, be it an empty part.
def step {α : Type} (f : Files α) : Spot α → String → Except FileError (Spot α)
  | .file _, _ => .error .notDirectory
  | .folder here, part =>
      if part = "" ∨ part = "." then .ok (.folder here)
      else if part = ".." then .ok (.folder (Folder.parent here))
      else if maxName < part.utf8ByteSize then .error .nameTooLong
      else f.enter part here

-- What a path leads to.
def locate {α : Type} (f : Files α) (path : String) : Except FileError (Spot α) :=
  if path.toList.contains '\x00' then .error .nameWithNul
  else if path = "" then .error .missing
  else if maxPath < path.utf8ByteSize then .error .nameTooLong
  else
    let start := if Path.isAbsolute path then Folder.root [] else .work []
    ((Path.parts path.toList).map String.ofList).foldlM f.step (.folder start)

def read {α : Type} (f : Files α) (path : String) : Except FileError α := do
  match ← f.locate path with
  | .file x => return x
  | .folder _ => throw .isDirectory

-- The text of a file of bytes.
def textOf (bytes : Bytes) : Except FileError String :=
  match Utf8.decode? bytes with
  | some text => .ok text
  | none => .error .notText

def readText (f : Files Bytes) : TextReader := fun path => do
  textOf (← f.read path)

end Files

end ExternalParser
