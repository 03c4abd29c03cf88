namespace ExternalParser.Path

-- The parts between the slashes, in order, and every one of them.
def parts (path : List Char) : List (List Char) :=
  match path with
  | [] => [[]]
  | '/' :: rest => [] :: parts rest
  | c :: rest => match parts rest with
    | part :: others => (c :: part) :: others
    | [] => [[c]]

def isAbsolute (path : String) : Bool :=
  path.toList.head? = some '/'

-- Whether the part at a position leads anywhere.
def counts (position : Nat) (part : List Char) : Bool :=
  part ≠ [] && (part ≠ ['.'] || position = 0)

-- The parts that lead somewhere.
def steps (path : String) : List (List Char) :=
  ((parts path.toList).zipIdx.filter fun (part, i) => counts i part).map (·.1)

-- Where a path begins and which way it leads. Paths that agree in both are the same.
structure Route where
  absolute : Bool
  steps : List (List Char)
deriving DecidableEq

def route (path : String) : Route := ⟨isAbsolute path, steps path⟩

-- A path after another one; an absolute path stands for itself.
def join (base path : String) : String :=
  if isAbsolute path then path
  else
    let separated := base = "" || base.toList.getLast? = some '/'
    (if separated then base else base ++ "/") ++ path

-- The parts, in reverse and with their positions, from the last one on that leads somewhere.
def fromLastStep : List (List Char × Nat) → List (List Char × Nat)
  | [] => []
  | (part, i) :: rest => if counts i part then (part, i) :: rest else fromLastStep rest

-- The directory that holds the last step; a path without steps has none.
def parent? (path : String) : Option String :=
  match fromLastStep (parts path.toList).zipIdx.reverse with
  | [] => none
  | _ :: before => match fromLastStep before with
    | [] => some (if isAbsolute path then "/" else "")
    | kept => some (String.ofList (['/'].intercalate (kept.reverse.map (·.1))))

-- The root, if the path begins there, and the steps.
def components (path : String) : List (List Char) :=
  (if isAbsolute path then [['/']] else []) ++ steps path

-- A name without a directory, to be looked up among the installed programs: it is the one component,
-- and the directory that holds it has no name.
def isBareName (path : String) : Bool :=
  (components path).length = 1 && (parent? path).map route = some (route "")

-- The path as seen from a directory. Bare names stay what they are.
def resolve (base path : String) : String :=
  if isAbsolute path || isBareName path then path else join base path

end ExternalParser.Path
