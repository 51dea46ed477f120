import DotGraph.Entries

/-!
What a command knows of the files around it: directories and texts, by the names that lead to them
from the working directory.  A path that starts at the top of the file system has the name of the
top as its first part.
-/

namespace DotGraph

inductive FileNode where
  | directory
  | file (text : String)
  deriving DecidableEq

abbrev Files := Entries (List String) FileNode

/-- What a path leads to; it is blocked if a file stands where a directory is needed. -/
inductive Place where
  | missing
  | blocked
  /-- The path, or a name on the way, has too many bytes. -/
  | tooLong
  | directory
  | file (text : String)
  deriving DecidableEq

namespace Files

/-- Pieces between slashes, empty ones included. -/
def pieces : List Char → List (List Char)
  | [] => [[]]
  | c :: rest =>
    match pieces rest with
    | [] => [[c]]
    | first :: others => if c = '/' then [] :: first :: others else (c :: first) :: others

/-- The parts of a path that lead somewhere. -/
def parts (path : String) : List String :=
  let names := ((pieces path.toList).map String.ofList).filter fun p => p ≠ "" ∧ p ≠ "."
  if path.toList.head? = some '/' then "/" :: names else names

/-- Whether a path, by its end, can only lead to a directory. -/
def endsAsDirectory (path : String) : Bool :=
  match (pieces path.toList).getLast? with
  | some [] => true
  | some ['.'] => true
  | _ => false

/-- The most bytes that a name may have. -/
def nameLimit : Nat := 255

/-- The most bytes that a path may have. -/
def pathLimit : Nat := 4095

/-- No path has the character with the code zero. -/
def hasNull (path : String) : Bool :=
  path.toList.contains '\x00'

/-- The working directory, the directories above it and the top of the file system. -/
def isAbove (here : List String) : Bool :=
  here.all (· == "..") || here == ["/"]

def node? (files : Files) (here : List String) : Option FileNode :=
  if isAbove here then some .directory else files.get? here

/-- One part further: two points lead back to where the last part came from, if it is known. -/
def step (here : List String) (part : String) : List String :=
  if part = ".." then
    match here.getLast? with
    | some "/" => here
    | some ".." => here ++ [".."]
    | some _ => here.dropLast
    | none => [".."]
  else here ++ [part]

def stepTo (here : List String) (part : String) : Except Place (List String) :=
  if nameLimit < part.utf8ByteSize then .error .tooLong else .ok (step here part)

/-- Where a path leads.  Everything on the way has to be a directory; its end need not exist. -/
def walk (files : Files) (here : List String) : List String → Except Place (List String)
  | [] => .ok here
  | [part] => stepTo here part
  | part :: next :: rest => do
    let there ← stepTo here part
    match files.node? there with
    | some .directory => files.walk there (next :: rest)
    | some (.file _) => throw .blocked
    | none => throw .missing

def place (files : Files) (path : String) : Place :=
  if path = "" then .missing
  else if pathLimit < path.utf8ByteSize then .tooLong
  else
    match files.walk [] (parts path) with
    | .error place => place
    | .ok here =>
      match files.node? here with
      | none => .missing
      | some .directory => .directory
      | some (.file text) => if endsAsDirectory path then .blocked else .file text

/-- The directories on the way to somewhere. -/
def ancestors (here : List String) : List (List String) :=
  (List.range (here.length - 1)).map fun n => here.take (n + 1)

def enterDirectory (files : Files) (here : List String) : Files :=
  if files.has here then files else files.put here .directory

/-- A text under a name, with the directories that lead to it. -/
def enter (files : Files) (here : List String) (text : String) : Files :=
  ((ancestors here).foldl enterDirectory files).put here (.file text)

/-- Makes the directories along a path, one after the other.  Those that are made before one cannot
be made stay. -/
def makeDirectories (files : Files) (here : List String) :
    List String → Files × Except Place (List String)
  | [] => (files, .ok here)
  | part :: rest =>
    match stepTo here part with
    | .error place => (files, .error place)
    | .ok there =>
      match files.node? there with
      | some .directory => files.makeDirectories there rest
      | some (.file _) => (files, .error .blocked)
      | none => makeDirectories (files.put there .directory) there rest

def ofTexts (texts : List (String × String)) : Files :=
  texts.foldl (fun files entry => files.enter (parts entry.1) entry.2) []

/-- A name as a path. -/
def pathText : List String → String
  | "/" :: rest => "/" ++ "/".intercalate rest
  | here => "/".intercalate here

/-- The path with nothing in it that leads nowhere. -/
def plainPath (path : String) : String :=
  pathText (parts path)

/-- Every name that a walk along a path can come by. -/
def names (path : String) : List (List String) :=
  let steps := parts path
  (List.range steps.length).map fun n => (steps.take (n + 1)).foldl step []

end Files

end DotGraph
