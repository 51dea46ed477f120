import DotGraph.ConfigFile
import DotGraph.Files

/-!
Projects: directories that may keep their render options in a file.  The file is saved, read and
removed among the files around it.
-/

namespace DotGraph

/-- The path of a project, and the directory in which that path starts as it is shown. -/
structure Project where
  directory : String
  path : String

namespace Project

/-- Why the file of a project cannot be used. -/
inductive Error where
  | uninitialized (path : String)
  | absent (path : String)
  | tooLong (path : String)
  /-- A file stands where a directory is needed on the way. -/
  | blocked (path : String)
  /-- A file stands where the folder of the options is to be. -/
  | folderTaken (path : String)
  | isDirectory (path : String)
  | nullCharacter
  | content (e : ConfigFile.ReadError)

def Error.message : Error → String
  | uninitialized path => "No config found at " ++ path
  | absent path => "[Errno 2] No such file or directory: " ++ Text.quoted path
  | tooLong path => "[Errno 36] File name too long: " ++ Text.quoted path
  | blocked path => "[Errno 20] Not a directory: " ++ Text.quoted path
  | folderTaken path => "[Errno 17] File exists: " ++ Text.quoted path
  | isDirectory path => "[Errno 21] Is a directory: " ++ Text.quoted path
  | nullCharacter => "embedded null byte"
  | content e => e.message

/-- The path of the folder, with nothing in it that leads nowhere. -/
def folder (p : Project) : String :=
  Files.pathText (Files.parts p.path ++ [ConfigFile.folder])

def file (p : Project) : String :=
  Files.pathText (Files.parts p.path ++ [ConfigFile.folder, ConfigFile.name])

def shown (p : Project) (path : String) : String :=
  p.directory ++ "/" ++ path

def shownFile (p : Project) : String :=
  p.shown p.file

/-- What the path of the file leads to; no path with a null character leads anywhere. -/
def place (p : Project) (files : Files) : Except Error Place :=
  if Files.hasNull p.file then .ok .missing
  else
    match files.place p.file with
    | .tooLong => .error (.tooLong p.shownFile)
    | place => .ok place

def isInitialized (p : Project) (files : Files) : Except Error Bool := do
  match ← p.place files with
  | .file _ => return true
  | .directory => return true
  | _ => return false

def content (p : Project) (files : Files) : Except Error (Option String) := do
  match ← p.place files with
  | .file text => return some text
  | .directory => throw (.isDirectory p.shownFile)
  | _ => return none

def liftRead {α : Type} : Except ConfigFile.ReadError α → Except Error α
  | .ok a => .ok a
  | .error e => .error (.content e)

def load (p : Project) (files : Files) : Except Error RenderConfig := do
  match ← p.content files with
  | some text => liftRead (ConfigFile.read text)
  | none => throw (.uninitialized p.shownFile)

def loadOrDefault (p : Project) (files : Files) : Except Error RenderConfig := do
  liftRead (ConfigFile.readOrDefault (← p.content files))

/-- Why the folder cannot be made. -/
def obstacle (p : Project) (files : Files) : Place → Error
  | .tooLong => .tooLong (p.shown p.folder)
  | _ =>
    match files.place p.folder with
    | .file _ => .folderTaken (p.shown p.folder)
    | _ => .blocked (p.shown p.folder)

/-- Writes a text into the file, behind directories that are made where they are missing. -/
def write (p : Project) (files : Files) (text : String) : Files × Except Error Unit :=
  if Files.hasNull p.file then (files, .error .nullCharacter)
  else if Files.pathLimit < p.file.utf8ByteSize then (files, .error (.tooLong p.shownFile))
  else
    match files.makeDirectories [] (Files.parts p.path ++ [ConfigFile.folder]) with
    | (files, .error place) => (files, .error (p.obstacle files place))
    | (files, .ok folder) =>
      let here := folder ++ [ConfigFile.name]
      match files.node? here with
      | some .directory => (files, .error (.isDirectory p.shownFile))
      | _ => (files.put here (.file text), .ok ())

def save (p : Project) (files : Files) (c : RenderConfig) : Files × Except Error Unit :=
  p.write files (ConfigFile.text c)

def remove (p : Project) (files : Files) : Except Error Files := do
  if Files.hasNull p.file then throw .nullCharacter
  match ← p.place files, files.walk [] (Files.parts p.file) with
  | .file _, .ok here => return files.erase here
  | .directory, _ => throw (.isDirectory p.shownFile)
  | _, _ => throw (.absent p.shownFile)

end Project

end DotGraph
