import DotGraph.Command

/-!
The program.  It looks at the files that its command line names, runs the command on what it has
seen, and does what came out.
-/

namespace DotGraph.Main

/-- What cannot be read as a text, although it is there, counts as a directory. -/
def look (name : List String) : IO (Option FileNode) := do
  try
    return some (.file (← IO.FS.readFile (Files.pathText name)))
  catch
    | .noFileOrDirectory .. => return none
    | _ => return some .directory

def snapshot (paths : List String) : IO Files := do
  let mut files : Files := []
  for name in paths.flatMap Files.names do
    match ← look name with
    | some node => files := files.put name node
    | none => pure ()
  return files

def perform (o : Outcome) : IO UInt32 := do
  for (name, text) in o.writes do
    for directory in Files.ancestors name do
      IO.FS.createDirAll (Files.pathText directory)
    IO.FS.writeFile (Files.pathText name) text
  IO.print o.output
  for line in o.log do
    IO.eprintln line
  match o.ending with
  | .usage => IO.eprint Command.help
  | .abort a => IO.eprintln a.message
  | _ => pure ()
  return o.ending.exitCode.toUInt32

end DotGraph.Main

def main (words : List String) : IO UInt32 := do
  let directory := toString (← IO.currentDir)
  let files ← DotGraph.Main.snapshot (DotGraph.Command.paths ⟨directory, []⟩ words)
  DotGraph.Main.perform (DotGraph.Command.runLine ⟨directory, files⟩ words)
