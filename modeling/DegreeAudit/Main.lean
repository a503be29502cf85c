import DegreeAudit.Command.Run

/-!
# The program

The program reads the documents of the data folder, answers questions from the terminal, and ends
with the exit code of the run.
-/

namespace DegreeAudit

namespace Main

/-- The data folder unless an option names another one. -/
def defaultData : String := "data"

/-- The data folder that is read. -/
def dataFolder : DataChoice → String
  | .named path => path.render
  | _ => defaultData

/-- How to use the program. -/
def usage : String :=
  "usage: degree-audit [-h] [--major MAJOR] [--courses COURSES] [--data-dir DATA_DIR]\n" ++
    "                    [--json] [--list-majors] [--debug]\n"

/-- How many lists and objects may lie inside each other in a document. -/
def maxDepth : Nat := 900

/-- Adds the files in a part of the data folder. A part that is not there has none. -/
def addFiles (data part : String) (folder : Folder) : IO Folder := do
  let path := (← IO.currentDir) / data / part
  if !(← path.isDir) then return folder
  let mut folder := folder
  for entry in ← path.readDir do
    if !(← entry.path.isDir) then
      folder := folder.write [part, entry.fileName] (← IO.FS.readBinFile entry.path)
  return folder

/-- The documents of the data folder. -/
def readFolder (data : String) : IO Folder := do
  let folder ← addFiles data "course-data" (Folder.empty (Path.ofText data) maxDepth)
  addFiles data "requirements" folder

/-- Plays a dialogue at the terminal. -/
def converse : CommandLine.Dialogue → IO UInt32
  | .ended outcome => do
    IO.print outcome.output.render
    IO.eprint outcome.errors.render
    return UInt32.ofNat outcome.exitCode
  | .broken _ => do
    IO.eprintln "A value of the wrong kind was given."
    return 1
  | .ask output next => do
    IO.print output.render
    (← IO.getStdout).flush
    let line ← (← IO.getStdin).getLine
    converse (next (Text.trim line))

end Main

end DegreeAudit

open DegreeAudit in
/-- Runs the command line. -/
def main (words : List String) : IO UInt32 := do
  match CommandLine.read (words.map Text.ofString) with
  | .error why =>
    match why with
    | .help => IO.print Main.usage
    | .error => IO.eprint Main.usage
    return UInt32.ofNat why.exitCode
  | .ok o =>
    let folder ← Main.readFolder (Main.dataFolder o.dataDir)
    match CommandLine.registryFor o folder with
    | .ok registry => Main.converse (CommandLine.dialogue o registry)
    | .error why => Main.converse (.broken why)
