import Ripple.Command.Run

/-!
# The program

The part of the disk that a command needs is read, the command is run on it, and
the files that it changed are written.
-/

namespace Ripple
namespace Program

def placeOf (path : String) : Place :=
  (Path.mk path).pieces.filter fun piece => !Path.isIdlePiece piece

/-- Adds what stands at a place and below it. What cannot be read is left out. -/
partial def readTree (place : Place) (d : Disk) : IO Disk := do
  let path := (← IO.currentDir) / (Path.ofPlace place).text
  try
    if ← path.isDir then
      let d := if place = [] then d else d.put place .directory
      (← path.readDir).foldlM (fun d entry => readTree (place ++ [entry.fileName]) d) d
    else if ← path.pathExists then
      pure (d.put place (.file (← IO.FS.readBinFile path)))
    else pure d
  catch _ => pure d

/-- The files of a directory that matter for what is below it. -/
def namesAbove : List Place := [
  [Environment.fileName], [Ignore.Layer.plainFile], [Ignore.Layer.sharedFile],
  Ignore.Layer.excludeFile]

/-- Adds the directories above a place, with the files that matter below. -/
def readAbove (place : Place) (d : Disk) : IO Disk :=
  (List.range place.length).foldlM (fun d depth => do
    let directory := place.take depth
    let d := if depth = 0 then d else d.put directory .directory
    let repository := directory ++ [Ignore.Layer.repositoryName]
    let path := (← IO.currentDir) / (Path.ofPlace repository).text
    let d := if ← path.pathExists then d.put repository .directory else d
    namesAbove.foldlM (fun d names => readTree (directory ++ names) d) d) d

/-- Adds what a path leads to, if it leads anywhere. -/
def readPath (d : Disk) (p : Path) : IO Disk := do
  let path := (← IO.currentDir) / p.text
  if ← path.pathExists then
    let place := placeOf (← IO.FS.realPath path).toString
    readAbove place (← readTree place d)
  else pure d

/-- Reads what a command needs. What it needs is known better with every round. -/
def readFor (given : Environment) (d : Disk) (arguments : List String) : IO Disk :=
  match Command.Invocation.ofArguments? arguments with
  | none => pure d
  | some i =>
      (List.range 2).foldlM (fun d _ =>
        (Command.needed (given.withNearestFile d) d i).foldlM readPath d) d

def writeFile (place : Place) (bytes : ByteArray) : IO Unit := do
  let here ← IO.currentDir
  let path := (Path.ofPlace place).text
  IO.FS.writeBinFile (here / (path ++ temporaryEnding)) bytes
  IO.FS.rename (here / (path ++ temporaryEnding)) (here / path)

/-- Writes the files that one disk has and the other has not. -/
def writeChanges (before after : Disk) : IO Unit :=
  after.nodes.rows.forM fun row =>
    match row.2 with
    | .file bytes =>
        if (before.file? row.1).map ByteArray.data = some bytes.data then pure ()
        else writeFile row.1 bytes
    | .directory => pure ()

def givenEnvironment : IO Environment := do
  let rows ← [Command.configVariable, Command.backendVariable].mapM fun name => do
    pure ((← IO.getEnv name).toList.map fun value => (name, value))
  pure (.ofList rows.flatten)

end Program
end Ripple

open Ripple Program in
def main (arguments : List String) : IO UInt32 := do
  let here := placeOf (← IO.currentDir).toString
  let given ← givenEnvironment
  let start ← readAbove here { Disk.empty with here := here }
  let start := if here = [] then start else start.put here .directory
  let start ← readTree (here ++ [Environment.fileName]) start
  let d ← readFor given start arguments
  let report := Command.run given d arguments
  writeChanges d report.disk
  (← IO.getStdout).putStr report.output
  (← IO.getStderr).putStr report.errors
  pure report.code.toUInt32
