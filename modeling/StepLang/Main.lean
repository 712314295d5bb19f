import StepLang.CommandLine.CompileCommand
import StepLang.CommandLine.InspectCommand
import StepLang.Session.Dialogue

/-!
# The command line

`repl` starts a dialogue, `inspect` shows a stage of compiling, and all other arguments go to the compile
command. A command works on a picture of the places that it may touch; the files that it changed in the
picture are then written.
-/

namespace StepLang.Main

def string (t : Text) : String := String.ofList (t.map Glyph.toChar)

def emit (stream : IO.FS.Stream) (t : Text) : IO Unit := do
  stream.write ⟨t.toBytes.toArray⟩
  stream.flush

def workPlace : IO Place := do
  return Path.resolve [] (.ofString (← IO.currentDir).toString)

def look (place : Place) : IO (Option Node) := do
  let path := (← IO.currentDir) / string (Path.ofPlace place)
  if ← path.isDir then return some .directory
  if ← path.pathExists then return some (.file (.ofBytes (← IO.FS.readBinFile path).toList))
  return none

/-- Every place on the way to a path, both looked up and by its names alone. -/
def placesOf (work : Place) (p : Text) : List Place :=
  let steps := Path.elements p
  let walked := (List.range (steps.length + 1)).map fun n =>
    (steps.take n).foldl Path.advance (Path.origin work p)
  walked.flatMap fun place => (List.range place.length).map fun n => place.take (n + 1)

def picture (paths : List Text) : IO FileSystem := do
  let work ← workPlace
  let mut fs := FileSystem.fresh work
  for place in paths.flatMap (placesOf work) do
    if let some node ← look place then fs := fs.put place node
  return fs

def commit (before after : FileSystem) : IO Unit := do
  for (place, content) in after.files do
    if before.node? place ≠ some (.file content) then
      IO.FS.createDirAll (string (Path.ofPlace (Path.parent place)))
      IO.FS.writeBinFile (string (Path.ofPlace place)) ⟨content.toBytes.toArray⟩

def compileMain (arguments : List Text) : IO UInt32 := do
  let fs ← picture (CompileCommand.paths arguments)
  let outcome := CompileCommand.run arguments fs
  commit fs outcome.files
  emit (← IO.getStdout) outcome.stdout
  emit (← IO.getStderr) outcome.stderr
  return outcome.exit.toUInt32

def inspectMain (arguments : List Text) : IO UInt32 := do
  let fs ← picture (InspectCommand.paths arguments)
  let result := InspectCommand.run arguments fs
  commit fs result.files
  emit (← IO.getStdout) result.stdout
  emit (← IO.getStderr) result.stderr
  match result.error with
  | none => return 0
  | some e =>
    emit (← IO.getStderr) (e.message ++ "\n")
    return 1

def flush (d : Dialogue) : IO Dialogue := do
  emit (← IO.getStdout) d.printed
  emit (← IO.getStderr) d.complaints
  return { d with output := [], errors := [] }

partial def converse (d : Dialogue) : IO Dialogue := do
  let d ← flush (d.print d.prompt)
  let line ← (← IO.getStdin).getLine
  match (Text.ofString line).streamLines with
  | [] => flush d.leave
  | line :: _ =>
    match d.take line with
    | (d, true) => flush d
    | (d, false) => converse d

def historyPath : IO String := do
  return (← IO.getEnv "HOME").getD "" ++ "/.adder_history"

def savedHistory (path : String) : IO Text := do
  try
    return .ofBytes (← IO.FS.readBinFile path).toList
  catch _ => return []

def replMain : IO UInt32 := do
  let path ← historyPath
  let d ← converse (.start (.load (← savedHistory path)))
  try
    IO.FS.writeBinFile path ⟨d.history.save.toBytes.toArray⟩
  catch _ => pure ()
  return 0

end StepLang.Main

open StepLang.Main in
def main (arguments : List String) : IO UInt32 :=
  match arguments with
  | ["repl"] => replMain
  | "inspect" :: rest => inspectMain (rest.map .ofString)
  | arguments => compileMain (arguments.map .ofString)
