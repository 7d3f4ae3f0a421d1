import LspClient.CommandLine.Run
import LspClient.Shell.Interpreter

/-!
# The program

Reads the files that its command line names, runs the command line on them, and writes what it has
changed. The programs that servers and formatters can be are those of the shell.
-/

namespace LspClient.CommandLine

/-- The files among `paths` that can be read. -/
def readFiles (paths : List Path) : IO (List (Path × List UInt8)) :=
  paths.filterMapM fun path => do
    try
      return some (path, (← IO.FS.readBinFile path.text).toList)
    catch _ => return none

def writeFiles (files : List (Path × List UInt8)) : IO Unit :=
  files.forM fun (path, content) => do
    if let some dir := path.parent? then IO.FS.createDirAll dir.text
    IO.FS.writeBinFile path.text ⟨content.toArray⟩

/-- The standard input, where a request is about it. -/
def readInput (r : Request) : IO (List UInt8) := do
  match r.command with
  | .write _ none _ _ => return (← (← IO.getStdin).readBinToEnd).toList
  | _ => return []

def performRequest (r : Request) : IO Finished := do
  let cwd : Path := ⟨(← IO.currentDir).toString⟩
  let environment := match ← IO.getEnv "HOME" with
    | some home => [("HOME", home), ("PATH", Shell.systemPath)]
    | none => [("PATH", Shell.systemPath)]
  let before := treeOf cwd (← readFiles (r.files (homeOf environment) cwd))
  let start : World Unit := { Shell.worldOfFiles before () with environment }
  let (finished, stop) := runRequest Shell.machine r (← readInput r) start
  writeFiles (changedFiles start.files stop.files)
  return finished

end LspClient.CommandLine

open LspClient.CommandLine in
def main (args : List String) : IO UInt32 := do
  let finished ← match read args with
    | some r => performRequest r
    | none => pure Finished.misused
  IO.print finished.output
  IO.eprint finished.errors
  return finished.code.toUInt32
