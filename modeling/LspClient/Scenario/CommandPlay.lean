import LspClient.CommandLine.Run
import LspClient.Scenario.Answer
import LspClient.Scenario.Files
import LspClient.Shell.Interpreter

/-!
# Scenarios of commands

One file formatted by a command, and one run of the command line. Both run on a system with a
shell.
-/

namespace LspClient.Scenario

/-- An environment with some more variables, or other values for them. -/
def withVariables (environment : List (String × String)) (v : Json) : List (String × String) :=
  let more := (v.entries?.getD []).filterMap fun (key, value) => value.str?.map fun s => (key, s)
  environment.filter (fun (key, _) => (more.lookup key).isNone) ++ more

/-- Texts of more bytes than this are only measured. -/
def maxShown : Nat := 4096

def formattedJson (content formatted : String) : Json :=
  if formatted.utf8ByteSize ≤ maxShown then .str formatted
  else .object [
    ("len", .nat formatted.utf8ByteSize), ("unchanged", .bool (formatted == content))]

def playFormat (v : Json) : Json :=
  let files := v.member "files"
  let start : World Unit := Shell.worldOfFiles (startTree files) ()
  let start :=
    { start with environment := withVariables start.environment (v.member "env") }
  let linter :=
    CommandLinter.make Shell.machine (text v "name") (text v "program") (texts v "args")
  let content := Utf8.decodeLossy (contentOf (v.member "content"))
  let path : Path := ⟨text v "path"⟩
  let play : Work Unit (Json × Json) := do
    let (number, token) ← Work.childToken Token.never
    if flag v "cancelled" then Program.update (World.cancel number)
    let formatted ← linter.format path content token
    let items ← linter.lint path ⟨token, none⟩
    return (outcome (formattedJson content) formatted, outcome diagnosticsJson items)
  let (answers, stop) := Pool.run play start
  let (formatted, items) := answers.getD (.null, .null)
  .object [
    ("name", .str (text v "name")), ("can_format", .bool linter.canFormat),
    ("format", formatted), ("lint", items), ("files", changes files stop.files)]

/-- The code of a run in which the command line could not be read. -/
def misuseCode : Nat := CommandLine.Finished.misused.code

def playCommandLine (v : Json) : Json :=
  let files := v.member "files"
  let start : World Unit := Shell.worldOfFiles (startTree files) ()
  let (finished, stop) :=
    CommandLine.run Shell.machine (texts v "args") (contentOf (v.member "stdin")) start
  let errors := if finished.code = misuseCode then "<usage>" else finished.errors
  .object [
    ("exit", .nat finished.code), ("stdout", .str finished.output), ("stderr", .str errors),
    ("files", changes files stop.files)]

end LspClient.Scenario
