import LspClient.Message.Basic
import LspClient.Path

/-!
# Parameters

The parameters of the messages the client sends. What it offers a server is fixed; the options of a
formatting request are guessed from the indentation of the text.
-/

namespace LspClient.Params

def static : Json := .object [("dynamicRegistration", .bool false)]

def textDocument (uri : String) : String × Json :=
  ("textDocument", .object [("uri", .str uri)])

def capabilities : Json :=
  .object [
    ("general", .object [("positionEncodings", .strings ["utf-16"])]),
    ("window", .object [
      ("workDoneProgress", .bool true),
      ("showMessage", .object [
        ("messageActionItem", .object [("additionalPropertiesSupport", .bool false)])])]),
    ("workspace", .object [
      ("applyEdit", .bool true),
      ("configuration", .bool true),
      ("workspaceFolders", .bool true),
      ("workspaceEdit", .object [
        ("documentChanges", .bool true),
        ("resourceOperations", .arr []),
        ("failureHandling", .str "abort")]),
      ("didChangeConfiguration", static),
      ("didChangeWatchedFiles", static),
      ("symbol", static)]),
    ("textDocument", .object [
      ("synchronization", .object [
        ("dynamicRegistration", .bool false),
        ("willSave", .bool false),
        ("willSaveWaitUntil", .bool false),
        ("didSave", .bool true)]),
      ("publishDiagnostics", .object [
        ("relatedInformation", .bool true),
        ("versionSupport", .bool true),
        ("tagSupport", .object [("valueSet", .arr [.nat 1, .nat 2])]),
        ("codeDescriptionSupport", .bool true),
        ("dataSupport", .bool true)]),
      ("formatting", static),
      ("rangeFormatting", static),
      ("hover", .object [
        ("dynamicRegistration", .bool false),
        ("contentFormat", .strings ["markdown", "plaintext"])]),
      ("definition", .object [
        ("dynamicRegistration", .bool false),
        ("linkSupport", .bool true)]),
      ("references", static),
      ("documentSymbol", .object [
        ("dynamicRegistration", .bool false),
        ("hierarchicalDocumentSymbolSupport", .bool true)]),
      ("codeAction", .object [
        ("dynamicRegistration", .bool false),
        ("codeActionLiteralSupport", .object [
          ("codeActionKind", .object [
            ("valueSet", .strings ["quickfix", "refactor", "source.organizeImports"])])])]),
      ("rename", .object [
        ("dynamicRegistration", .bool false),
        ("prepareSupport", .bool true)])])]

/-- The handshake. `process` is the number of the client's process. -/
def handshake (process : Nat) (rootUri : String) (root : Path) (options : Option Json) : Json :=
  let options := match options with
    | some o => [("initializationOptions", o)]
    | none => []
  .object ([
    ("processId", .nat process),
    ("clientInfo", .object [("name", .str "quill"), ("version", .str "0.0.0")]),
    ("rootUri", .str rootUri),
    ("rootPath", .str root.text),
    ("capabilities", capabilities),
    ("workspaceFolders", .arr [.object [
      ("uri", .str rootUri),
      ("name", .str (root.fileName?.getD "workspace"))]])] ++ options)

def didOpen (uri languageId : String) (version : Int) (text : String) : Json :=
  .object [("textDocument", .object [
    ("uri", .str uri),
    ("languageId", .str languageId),
    ("version", .int version),
    ("text", .str text)])]

def didChange (uri : String) (version : Int) (text : String) : Json :=
  .object [
    ("textDocument", .object [("uri", .str uri), ("version", .int version)]),
    ("contentChanges", .arr [.object [("text", .str text)]])]

def didSave (uri : String) (text : Option String) : Json :=
  let text := match text with
    | some t => [("text", .str t)]
    | none => []
  .object (textDocument uri :: text)

def cancel (id : Nat) : Json := .object [("id", .nat id)]

/-! ### Formatting -/

/-- The lines of a text, without the empty one after a last line feed. -/
def linesOf (text : List Char) : List (List Char) :=
  (text.splitBy fun a _ => a ≠ '\n').map fun line =>
    match line.getLast? with
    | some '\n' => line.dropLast
    | _ => line

structure Indentation where
  tabLines : Nat
  spaceLines : Nat
  /-- Lines indented by an even number of spaces that is no multiple of four. -/
  twoSpaceLines : Nat

def Indentation.count (acc : Indentation) (line : List Char) : Indentation :=
  match line with
  | '\t' :: _ => { acc with tabLines := acc.tabLines + 1 }
  | ' ' :: _ =>
    let width := (line.takeWhile (· = ' ')).length
    let two := width % 4 ≠ 0 ∧ width % 2 = 0
    { acc with
      spaceLines := acc.spaceLines + 1
      twoSpaceLines := if two then acc.twoSpaceLines + 1 else acc.twoSpaceLines }
  | _ => acc

/-- The size of a tab, and whether spaces are inserted for it. -/
def Indentation.choose (i : Indentation) : Nat × Bool :=
  if i.tabLines > i.spaceLines then (4, false)
  else if i.twoSpaceLines > 0 ∧ i.twoSpaceLines * 2 ≥ i.spaceLines then (2, true)
  else (4, true)

def indentation (text : String) : Nat × Bool :=
  ((linesOf text.toList).foldl Indentation.count ⟨0, 0, 0⟩).choose

def formatting (uri text : String) : Json :=
  let (tabSize, insertSpaces) := indentation text
  .object [
    textDocument uri,
    ("options", .object [
      ("tabSize", .nat tabSize),
      ("insertSpaces", .bool insertSpaces),
      ("trimTrailingWhitespace", .bool true),
      ("insertFinalNewline", .bool true),
      ("trimFinalNewlines", .bool true)])]

end LspClient.Params
