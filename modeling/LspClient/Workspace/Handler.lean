import LspClient.Edit.Apply
import LspClient.FileTree.Replace
import LspClient.Json.Basic
import LspClient.Message.Basic
import LspClient.Uri.File
import LspClient.World

/-!
# Requests of the server

Every request of a server is answered: with its configuration, with the outcome of a workspace
edit, with null where there is nothing to tell, and otherwise with the error that there is no such
method.

A workspace edit is applied file by file. It stops at the first file that cannot be edited, and
leaves those before it as they are by then. Reading a file and writing it back are two steps.

A server asks for sections of its settings. A section is a member of the settings, or else a path
through their objects with dots between the names. No section means the settings as a whole, and
what is not there is null.
-/

namespace LspClient

namespace Configuration

/-- The names between the dots of a section. -/
def keysOf (acc : List Char) : List Char → List String
  | [] => [String.ofList acc.reverse]
  | c :: rest =>
    if c = '.' then String.ofList acc.reverse :: keysOf [] rest else keysOf (c :: acc) rest

def follow (node : Json) : List String → Option Json
  | [] => some node
  | key :: rest =>
    match node.get? key with
    | some inner => follow inner rest
    | none => none

def lookUp (settings : Json) (section_ : String) : Json :=
  match settings.get? section_ with
  | some exact => exact
  | none => (follow settings (keysOf [] section_.toList)).getD .null

/-- What a request asks for, item by item. -/
def sections (params : Option Json) : List (Option String) :=
  let items := ((params.bind fun p => p.get? "items").bind Json.arr?).getD []
  items.map fun item => (item.get? "section").bind Json.str?

def value (settings : Option Json) (section_ : Option String) : Json :=
  match settings, section_ with
  | none, _ => .null
  | some s, none => s
  | some s, some name => lookUp s name

def answer (settings : Option Json) (params : Option Json) : Json :=
  .arr ((sections params).map (value settings))

end Configuration

/-- A workspace edit that a server asks to be applied. -/
structure EditRequest where
  label : Option String
  edit : WorkspaceEdit

namespace EditRequest

open Json

def decode : Decoder EditRequest :=
  record "ApplyWorkspaceEditParams"
    [.of "label" (Decoder.nullable Decoder.text) true, .of "edit" WorkspaceEdit.decode false]
    fun ms => do
      let label ← ms.optional "label" Decoder.text
      let edit ← ms.required "edit" WorkspaceEdit.decode
      return ⟨label, edit⟩

/-- The edit that the parameters of a request ask for. -/
def ofParams (params : Option Json) : Except ResponseError EditRequest :=
  match params with
  | none => .error (ResponseError.invalidParams "missing params")
  | some p => (decode p).mapError fun e => ResponseError.invalidParams e.message

/-- The answer to a request: applied, or not, and why. -/
def reply (reason : Option String) : Json :=
  match reason with
  | none => .object [("applied", .bool true)]
  | some r => .object [("applied", .bool false), ("failureReason", .str r)]

end EditRequest

namespace Workspace

variable {ε : Type}

def readText (path : Path) (w : World ε) : Except FileError String × World ε :=
  (w.files.readText path, w)

/-- Put a text into a file in one step. -/
def writeText (path : Path) (content : String) (w : World ε) : Option FileError × World ε :=
  let done := w.files.replace path (Utf8.encode content)
  (done.error, { w with files := done.tree })

/-- Edit one file; the answer is what went wrong, if anything did. -/
def editFile (uri : String) (edits : List TextEdit) : Work ε (Option String) := do
  match Uri.toPath? uri with
  | none => return some s!"not a file URI: {uri}"
  | some path =>
    match ← Work.inBackground (readText path) with
    | .error e => return some s!"{path}: {e.message}"
    | .ok content =>
      match applyEdits content edits with
      | .error overlap => return some s!"{path}: {overlap.message}"
      | .ok updated =>
        if updated = content then return none
        else
          match ← Work.inBackground (writeText path updated) with
          | some e => return some s!"{path}: {e.message}"
          | none => return none

/-- Edit files one after another, up to the first that goes wrong. -/
def editFiles : List (String × List TextEdit) → Work ε (Option String)
  | [] => return none
  | (uri, edits) :: rest => do
    match ← editFile uri edits with
    | some reason => return some reason
    | none => editFiles rest

def applyEdit (params : Option Json) : Work ε (Except ResponseError Json) := do
  match EditRequest.ofParams params with
  | .error e => return .error e
  | .ok request =>
    match request.edit.fileEdits with
    | .error reason => return .ok (EditRequest.reply (some reason.message))
    | .ok files => return .ok (EditRequest.reply (← editFiles files))

/-- Answer a request of a server with the given settings. -/
def handle (settings : Option Json) (method : String) (params : Option Json) :
    Work ε (Except ResponseError Json) := do
  match method with
  | "workspace/configuration" => return .ok (Configuration.answer settings params)
  | "workspace/applyEdit" => applyEdit params
  | "client/registerCapability" => return .ok .null
  | "client/unregisterCapability" => return .ok .null
  | "window/workDoneProgress/create" => return .ok .null
  | _ => return .error (ResponseError.methodNotFound method)

end Workspace

end LspClient
