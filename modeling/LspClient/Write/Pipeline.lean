import LspClient.Program.Basic
import LspClient.Session.Basic
import LspClient.Write.Report

/-!
# The write pipeline

A write goes through up to five steps: the servers are sent the content, it is formatted, it is put
on disk, the servers are told that it was saved, and diagnostics are collected. A step that does
not work is noted among the warnings and the others go on; only a file that cannot be written makes
the write fail. Cancellation, and a deadline that expires, give up what is optional, never the file.

A linter that can format goes before the servers. It reads the file from disk, so the content is
put there first.

The pipeline is a script. Its acts are what decides over the text on disk: to put a text there, and
to ask a linter or a server for another one.
-/

namespace LspClient

namespace WriteReport

/-- Note that a step did not work; a step that was cancelled is not worth a warning. -/
def degrade (r : WriteReport) (server step : String) (e : Failure) : WriteReport :=
  if e.isCancelled then r
  else { r with warnings := r.warnings ++ [s!"{server}: {step} failed: {e.message}"] }

def degradeAll (r : WriteReport) (step : String) :
    List (String × Except Failure SyncOutcome) → WriteReport
  | [] => r
  | (_, .ok _) :: rest => degradeAll r step rest
  | (server, .error e) :: rest => degradeAll (r.degrade server step e) step rest

def warn (r : WriteReport) (warning : String) : WriteReport :=
  { r with warnings := r.warnings ++ [warning] }

def markFormatted (r : WriteReport) (formatter : String) : WriteReport :=
  { r with formatted := true, formatter := some formatter }

end WriteReport

namespace Session

variable {ε : Type}

/-! ### Acts -/

/-- Put a text into a file. -/
def persist (path : Path) (content : String) : Work ε (Except Failure Unit) := do
  match ← Work.inBackground (Workspace.writeText path content) with
  | some e => return .error (.file path e.message)
  | none => return .ok ()

end Session

/-- What decides over the text on disk. -/
inductive WriteAct where
  /-- Make the token of a write from that of its caller. -/
  | begin (token : Token)
  | store (path : Path) (content : String)
  | lint (name : String) (kind : LinterKind) (path : Path) (content : String) (token : Token)
  /-- Ask a server, behind a connection, for the edits that format a file. -/
  | ask (server : String) (i : Nat) (params : Json) (token : Token)

namespace WriteAct

def Answer : WriteAct → Type
  | .begin _ => Nat × Token
  | .store .. => Except Failure Unit
  | .lint .. => Except Failure String
  | .ask .. => Except Failure Json

variable {ε : Type}

def performed (s : Session ε) : (o : WriteAct) → Work ε o.Answer
  | .begin token => Work.childToken token
  | .store path content => Session.persist path content
  | .lint name kind path content token => (s.linters name kind).format path content token
  | .ask _ i params token => Connection.request i Method.formatting (some params) token none

end WriteAct

abbrev WriteScript (ε α : Type) := Script (World ε) WriteAct WriteAct.Answer α

namespace WriteScript

variable {ε : Type}

def begin (token : Token) : WriteScript ε (Nat × Token) := Script.perform (WriteAct.begin token)

def store (path : Path) (content : String) : WriteScript ε (Except Failure Unit) :=
  Script.perform (WriteAct.store path content)

def lint (name : String) (kind : LinterKind) (path : Path) (content : String) (token : Token) :
    WriteScript ε (Except Failure String) :=
  Script.perform (WriteAct.lint name kind path content token)

def ask (server : String) (i : Nat) (params : Json) (token : Token) :
    WriteScript ε (Except Failure Json) :=
  Script.perform (WriteAct.ask server i params token)

end WriteScript

namespace Session

variable {ε : Type}

/-! ### Steps -/

/-- Do something on several connections at once; the results are under the servers' names. -/
def onAll (connections : List Nat) (operation : Nat → Work ε (Except Failure SyncOutcome)) :
    Work ε (List (String × Except Failure SyncOutcome)) :=
  Program.all (connections.map fun i => do
    let outcome ← operation i
    return ((← Work.connection i).name, outcome))

/-- Send the content to all servers. -/
def syncAll (connections : List Nat) (path : Path) (content : String) (token : Token)
    (r : WriteReport) : Work ε WriteReport := do
  if ← Work.isCancelled token then return r
  else
    return r.degradeAll "sync"
      (← onAll connections fun i => Document.syncContent i path content token)

/-- Tell all servers that the file was saved. -/
def saveAll (connections : List Nat) (path : Path) (token : Token) (r : WriteReport) :
    Work ε WriteReport := do
  if ← Work.isCancelled token then return r
  else
    return r.degradeAll "save notification"
      (← onAll connections fun i => Document.notifySaved i path token)

/-- Put the content on disk, and let a linter format it. -/
def formatWithLinter (name : String) (kind : LinterKind) (entry : WriteEntry) (token : Token)
    (r : WriteReport) : WriteScript ε (Except Failure (String × WriteReport)) := do
  match ← WriteScript.store entry.path entry.content with
  | .error e => return .error e
  | .ok () =>
    if ← .lift (Work.isCancelled token) then return .ok (entry.content, r)
    else
      match ← WriteScript.lint name kind entry.path entry.content token with
      | .error e => return .ok (entry.content, r.degrade name "format" e)
      | .ok formatted =>
        return .ok (formatted, if formatted = entry.content then r else r.markFormatted name)

/-- What the answer to a formatting request makes of a text: a new text, nothing, or a warning. -/
def applyFormatting (server content : String) (result : Json) (r : WriteReport) :
    Option String × WriteReport :=
  if result.isNull then (none, r)
  else
    match TextEdit.decodeList result with
    | .error e => (none, r.warn s!"{server}: malformed formatting edits: {e.message}")
    | .ok edits =>
      match applyEdits content edits with
      | .error overlap =>
        let e : Failure :=
          .protocol Method.formatting ResponseError.invalidParamsCode overlap.message
        (none, r.degrade server "format" e)
      | .ok formatted =>
        if formatted = content then (none, r) else (some formatted, r.markFormatted server)

/-- The first of the connections whose server can format. -/
def formatterOf (w : World ε) (connections : List Nat) : Option Nat :=
  connections.find? fun i => (w.connection i).supportsFormatting

/-- Ask the first server that can format for edits. -/
def formatWithServer (connections : List Nat) (path : Path) (content : String) (token : Token)
    (r : WriteReport) : WriteScript ε (Option String × WriteReport) := do
  if ← .lift (Work.isCancelled token) then return (none, r)
  else
    match ← .lift (Program.look fun w => formatterOf w connections) with
    | none => return (none, r)
    | some i =>
      let server := (← .lift (Work.connection i)).name
      match Uri.ofPath path with
      | .error e => return (none, r.degrade server "format" e)
      | .ok uri =>
        let params := Params.formatting uri content
        match ← WriteScript.ask server i params token with
        | .error e => return (none, r.degrade server "format" e)
        | .ok result => return applyFormatting server content result r

/-! ### The pipeline -/

/-- The linter that formats, if there is one. -/
def formattingLinter (s : Session ε) (targets : List Applicable) : Option (String × LinterKind) :=
  targets.findSome? fun
    | .linter name kind => if (s.linters name kind).canFormat then some (name, kind) else none
    | .protocol .. => none

/-- Bring the servers and the content to their final state, before it is written. -/
def prepare (s : Session ε) (entry : WriteEntry) (targets : List Applicable) (token : Token)
    (r : WriteReport) : WriteScript ε (Except Failure (String × WriteReport)) := do
  let connections := targets.filterMap Applicable.connection?
  let linter := if entry.options.format then s.formattingLinter targets else none
  match linter with
  | some (name, kind) =>
    match ← formatWithLinter name kind entry token r with
    | .error e => return .error e
    | .ok (formatted, r) =>
      return .ok (formatted, ← .lift (syncAll connections entry.path formatted token r))
  | none =>
    let r ← .lift (syncAll connections entry.path entry.content token r)
    if !entry.options.format then return .ok (entry.content, r)
    else
      match ← formatWithServer connections entry.path entry.content token r with
      | (none, r) => return .ok (entry.content, r)
      | (some formatted, r) =>
        return .ok (formatted, ← .lift (syncAll connections entry.path formatted token r))

/-- The last step: diagnostics, or the failures to connect among the warnings. -/
def conclude (s : Session ε) (entry : WriteEntry) (reached : Reached)
    (floors : List (String × Nat)) (timeout : Nat) (token : Token) (r : WriteReport) :
    Work ε WriteReport := do
  if entry.options.diagnostics && !(← Work.isCancelled token) then
    match ← Diagnostics.collect s.linters entry.path reached.targets timeout floors token with
    | .ok found =>
      return { r with diagnostics := some (found.withConnectFailures reached.failures) }
    | .error e =>
      if e.isCancelled then return r else return r.warn s!"diagnostics failed: {e.message}"
  else
    return reached.failures.foldl (fun r f => r.warn s!"{f.server}: {f.message}") r

/-- The number of publishes of each server so far. -/
def floorsOf (w : World ε) (targets : List Applicable) : List (String × Nat) :=
  targets.filterMap fun
    | .protocol name i => some (name, (w.connection i).cache.version)
    | .linter .. => none

def runPipeline (s : Session ε) (entry : WriteEntry) (timeout : Nat) (token : Token) :
    WriteScript ε (Except Failure WriteReport) := do
  let reached := (← .lift (s.applicable entry.path token)).toOption.getD Reached.none
  let floors ← .lift (Program.look fun w => floorsOf w reached.targets)
  match ← s.prepare entry reached.targets token (WriteReport.start entry.path) with
  | .error e => return .error e
  | .ok (content, r) =>
    match ← WriteScript.store entry.path content with
    | .error e => return .error e
    | .ok () =>
      let r := { r with bytes := content.utf8ByteSize }
      let connections := reached.targets.filterMap Applicable.connection?
      let r ← .lift (saveAll connections entry.path token r)
      return .ok (← .lift (s.conclude entry reached floors timeout token r))

/-- Cancel the token of a write when its time is over, unless the write is. -/
def deadline (limit number : Nat) : Work ε Unit :=
  Program.waitUntil limit fun w =>
    if w.isFinished number then some ((), w)
    else if limit ≤ w.clock then some ((), w.cancel number) else none

/-- The report of a pipeline whose token was cancelled, by its caller or by the deadline. -/
def markStopped (r : WriteReport) (byCaller : Bool) : WriteReport :=
  { r with cancelled := byCaller, deadlineExpired := !byCaller, diagnostics := none }

/-- Run the pipeline for one file, under a deadline. -/
def writeScript (s : Session ε) (entry : WriteEntry) (timeout : Nat) (token : Token) :
    WriteScript ε (Except Failure WriteReport) := do
  let (number, child) ← WriteScript.begin token
  let limit := (← .lift Work.now) + s.settings.writeDeadline
  .lift (Program.fork (deadline limit number))
  let outcome ← s.runPipeline entry timeout child
  .lift (Program.update (World.finish number))
  match outcome with
  | .error e => return .error e
  | .ok r =>
    if ← .lift (Work.isCancelled child) then
      return .ok (markStopped r (← .lift (Work.isCancelled token)))
    else return .ok r

def writeEntry (s : Session ε) (entry : WriteEntry) (timeout : Nat) (token : Token) :
    Work ε (Except Failure WriteReport) :=
  (s.writeScript entry timeout token).run (WriteAct.performed s)

/-! ### Writing -/

/-- What became of a write. -/
inductive WriteOutcome where
  | written (report : WriteReport)
  /-- Put off until its batch is flushed. -/
  | deferred (batch : String) (queued : Nat)
  | flushed (report : BatchReport)

/-- The batch a write belongs to, and whether it ends it. -/
structure BatchSpec where
  id : String
  flush : Bool
  deriving DecidableEq, Repr, Inhabited

def optionsOf (settings : Settings) : WriteOptions :=
  ⟨settings.formatOnWrite, settings.diagnosticsOnWrite⟩

/-- Write all entries of a batch at once. -/
def flushEntries (s : Session ε) (id : String) (entries : List WriteEntry) (token : Token) :
    Work ε BatchReport := do
  let timeout := if entries.length > 1 then s.settings.batchDiagnosticsTimeout
    else s.settings.diagnosticsTimeout
  let results ← Program.all (entries.map fun entry => do
    return (entry.path, ← s.writeEntry entry timeout token))
  return BatchReport.ofResults id results

/-- Step on the batches. -/
def onBatches {α : Type} (f : Batches → α × Batches) (w : World ε) : α × World ε :=
  let (a, batches) := f w.batches
  (a, { w with batches })

def write (s : Session ε) (path : Path) (content : String) (options : WriteOptions)
    (batch : Option BatchSpec) (token : Token) : Work ε (Except Failure WriteOutcome) := do
  let entry : WriteEntry := ⟨s.absolute path, content, options⟩
  match batch with
  | none =>
    return (← s.writeEntry entry s.settings.diagnosticsTimeout token).map .written
  | some ⟨id, false⟩ =>
    return .ok (.deferred id (← Program.act (onBatches fun b => b.defer id entry)))
  | some ⟨id, true⟩ =>
    let entries ← Program.act (onBatches fun b => b.flush id entry)
    return .ok (.flushed (← s.flushEntries id entries token))

/-- Format a file in place, without diagnostics. -/
def formatFile (s : Session ε) (path : Path) (token : Token) :
    Work ε (Except Failure WriteReport) := do
  let path := s.absolute path
  match ← Work.inBackground (Workspace.readText path) with
  | .error e => return .error (.file path e.message)
  | .ok content =>
    s.writeEntry ⟨path, content, ⟨true, false⟩⟩ s.settings.diagnosticsTimeout token

end Session

end LspClient
