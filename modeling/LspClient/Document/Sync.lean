import LspClient.Connection.Exchange
import LspClient.Document.Language
import LspClient.FileTree.Operations
import LspClient.Uri.File

/-!
# Keeping a server in step with documents

Operations on one document of one connection take turns on its lock, so that what the server hears
of it is one opening and then changes and savings with versions that go up by one; other documents
go on at the same time. A version is recorded after it is written.
-/

namespace LspClient

/-- What an operation did. -/
inductive SyncOutcome where
  /-- Nothing was sent. -/
  | skipped
  | opened
  | changed (version : Int)
  | saved
  deriving DecidableEq, Repr

namespace Document

variable {ε α : Type}

/-! ### The lock -/

def joinLock (uri : String) (c : Connection) : Nat × Connection :=
  let (ticket, locks) := c.locks.join uri
  (ticket, { c with locks })

def acquireLock (ticket : Nat) (c : Connection) : Option (Unit × Connection) :=
  (c.locks.acquire ticket).map fun locks => ((), { c with locks })

def releaseLock (ticket : Nat) (c : Connection) : Connection :=
  { c with locks := c.locks.release ticket }

/-- Run an operation while holding the lock of a URI. -/
def withLock (i : Nat) (uri : String) (token : Token)
    (operation : Work ε (Except Failure α)) : Work ε (Except Failure α) := do
  let ticket ← Work.onConnection i (joinLock uri)
  match ← Work.within (Limit.ofToken token) (Connection.stepOn i (acquireLock ticket)) with
  | .error e =>
    Program.update (World.onConnection i (releaseLock ticket))
    return .error e
  | .ok () =>
    let outcome ← operation
    Program.update (World.onConnection i (releaseLock ticket))
    return outcome

/-! ### Reading and recording -/

/-- The text of a file; none where there is no file. -/
def readIfExists (path : Path) : Work ε (Except Failure (Option String)) := do
  match ← Work.inBackground fun w => (w.files.readText path, w) with
  | .ok content => return .ok (some content)
  | .error .notFound => return .ok none
  | .error e => return .error (.file path e.message)

def version? (i : Nat) (uri : String) : Work ε (Option Int) := do
  return (← Work.connection i).documents.version? uri

def record (uri : String) (d : OpenDocument) (c : Connection) : Connection :=
  { c with documents := c.documents.put uri d }

/-- Record a version, and keep the language. -/
def recordVersion (uri : String) (version : Int) (c : Connection) : Connection :=
  let languageId := ((c.documents.get? uri).map (·.languageId)).getD c.languageId
  record uri ⟨version, languageId⟩ c

def invalidate (uri : String) (c : Connection) : Connection :=
  { c with cache := c.cache.invalidate uri }

/-! ### Notifications -/

def sendOpen (i : Nat) (uri : String) (path : Path) (content : String) :
    Work ε (Except Failure Unit) := do
  let languageId := languageOf path (← Work.connection i).languageId
  let params := Params.didOpen uri languageId Documents.firstVersion content
  match ← Connection.notify i Method.didOpen (some params) with
  | .error e => return .error e
  | .ok () =>
    Program.update (World.onConnection i (record uri ⟨Documents.firstVersion, languageId⟩))
    return .ok ()

def sendChange (i : Nat) (uri : String) (current : Int) (content : String) :
    Work ε (Except Failure Int) := do
  let version := Documents.nextVersion current
  match ← Connection.notify i Method.didChange (some (Params.didChange uri version content)) with
  | .error e => return .error e
  | .ok () =>
    Program.update (World.onConnection i (recordVersion uri version))
    return .ok version

def sendSave (i : Nat) (uri : String) (content : Option String) :
    Work ε (Except Failure Unit) :=
  Connection.notify i Method.didSave (some (Params.didSave uri content))

/-- Open a document, or change it if it is open. -/
def push (i : Nat) (uri : String) (path : Path) (content : String) :
    Work ε (Except Failure SyncOutcome) := do
  match ← version? i uri with
  | none => return (← sendOpen i uri path content).map fun () => .opened
  | some current => return (← sendChange i uri current content).map .changed

/-! ### Operations -/

def openLocked (i : Nat) (uri : String) (path : Path) : Work ε (Except Failure SyncOutcome) := do
  match ← version? i uri with
  | some _ => return .ok .skipped
  | none =>
    match ← readIfExists path with
    | .error e => return .error e
    | .ok none => return .ok .skipped
    | .ok (some content) => return (← sendOpen i uri path content).map fun () => .opened

/-- Open a document from disk unless it is open. A file that is missing is nothing to open. -/
def ensureOpen (i : Nat) (path : Path) (token : Token) : Work ε (Except Failure SyncOutcome) :=
  match Uri.ofPath path with
  | .error e => return .error e
  | .ok uri => withLock i uri token (openLocked i uri path)

def syncLocked (i : Nat) (uri : String) (path : Path) (content : String) :
    Work ε (Except Failure SyncOutcome) := do
  Program.update (World.onConnection i (invalidate uri))
  push i uri path content

/-- Send the content of a document. What is cached of its diagnostics is dropped first. -/
def syncContent (i : Nat) (path : Path) (content : String) (token : Token) :
    Work ε (Except Failure SyncOutcome) :=
  match Uri.ofPath path with
  | .error e => return .error e
  | .ok uri => withLock i uri token (syncLocked i uri path content)

def saveLocked (i : Nat) (uri : String) (path : Path) : Work ε (Except Failure SyncOutcome) := do
  match ← version? i uri with
  | none => return .ok .skipped
  | some _ =>
    let content ← if (← Work.connection i).wantsTextOnSave then readIfExists path
      else pure (.ok none)
    match content with
    | .error e => return .error e
    | .ok content => return (← sendSave i uri content).map fun () => .saved

/-- Tell the server that a document it has open was saved. -/
def notifySaved (i : Nat) (path : Path) (token : Token) : Work ε (Except Failure SyncOutcome) :=
  match Uri.ofPath path with
  | .error e => return .error e
  | .ok uri => withLock i uri token (saveLocked i uri path)

def refreshLocked (i : Nat) (uri : String) (path : Path) :
    Work ε (Except Failure SyncOutcome) := do
  match ← readIfExists path with
  | .error e => return .error e
  | .ok none => return .ok .skipped
  | .ok (some content) =>
    match ← push i uri path content with
    | .error e => return .error e
    | .ok outcome =>
      let text := if (← Work.connection i).wantsTextOnSave then some content else none
      return (← sendSave i uri text).map fun () => outcome

/-- Send a document as it is on disk, and that it was saved. -/
def refresh (i : Nat) (path : Path) (token : Token) : Work ε (Except Failure SyncOutcome) :=
  match Uri.ofPath path with
  | .error e => return .error e
  | .ok uri => withLock i uri token (refreshLocked i uri path)

end Document

end LspClient
