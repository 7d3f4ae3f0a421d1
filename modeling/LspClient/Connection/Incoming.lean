import LspClient.Connection.Exchange
import LspClient.Frame.Basic
import LspClient.Message.Publish
import LspClient.Workspace.Handler

/-!
# What comes in, and what goes out

Two services move the frames of a connection. The reader takes each frame in by one step,
`Connection.receive`: a response takes its call out, published diagnostics go to the cache, and a
request of the server is handed over to be answered by a program of its own. The writer takes
frames from the outbox and puts their bytes into the pipe as there is room.

Whichever of the two finds the connection broken ends it. An end fails all calls with one error,
which quotes what the server last wrote to its error stream.
-/

namespace LspClient

/-- A request of the server, to be answered. -/
structure ServerRequest where
  id : Json
  method : String
  params : Option Json

namespace Connection

/-! ### Taking a frame in -/

/-- What is left to do with a frame that was taken in. -/
inductive Received where
  | nothing
  | request (r : ServerRequest)
  /-- A call is to be completed. -/
  | response (id : Nat) (outcome : Except Failure Json)

/-- Take out the call of a response; its outcome names its method if it is an error. -/
def takeResponse (id : Nat) (outcome : Except ResponseError Json) (c : Connection) :
    Received × Connection :=
  match c.calls.take id with
  | (some method, calls) =>
    (.response id (outcome.mapError fun e => .protocol method e.code e.message), { c with calls })
  | (none, _) => (.nothing, c)

def takePublish (params : Json) (c : Connection) : Connection :=
  match Publish.decode params with
  | .ok p => { c with cache := c.cache.ingest p.uri (p.items c.name) }
  | .error _ => c

/-- The connection after a frame, and what is left to do. -/
def receive (frame : Json) (c : Connection) : Received × Connection :=
  match Message.classify frame with
  | none => (.nothing, c)
  | some (.response id outcome) => c.takeResponse id outcome
  | some (.request id method params) => (.request ⟨id, method, params⟩, c)
  | some (.notification method params) =>
    match params with
    | some p => (.nothing, if method = Method.publishDiagnostics then c.takePublish p else c)
    | none => (.nothing, c)

variable {ε : Type}

/-- Answer a request of the server. -/
def answer (i : Nat) (r : ServerRequest) : Work ε Unit := do
  let settings := (← Work.connection i).settings
  let reply := match ← Workspace.handle settings r.method r.params with
    | .ok result => Message.ofResult r.id result
    | .error e => Message.ofError r.id e
  let ticket ← Work.onConnection i join
  let _ ← enqueue i ticket (.send reply none) Limit.never

/-! ### The end of a connection -/

/-- How long the end of a connection waits for the rest of the error stream. -/
def stderrGrace : Nat := 100

def stderrText (c : Connection) : Option String :=
  if c.stderrTail.isEmpty then none else some (Utf8.decodeLossy c.stderrTail)

def recordEnd (c : Connection) : Connection :=
  { c with calls := c.calls.recordEnd c.stderrText }

def drain (c : Connection) : Table Nat String × Connection :=
  let (taken, calls) := c.calls.drain
  (taken, { c with calls })

def close (c : Connection) : Table Nat String × Connection :=
  let (taken, calls) := c.calls.close
  (taken, { c with calls })

/-- Complete a call that was taken out. -/
def complete (i id : Nat) (outcome : Except Failure Json) : Work ε Unit :=
  Program.update (World.onCalls i fun calls => calls.complete id outcome)

/-- Complete the calls that were taken out, one after another, with one error. -/
def failAll (i : Nat) (e : Failure) : Table Nat String → Work ε Unit
  | [] => return ()
  | (id, _) :: rest => do
    complete i id (.error e)
    failAll i e rest

/-- End the connection. -/
def sweep (i : Nat) : Work ε Unit := do
  let limit := (← Work.now) + stderrGrace
  Program.waitUntil limit fun w =>
    if (w.connection i).stderrDone || limit ≤ w.clock then some ((), w) else none
  Program.update (World.onConnection i recordEnd)
  let e := (← Work.connection i).calls.closedError
  failAll i e (← Work.onConnection i close)

/-! ### The reader -/

/-- Take the first frame out of the pipe, once it is there. -/
def nextEvent (i : Nat) (w : World ε) : Option (Frame.Event × World ε) :=
  let input := (w.connection i).input
  let pipe := w.pipe input
  match Frame.read pipe.sourceClosed pipe.buffer with
  | .frame v rest => some (.frame v, w.onPipe input fun p => { p with buffer := rest })
  | .failed e rest => some (.failed e, w.onPipe input fun p => { p with buffer := rest })
  | .ended => some (.ended, w)
  | .more => none

def stopReading (i : Nat) : Work ε Unit := do
  sweep i
  Program.update fun w => w.onPipe (w.connection i).input Pipe.closeSink

/-- Take in one frame; the answer says whether to go on. -/
def reader (i : Nat) : Work ε Bool := do
  match ← Program.wait (nextEvent i) with
  | .frame v =>
    match ← Work.onConnection i (receive v) with
    | .nothing => return true
    | .request r =>
      Program.fork (answer i r)
      return true
    | .response id outcome =>
      complete i id outcome
      return true
  | .failed e =>
    if e.isRecoverable then return true
    else
      stopReading i
      return false
  | .ended =>
    stopReading i
    return false

/-! ### The writer -/

inductive WriterStep where
  | goOn
  | broken
  | finished
  deriving DecidableEq, Repr

/-- Why a frame could not be written; a pipe of the system has the system's word for it. -/
def brokenPipe (c : Connection) : String :=
  if c.ofProcess then "writing frame: Broken pipe (os error 32)" else "writing frame: broken pipe"

/-- Write as much of the frame under way as there is room for. -/
def writeSome (i : Nat) (bytes : List UInt8) (ticket : Option Nat) (w : World ε) :
    Option (WriterStep × World ε) :=
  let c := w.connection i
  let pipe := w.pipe c.output
  if pipe.sinkClosed then
    some (.broken, w.setConnection i
      { c with writing := none, outbox := c.outbox.report ticket (.failed (brokenPipe c)) })
  else if pipe.isFull then none
  else
    let (rest, pipe) := pipe.offer bytes
    let w := w.onPipe c.output fun _ => pipe
    some (.goOn, w.setConnection i (match rest with
      | [] => { c with writing := none, outbox := c.outbox.report ticket .written }
      | rest => { c with writing := some (rest, ticket) }))

/-- Write on, or take the next command. -/
def writerStep (i : Nat) (w : World ε) : Option (WriterStep × World ε) :=
  let c := w.connection i
  match c.writing with
  | some (bytes, ticket) => writeSome i bytes ticket w
  | none =>
    match c.outbox.next? with
    | none => none
    | some (.send frame ticket, outbox) =>
      some (.goOn, w.setConnection i { c with outbox, writing := some (Frame.write frame, ticket) })
    | some (.shutdown, outbox) =>
      some (.finished,
        (w.onPipe c.output Pipe.closeSource).setConnection i { c with outbox := outbox.close })

def stopWriting (i : Nat) : Work ε Unit :=
  Program.update fun w =>
    (w.onPipe (w.connection i).output Pipe.closeSource).onOutbox i Outbox.close

/-- Take one step of writing; the answer says whether to go on. -/
def writer (i : Nat) : Work ε Bool := do
  match ← Program.wait (writerStep i) with
  | .goOn => return true
  | .finished => return false
  | .broken =>
    sweep i
    stopWriting i
    return false

end Connection

end LspClient
