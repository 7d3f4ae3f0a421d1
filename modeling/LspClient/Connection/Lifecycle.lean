import LspClient.Connection.Incoming
import LspClient.Process.Spawn

/-!
# The life of a connection

A connection starts over two pipes, shakes hands, and is shut down: what is outstanding is
rejected, the server is asked to exit, the stream is closed, and the process, if there is one, is
waited for and killed if it does not end in time. A second shutdown waits for the first to be over.
-/

namespace LspClient.Connection

variable {ε : Type}

def make (options : ConnectionOptions) (input output : Nat) (process : Option Nat)
    (uptime : Nat) : Connection where
  toConnectionOptions := options
  input := input
  output := output
  calls := Calls.ofServer options.name
  outbox := Outbox.empty
  writing := none
  cache := DiagnosticsCache.empty
  documents := []
  locks := Locks.empty
  capabilities := none
  lastActivity := uptime
  stderrTail := []
  stderrDone := process.isNone
  process := process
  ofProcess := process.isSome

/-! ### The error stream -/

/-- How much is kept of what a server wrote to its error stream. -/
def stderrTailSize : Nat := 8192

def takeErrors (part : List UInt8) (c : Connection) : Connection :=
  let all := c.stderrTail ++ part
  { c with stderrTail := all.drop (all.length - stderrTailSize) }

def endErrors (c : Connection) : Connection := { c with stderrDone := true }

/-- Take in a part of the error stream; the answer says whether to go on. -/
def errorReader (i : Nat) (errors : Channel) : Work ε Bool := do
  match ← errors.read 1024 with
  | [] =>
    Program.update (World.onConnection i endErrors)
    return false
  | part =>
    Program.update (World.onConnection i (takeErrors part))
    return true

/-! ### The start -/

/-- Connect over a pair of pipes; the answer is the number of the connection. -/
def start (options : ConnectionOptions) (input output : Nat) (process : Option Running) :
    Work ε Nat := do
  let child := process.map Running.child
  let i ← Program.act fun w => (w.connections.length,
    { w with connections := w.connections ++ [make options input output child w.uptime] })
  match process with
  | some p => Program.start (errorReader i (.pipe p.errors))
  | none => pure ()
  Program.start (writer i)
  Program.start (reader i)
  return i

/-! ### The handshake -/

def handshakeFailure (name : String) (e : Failure) : Failure :=
  if e.isCancelled then e else .handshake name e.message

/-- What a server says it can do. -/
def capabilitiesOf (result : Json) : Json := (result.get? "capabilities").getD (.obj [])

def tellConfiguration (i : Nat) (settings : Option Json) : Work ε Unit := do
  match settings with
  | none => return ()
  | some s =>
    let _ ← notify i "workspace/didChangeConfiguration" (some (.object [("settings", s)]))

def shakeHands (i : Nat) (options settings : Option Json) (token : Token) :
    Work ε (Except Failure Unit) := do
  let c ← Work.connection i
  match Uri.ofPath c.cwd with
  | .error e => return .error e
  | .ok uri =>
    match ← request i Method.handshake (some (Params.handshake 0 uri c.cwd options)) token none with
    | .error e => return .error (handshakeFailure c.name e)
    | .ok result =>
      Program.update (World.onConnection i fun c =>
        { c with capabilities := some (c.capabilities.getD (capabilitiesOf result)) })
      match ← notify i Method.handshakeDone (some (.obj [])) with
      | .error e => return .error (handshakeFailure c.name e)
      | .ok () =>
        tellConfiguration i settings
        return .ok ()

/-! ### Shutting down -/

def shutdownTimeout : Nat := 2000

/-- Wait until the connection is closed. -/
def untilClosed (i : Nat) : Work ε Unit :=
  Program.wait fun w => if (w.connection i).calls.closed then some ((), w) else none

/-- Ask the server to exit. -/
def askToExit (i : Nat) : Work ε Unit := do
  match ← call i Method.shutdown none Token.never (some shutdownTimeout) with
  | .ok _ =>
    let _ ← tell i Method.exit none
  | .error _ => return ()

def closeStream (i : Nat) : Work ε Unit := do
  let ticket ← Work.onConnection i join
  let _ ← enqueue i ticket .shutdown Limit.never

def beginClosing (c : Connection) : Bool × Connection :=
  let (already, calls) := c.calls.beginClosing
  (already, { c with calls })

def takeProcess (c : Connection) : Option Nat × Connection :=
  (c.process, { c with process := none })

/-- See to it that the process of the server is gone. -/
def endProcess (i : Nat) : Work ε Unit := do
  match ← Work.onConnection i takeProcess with
  | none => return ()
  | some child =>
    unless ← Process.joinWithin child shutdownTimeout do
      Process.kill child Process.killSignal
      let _ ← Process.join child

def shutdown (i : Nat) : Work ε Unit := do
  if ← Work.onConnection i beginClosing then
    untilClosed i
  else
    let name := (← Work.connection i).calls.server
    failAll i (.connectionClosed name none) (← Work.onConnection i drain)
    unless (← Work.connection i).calls.closed do
      askToExit i
    closeStream i
    endProcess i
    sweep i

/-- Shake hands with the server of an entry; if that fails the connection is shut down. -/
def establish (i : Nat) (config : ServerConfig) : Work ε (Except Failure Nat) := do
  match ← shakeHands i config.initializationOptions config.settings Token.never with
  | .ok () => return .ok i
  | .error e =>
    shutdown i
    return .error e

end LspClient.Connection
